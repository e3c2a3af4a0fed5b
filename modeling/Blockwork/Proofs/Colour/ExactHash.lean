import Mathlib
import Blockwork.Colour.Lab

/-!
# The category hash never overflows

`Colour.hash` runs DJB2 in machine words: the shift wraps in a signed 32-bit word and the sums are
taken in signed 64-bit words. Read over the integers, one step turns the hash `h` into
`bmod (32 · h) 2³² + h + u`, and that integer reading is what the machine computes on every
string shorter than `2³¹` UTF-16 units (`hash_exact`).

A step moves the hash by at most `2³¹ + 65535`: the wrapped shift lies in `[-2³¹, 2³¹)` and a
unit in `[0, 65536)` (`abs_djb2Step_le`). After `k` units the hash is therefore at most
`5381 + k · (2³¹ + 65535)` in size, below `2⁶³` for `k < 2³¹`, so no 64-bit sum wraps
(`toInt_foldl_hashStep`). The colour coordinates are truncating remainders of such hashes, which
keeps them within the sizes of their divisors whatever the hash (`labOfName_bounds`).
-/

namespace Blockwork.Colour

/-- One DJB2 step over the integers: the shifted hash cut to a signed 32-bit word, plus the hash
and the unit. -/
def djb2Step (h : Int) (u : Nat) : Int :=
  (32 * h).bmod (2 ^ 32) + h + u

/-- The DJB2 hash of a list of code units over the integers. -/
def djb2 (us : List Nat) : Int :=
  us.foldl djb2Step 5381

/-! ### Code units -/

theorem utf16Units_lt (c : Char) : ∀ u ∈ utf16Units c, u < 65536 := by
  have hc : c.toNat < 1114112 := by
    have h := c.valid
    simp only [UInt32.isValidChar, Nat.isValidChar] at h
    show c.val.toNat < 1114112
    omega
  intro u hu
  simp only [utf16Units] at hu
  split_ifs at hu with hsmall
  · simp only [List.mem_singleton] at hu
    omega
  · simp only [List.mem_cons, List.not_mem_nil, or_false] at hu
    omega

/-- Every UTF-16 code unit fits in 16 bits. -/
theorem units16_lt (s : String) : ∀ u ∈ units16 s, u < 65536 := by
  intro u hu
  obtain ⟨c, -, hcu⟩ := List.mem_flatMap.mp hu
  exact utf16Units_lt c u hcu

/-! ### One step -/

/-- The shift of a signed 32-bit word by five multiplies it by 32, wrapping. -/
theorem toInt_shiftLeft_five (a : Int32) : (a <<< 5).toInt = (32 * a.toInt).bmod (2 ^ 32) := by
  have hmul : a <<< 5 = a * 32 := by
    apply Int32.toBitVec_inj.mp
    show a.toBitVec <<< ((5 : Int32).toBitVec.smod 32) = a.toBitVec * (32 : Int32).toBitVec
    rw [show (5 : Int32).toBitVec.smod 32 = 5 by decide, BitVec.shiftLeft_eq',
      BitVec.shiftLeft_eq_mul_twoPow]
    rfl
  rw [hmul, Int32.toInt_mul, mul_comm]
  rfl

/-- The wrapped shift of a step lies in `[-2³¹, 2³¹)`. -/
theorem abs_bmod_shift_le (h : Int) : |(32 * h).bmod (2 ^ 32)| ≤ 2 ^ 31 := by
  have hlo := @Int.le_bmod (32 * h) (2 ^ 32) (by decide)
  have hhi := @Int.bmod_lt (32 * h) (2 ^ 32) (by decide)
  rw [abs_le]
  constructor <;> omega

/-- One step moves the hash by at most `2³¹ + 65535`. -/
theorem abs_djb2Step_le (h : Int) {u : Nat} (hu : u < 65536) :
    |djb2Step h u| ≤ |h| + (2 ^ 31 + 65535) := by
  have hs := abs_le.mp (abs_bmod_shift_le h)
  rw [djb2Step, abs_le]
  cases abs_cases h <;> constructor <;> omega

/-- A machine step computes the integer step while the hash is small enough for its sums. -/
theorem toInt_hashStep {h : Int64} {u : Nat} (hu : u < 65536)
    (hh : |h.toInt| + (2 ^ 31 + 65535) < 2 ^ 63) :
    (hashStep h u).toInt = djb2Step h.toInt u := by
  have hs := abs_le.mp (abs_bmod_shift_le h.toInt)
  have hb := abs_lt.mp (show |h.toInt| < 2 ^ 63 - (2 ^ 31 + 65535) by omega)
  have hshift : (h.toInt32 <<< 5).toInt64.toInt = (32 * h.toInt).bmod (2 ^ 32) := by
    rw [Int32.toInt_toInt64, toInt_shiftLeft_five, Int64.toInt_toInt32, Int.mul_bmod_bmod]
  have hunit : (Int64.ofNat u).toInt = u := Int64.toInt_ofNat_of_lt (by omega)
  rw [hashStep, Int64.toInt_add, Int64.toInt_add, hshift, hunit, djb2Step,
    Int.bmod_eq_of_le (n := (32 * h.toInt).bmod (2 ^ 32) + h.toInt) (by omega) (by omega),
    Int.bmod_eq_of_le (by omega) (by omega)]

/-! ### A whole string -/

/-- The hash moves by at most `2³¹ + 65535` per unit. -/
theorem abs_foldl_djb2Step_le {us : List Nat} (hus : ∀ u ∈ us, u < 65536) (h : Int) :
    |us.foldl djb2Step h| ≤ |h| + us.length * (2 ^ 31 + 65535) := by
  induction us generalizing h with
  | nil => simp
  | cons u us ih =>
    have hstep := abs_djb2Step_le h (hus u List.mem_cons_self)
    have hrest := ih (fun v hv => hus v (List.mem_cons_of_mem u hv)) (djb2Step h u)
    rw [List.foldl_cons, List.length_cons]
    push_cast
    omega

/-- The machine fold computes the integer fold as long as the hash stays a step's margin below
`2⁶³` for every unit left. -/
theorem toInt_foldl_hashStep {us : List Nat} (hus : ∀ u ∈ us, u < 65536) (h : Int64)
    (hh : |h.toInt| + us.length * (2 ^ 31 + 65535) < 2 ^ 63) :
    (us.foldl hashStep h).toInt = us.foldl djb2Step h.toInt := by
  induction us generalizing h with
  | nil => rfl
  | cons u us ih =>
    have hu := hus u List.mem_cons_self
    rw [List.length_cons] at hh
    push_cast at hh
    have hstep := toInt_hashStep (h := h) hu (by omega)
    have hmove := abs_djb2Step_le h.toInt hu
    rw [List.foldl_cons, List.foldl_cons, ← hstep]
    apply ih (fun v hv => hus v (List.mem_cons_of_mem u hv))
    rw [hstep]
    omega

/-- From the seed, a run of fewer than `2³¹` units is computed exactly in machine words, and the
integer hash it gives is at most `5381 + k · (2³¹ + 65535)` in size after `k` units. -/
theorem foldl_hashStep_exact {us : List Nat} (hus : ∀ u ∈ us, u < 65536)
    (hlen : us.length < 2 ^ 31) :
    (us.foldl hashStep 5381).toInt = djb2 us ∧
      |djb2 us| ≤ 5381 + us.length * (2 ^ 31 + 65535) := by
  have hseed : (5381 : Int64).toInt = 5381 := rfl
  have habs : |(5381 : Int)| = 5381 := abs_of_nonneg (by decide)
  have hbound := abs_foldl_djb2Step_le hus 5381
  rw [habs] at hbound
  refine ⟨?_, hbound⟩
  rw [toInt_foldl_hashStep hus 5381 (by rw [hseed, habs]; omega), hseed]
  rfl

/-! ### Colour coordinates -/

/-- The lightness of a name's colour lies in `[-39, 79]` and its chroma coordinates in
`[-239, 79]`, whatever the hashes: a truncating remainder is smaller than its divisor in size. -/
theorem labOfName_bounds (name : String) :
    -39 ≤ (labOfName name).1 ∧ (labOfName name).1 ≤ 79 ∧
    -239 ≤ (labOfName name).2.1 ∧ (labOfName name).2.1 ≤ 79 ∧
    -239 ≤ (labOfName name).2.2 ∧ (labOfName name).2.2 ≤ 79 := by
  have hl := Int.lt_tmod_of_pos (hash (name ++ "a")) (b := 60) (by decide)
  have hl' := Int.tmod_lt_of_pos (hash (name ++ "a")) (b := 60) (by decide)
  have ha := Int.lt_tmod_of_pos (hash (name ++ "ab")) (b := 160) (by decide)
  have ha' := Int.tmod_lt_of_pos (hash (name ++ "ab")) (b := 160) (by decide)
  have hb := Int.lt_tmod_of_pos (hash (name ++ "abc")) (b := 160) (by decide)
  have hb' := Int.tmod_lt_of_pos (hash (name ++ "abc")) (b := 160) (by decide)
  simp only [labOfName]
  omega

/-- **The category hash is exact.** On a string of fewer than `2³¹` UTF-16 units, every prefix
hash computed in machine words is its integer DJB2 reading, which stays within
`5381 + k · (2³¹ + 65535)` after `k` units; so the hash is the integer reference, and the colour
of the name is drawn from a lightness in `[-39, 79]` and chroma coordinates in `[-239, 79]`. -/
theorem hash_exact (s : String) (hs : (units16 s).length < 2 ^ 31) :
    hash s = djb2 (units16 s) ∧
    (∀ k ≤ (units16 s).length,
      (((units16 s).take k).foldl hashStep 5381).toInt = djb2 ((units16 s).take k) ∧
      |djb2 ((units16 s).take k)| ≤ 5381 + k * (2 ^ 31 + 65535)) ∧
    ∃ l a b, ofName s = labToHex (Decimal.ofInt l) (Decimal.ofInt a) (Decimal.ofInt b) ∧
      -39 ≤ l ∧ l ≤ 79 ∧ -239 ≤ a ∧ a ≤ 79 ∧ -239 ≤ b ∧ b ≤ 79 := by
  -- every prefix of the units is a run of fewer than `2³¹` units
  have hsteps : ∀ k ≤ (units16 s).length,
      (((units16 s).take k).foldl hashStep 5381).toInt = djb2 ((units16 s).take k) ∧
      |djb2 ((units16 s).take k)| ≤ 5381 + k * (2 ^ 31 + 65535) := by
    intro k hk
    have hlen : ((units16 s).take k).length = k := List.length_take_of_le hk
    have hrun := foldl_hashStep_exact (fun u hu => units16_lt s u (List.mem_of_mem_take hu))
      (by omega : ((units16 s).take k).length < 2 ^ 31)
    rwa [hlen] at hrun
  refine ⟨(foldl_hashStep_exact (units16_lt s) hs).1, hsteps, ?_⟩
  · obtain ⟨hl, hl', ha, ha', hb, hb'⟩ := labOfName_bounds s
    exact ⟨_, _, _, rfl, hl, hl', ha, ha', hb, hb'⟩

/-- The hash of a seven-letter category name, whose shifts wrap, is its integer reading. -/
theorem strings_hash_exact :
    (units16 "Strings").length < 2 ^ 31 ∧ hash "Strings" = djb2 (units16 "Strings") :=
  ⟨by decide, (hash_exact "Strings" (by decide)).1⟩

end Blockwork.Colour
