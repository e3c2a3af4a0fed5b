import Blockwork.Proofs.Decimal.Unit
import Blockwork.Proofs.Plan.Selection

/-!
# A stored field value survives being set again

Setting a field to the value it already holds is meant to change nothing. For most kinds this is
plain: what the check of a kind stores it accepts again as it is. Two kinds compute in doubles.

A number field without rounding raises its value to the minimum and lowers it to the maximum,
and stores a whole result as an integer. Clamping twice is clamping once (`clampTo_clampTo`, since
no double is below itself), and a stored number reads back as the double it was computed as, or
as the other zero (`Num.toFloat_ofComputed`), which the bounds treat alike. With rounding to a
positive precision the value can move: rounding, then raising to a minimum that is off the grid
of the precision, stores a value that rounds elsewhere the next time (`stored_value_can_move`).
The grid of `1` is the whole doubles: a finite double over and times `1` is itself
(`div_one_of_finite`), rounding gives a whole double (`roundHalfAway_whole`), which rounds to
itself (`roundHalfAway_of_whole`), and clamping to whole bounds keeps it whole. Between whole
bounds, precision `1` keeps what it stored (`accept_number_one_settles`); the kinds left out are
those that round off a grid a value can leave (`FieldKind.roundsOffGrid`).

An angle is reduced into `[0, 360]` (`euclidRem_le`). A reduced value below `360` reduces to
itself, since the reduction is exact there (`euclidRem_of_lt`). A negative angle within `2^-45` of
a multiple of `360` moves up to `360` itself, which the next reduction takes to `0`.

A field is stored (`Field.Stored`) when its number bounds are finite and its value is what its
kind stores for some finite value. Every maker makes a stored field from finite arguments
(`FieldData.make_stored`), and setting finite values keeps it stored (`Field.Stored.setAll`).
`field_value_settles` puts these together: setting such a field to its own value keeps it, but for
an angle at `360`, which becomes `0`. Numbers in JSON are finite, since the reader refuses the rest
(`Json.isFiniteNumber`).
-/

namespace Blockwork

open Decimal

/-! ### Computed numbers as JSON -/

/-- The positive zero reads as the significand `0` at the least exponent. -/
theorem unpack_zero_bits :
    unpack (Float.ofBits (bitsOf false 0 (-1074)).toUInt64) = .finite false 0 (-1074) :=
  unpack_ofBits_bitsOf (.inr ⟨by norm_num, rfl⟩)

namespace Num

/-- A whole double below `2^63` in magnitude is stored as that integer. -/
theorem ofComputed_of_whole {y : Float} {neg : Bool} {m : Nat} {e : Int} {n : Nat}
    (h : unpack y = .finite neg m e) (hv : (m : ℚ) * 2 ^ e = n) (hn : n < 2 ^ 63) :
    ofComputed y = .int (if neg then -(n : Int) else n) := by
  unfold ofComputed
  rw [h]
  simp only [Nat.pow_eq]
  by_cases he : e ≥ 0
  · -- a non-negative exponent: the value is `m · 2^e` itself
    obtain ⟨k, rfl⟩ := Int.eq_ofNat_of_zero_le he
    rw [zpow_natCast] at hv
    have hmk : m * 2 ^ k = n := by exact_mod_cast hv
    rw [if_pos he]
    simp only [Int.toNat_natCast, hmk, if_pos hn]
  · -- a negative exponent: `m` is `n` shifted left
    obtain ⟨k, hk⟩ := Int.exists_eq_neg_ofNat (le_of_lt (not_le.mp he))
    subst hk
    rw [zpow_neg, zpow_natCast, ← div_eq_mul_inv, div_eq_iff (by positivity)] at hv
    have hmk : m = n * 2 ^ k := by exact_mod_cast hv
    rw [if_neg he]
    simp [hmk]

/-- Both zeros are stored as the integer `0`. -/
theorem ofComputed_of_zero {y : Float} {neg : Bool} {e : Int} (h : unpack y = .finite neg 0 e) :
    ofComputed y = .int 0 := by
  rw [ofComputed_of_whole (n := 0) h (by simp) (by norm_num)]
  simp

/-- The positive zero. -/
theorem toFloat_int_zero : (Num.int 0).toFloat = Float.ofBits (bitsOf false 0 (-1074)).toUInt64 :=
  nearest_exact (.inr ⟨by norm_num, rfl⟩) one_pos (by simp)

/-- A finite double is stored as itself, or as a whole number below `2^63` that it equals. -/
theorem ofComputed_cases {y : Float} {neg : Bool} {m : Nat} {e : Int}
    (h : unpack y = .finite neg m e) :
    ofComputed y = .float y ∨ ∃ n : Nat, (m : ℚ) * 2 ^ e = n ∧ n < 2 ^ 63 ∧
      ofComputed y = .int (if neg then -(n : Int) else n) := by
  have hc := (eq_ofBits_bitsOf h).1
  unfold ofComputed
  rw [h]
  simp only [Nat.pow_eq]
  by_cases he : e ≥ 0
  · obtain ⟨k, rfl⟩ := Int.eq_ofNat_of_zero_le he
    rw [if_pos he]
    simp only [Int.toNat_natCast]
    by_cases hlt : m * 2 ^ k < 2 ^ 63
    · exact .inr ⟨m * 2 ^ k, by simp, hlt, by rw [if_pos hlt]⟩
    · exact .inl (by rw [if_neg hlt])
  · obtain ⟨k, hk⟩ := Int.exists_eq_neg_ofNat (le_of_lt (not_le.mp he))
    subst hk
    rw [if_neg he]
    simp only [neg_neg, Int.toNat_natCast]
    by_cases hdiv : m % 2 ^ k = 0
    · refine .inr ⟨m / 2 ^ k, ?_, ?_, by rw [if_pos hdiv]⟩
      · rw [Nat.cast_div (Nat.dvd_of_mod_eq_zero hdiv) (by positivity), zpow_neg, zpow_natCast]
        push_cast
        ring
      · have : m < 2 ^ 53 := by unfold Canonical at hc; omega
        calc m / 2 ^ k ≤ m := Nat.div_le_self _ _
          _ < 2 ^ 63 := by omega
    · exact .inl (by rw [if_neg hdiv])

/-- **A stored number reads back as the double it was computed from**, or, for a zero, as the
positive zero. -/
theorem toFloat_ofComputed {y : Float} {neg : Bool} {m : Nat} {e : Int}
    (h : unpack y = .finite neg m e) :
    (ofComputed y).toFloat = y ∨ (m = 0 ∧ ofComputed y = .int 0) := by
  rcases Nat.eq_zero_or_pos m with rfl | hm
  · exact .inr ⟨rfl, ofComputed_of_zero h⟩
  obtain ⟨hc, hy⟩ := eq_ofBits_bitsOf h
  left
  rcases ofComputed_cases h with hfloat | ⟨n, hv, hn, hint⟩
  · rw [hfloat]
    rfl
  · -- a whole value is stored as an integer, which reads back through `nearest`
    have hpos : 0 < n := by
      have : (0 : ℚ) < n := by rw [← hv]; positivity
      exact_mod_cast this
    rw [hint, hy]
    show nearest _ _ 1 = _
    have hsign : decide ((if neg then -(n : Int) else n) < 0) = neg := by
      cases neg
      · simp
      · simpa using hpos
    have habs : (if neg then -(n : Int) else n).natAbs = n := by cases neg <;> simp
    rw [hsign, habs]
    exact nearest_exact hc one_pos (by rw [← hv]; simp)

end Num

/-- A finite double is stored as a number. -/
theorem Json.ofComputed_of_finite {y : Float} {neg : Bool} {m : Nat} {e : Int}
    (h : unpack y = .finite neg m e) : Json.ofComputed y = .num (Num.ofComputed y) := by
  have hfin : (y.isNaN || y.isInf) = false :=
    isNaN_or_isInf_eq_false_iff.mpr (isFinite_iff.mpr ⟨_, _, _, h⟩)
  rw [Json.ofComputed, if_neg (by rw [hfin]; decide)]

/-! ### Clamping -/

/-- `x` raised to the minimum, if there is one. -/
def raiseTo (min : Option Float) (x : Float) : Float :=
  match min with
  | some lo => if x < lo then lo else x
  | none => x

/-- `x` lowered to the maximum, if there is one. -/
def lowerTo (max : Option Float) (x : Float) : Float :=
  match max with
  | some hi => if x > hi then hi else x
  | none => x

/-- `x` raised to the minimum, then lowered to the maximum, as a number field does. -/
def clampTo (min max : Option Float) (x : Float) : Float := lowerTo max (raiseTo min x)

/-- Without rounding, a number field stores its value clamped. -/
theorem numberValue_eq_clampTo {min max precision : Option Float} (x : Float)
    (hp : ∀ p, precision = some p → ¬ p > 0.0) :
    numberValue min max precision x = Json.ofComputed (clampTo min max x) := by
  cases precision with
  | none => rfl
  | some p =>
    simp only [numberValue, if_neg (hp p rfl)]
    rfl

/-- **Clamping twice is clamping once.** What is raised to the minimum is not below it, and a
maximum below the minimum wins both times. -/
theorem clampTo_clampTo (min max : Option Float) (x : Float) :
    clampTo min max (clampTo min max x) = clampTo min max x := by
  cases min <;> cases max <;> simp only [clampTo, raiseTo, lowerTo] <;> split_ifs <;>
    simp_all [not_lt_self]

/-- The clamped value is the value or one of the bounds. -/
theorem clampTo_mem (min max : Option Float) (x : Float) :
    clampTo min max x ∈ x :: (min.toList ++ max.toList) := by
  cases min with
  | none =>
    cases max with
    | none => exact List.mem_cons_self
    | some hi =>
      simp only [clampTo, raiseTo, lowerTo, gt_iff_lt]
      split_ifs <;> simp
  | some lo =>
    cases max with
    | none =>
      simp only [clampTo, raiseTo, lowerTo]
      split_ifs <;> simp
    | some hi =>
      simp only [clampTo, raiseTo, lowerTo, gt_iff_lt]
      split_ifs <;> simp

/-- What holds of the value and of both bounds holds of the clamped value. -/
theorem clampTo_forall (P : Float → Prop) {min max : Option Float} {x : Float} (hx : P x)
    (hmin : ∀ l ∈ min, P l) (hmax : ∀ h ∈ max, P h) : P (clampTo min max x) := by
  rcases List.mem_cons.mp (clampTo_mem min max x) with hy | hy
  · rw [hy]; exact hx
  · rcases List.mem_append.mp hy with hy | hy
    · exact hmin _ (Option.mem_toList.mp hy)
    · exact hmax _ (Option.mem_toList.mp hy)

/-- Both zeros are clamped alike: to the same bound, or each to itself. -/
theorem clampTo_of_zero (min max : Option Float) {a b : Float} {s t : Float.Model.UnpackedFloat.Sign}
    (ha : a.toModel.unpack = .zero s) (hb : b.toModel.unpack = .zero t) :
    clampTo min max b = clampTo min max a ∨ (clampTo min max b = b ∧ clampTo min max a = a) := by
  have hlt := lt_congr_of_zero hb ha
  -- each comparison with a bound comes out the same for both zeros
  cases min with
  | none =>
    cases max with
    | none => exact .inr ⟨rfl, rfl⟩
    | some hi =>
      simp only [clampTo, raiseTo, lowerTo, gt_iff_lt, (hlt hi).2]
      split_ifs <;> simp
  | some lo =>
    cases max with
    | none =>
      simp only [clampTo, raiseTo, lowerTo, (hlt lo).1]
      split_ifs <;> simp
    | some hi =>
      simp only [clampTo, raiseTo, lowerTo, gt_iff_lt, (hlt lo).1]
      split_ifs with hb1 hb2 ha2 hb2' ha2' <;> simp_all [(hlt hi).2]

/-! ### Rounding to whole numbers -/

/-- Whether a double is a whole number: finite, with no bits below the unit. -/
def wholeDouble (y : Float) : Bool :=
  match unpack y with
  | .finite _ m q => decide (0 ≤ q) || m % 2 ^ (-q).toNat == 0
  | _ => false

theorem wholeDouble_iff {y : Float} :
    wholeDouble y = true ↔ ∃ neg m q, unpack y = .finite neg m q ∧ (0 ≤ q ∨ m % 2 ^ (-q).toNat = 0) := by
  unfold wholeDouble
  split
  · rename_i neg m q h
    simp [h]
  · rename_i h
    simp only [Bool.false_eq_true, false_iff, not_exists, not_and]
    intro neg m q hq
    exact absurd hq (h neg m q)

theorem wholeDouble_isFinite {y : Float} (h : wholeDouble y = true) : y.isFinite = true := by
  obtain ⟨neg, m, q, hy, -⟩ := wholeDouble_iff.mp h
  exact isFinite_iff.mpr ⟨neg, m, q, hy⟩

/-- A whole number below `2^53` is a double with no bits below the unit. -/
theorem canonical_of_whole {n : Nat} (hn : n < 2 ^ 53) :
    ∃ m e, Canonical m e ∧ (n : ℚ) = m * 2 ^ e * 1 ∧ m % 2 ^ (-e).toNat = 0 := by
  rcases Nat.eq_zero_or_pos n with rfl | hpos
  · exact ⟨0, -1074, .inr ⟨by norm_num, rfl⟩, by simp, Nat.zero_mod _⟩
  -- `n` has `log2 n + 1` bits; shifting it up to `53` bits puts its unit at `2^(log2 n - 52)`
  have hlog : n.log2 ≤ 52 := Nat.lt_succ_iff.mp ((Nat.log2_lt (by omega)).mpr hn)
  have hlo : 2 ^ n.log2 ≤ n := Nat.log2_self_le (by omega)
  have hhi : n < 2 ^ (n.log2 + 1) := Nat.lt_log2_self
  refine ⟨n * 2 ^ (52 - n.log2), (n.log2 : Int) - 52, .inl ⟨?_, ?_, by omega, by omega⟩, ?_, ?_⟩
  · calc 2 ^ 52 = 2 ^ n.log2 * 2 ^ (52 - n.log2) := by rw [← Nat.pow_add]; congr 1; omega
      _ ≤ n * 2 ^ (52 - n.log2) := Nat.mul_le_mul_right _ hlo
  · calc n * 2 ^ (52 - n.log2) < 2 ^ (n.log2 + 1) * 2 ^ (52 - n.log2) :=
          Nat.mul_lt_mul_of_pos_right hhi (by positivity)
      _ = 2 ^ 53 := by rw [← Nat.pow_add]; congr 1; omega
  · have h : ((n.log2 : Int) - 52) = -((52 - n.log2 : Nat) : Int) := by omega
    rw [h, zpow_neg, zpow_natCast]
    push_cast
    field_simp
  · have h : (-((n.log2 : Int) - 52)).toNat = 52 - n.log2 := by omega
    rw [h, Nat.mul_mod_left]


/-- The quotient that rounds `m / 2^k` half away from zero is at most `m`. -/
theorem roundHalf_le {m k : Nat} (hk : 0 < k) : (2 * m + 2 ^ k) / 2 ^ (k + 1) ≤ m := by
  have h2k : 2 ≤ 2 ^ k := Nat.le_self_pow (by omega) 2
  rcases Nat.eq_zero_or_pos m with rfl | hm
  · exact Nat.le_zero.mpr (Nat.div_eq_of_lt (by rw [Nat.pow_succ]; omega))
  · apply Nat.div_le_of_le_mul
    rw [Nat.pow_succ]
    nlinarith

/-- A finite double with a negative exponent rounds as `m / 2^k`, with half of `2^k` added first. -/
theorem roundHalfAway_finite {y : Float} {neg : Bool} {m : Nat} {q : Int}
    (h : unpack y = .finite neg m q) :
    roundHalfAway y =
      if 0 ≤ q then y else nearest neg ((2 * m + 2 ^ (-q).toNat) / 2 ^ ((-q).toNat + 1)) 1 := by
  simp only [roundHalfAway, h, Nat.pow_eq]

/-- Rounding half away from zero gives a whole double. -/
theorem roundHalfAway_whole {y : Float} (hy : y.isFinite = true) : wholeDouble (roundHalfAway y) = true := by
  obtain ⟨neg, m, q, h⟩ := isFinite_iff.mp hy
  have hc := (eq_ofBits_bitsOf h).1
  rw [roundHalfAway_finite h]
  by_cases hq : 0 ≤ q
  · rw [if_pos hq]
    exact wholeDouble_iff.mpr ⟨neg, m, q, h, .inl hq⟩
  · rw [if_neg hq]
    have hm : m < 2 ^ 53 := by unfold Canonical at hc; omega
    obtain ⟨m', e', hc', hv, hwhole⟩ := canonical_of_whole
      ((roundHalf_le (m := m) (k := (-q).toNat) (by omega)).trans_lt hm)
    rw [nearest_exact hc' one_pos hv]
    exact wholeDouble_iff.mpr ⟨neg, m', e', unpack_ofBits_bitsOf hc', .inr hwhole⟩

/-- Rounding a whole double half away from zero leaves it as it is. -/
theorem roundHalfAway_of_whole {y : Float} (hy : wholeDouble y = true) : roundHalfAway y = y := by
  obtain ⟨neg, m, q, h, hwhole⟩ := wholeDouble_iff.mp hy
  obtain ⟨hc, hbits⟩ := eq_ofBits_bitsOf h
  rw [roundHalfAway_finite h]
  by_cases hq : 0 ≤ q
  · rw [if_pos hq]
  · rw [if_neg hq]
    -- `m` is `t · 2^k`, and adding half of `2^k` before dividing gives `t` back
    obtain ⟨t, ht⟩ := Nat.dvd_of_mod_eq_zero (hwhole.resolve_left hq)
    set k := (-q).toNat with hk
    have hdiv : (2 * m + 2 ^ k) / 2 ^ (k + 1) = t := by
      have hpos : 0 < 2 ^ k := by positivity
      rw [ht, Nat.pow_succ]
      exact Nat.div_eq_of_lt_le (by nlinarith) (by nlinarith)
    have hv : (t : ℚ) = m * 2 ^ q * 1 := by
      have hq' : q = -(k : Int) := by omega
      rw [ht, hq', zpow_neg, zpow_natCast]
      push_cast
      field_simp
    rw [hdiv, nearest_exact hc one_pos hv, ← hbits]

/-- With precision `1`, a number field rounds a finite value to a whole double and clamps it. -/
theorem numberValue_one {min max : Option Float} {x : Float} (hx : x.isFinite = true) :
    numberValue min max (some 1.0) x = Json.ofComputed (clampTo min max (roundHalfAway x)) := by
  have hpos : (1.0 : Float) > 0.0 := by decide +kernel
  simp only [numberValue, if_pos hpos, div_one_of_finite hx,
    mul_one_of_finite (wholeDouble_isFinite (roundHalfAway_whole hx))]
  rfl

/-- The positive zero is whole. -/
theorem wholeDouble_zero : wholeDouble (Float.ofBits (bitsOf false 0 (-1074)).toUInt64) = true :=
  wholeDouble_iff.mpr ⟨false, 0, -1074, unpack_zero_bits, .inr (Nat.zero_mod _)⟩

/-! ### Number fields -/

namespace FieldKind

variable {lo hi p : Option Float} {v w : Json}

theorem accept_number_num (n : Num) :
    (FieldKind.number lo hi p).accept (.num n) =
      if n.toFloat.isNaN || n.toFloat.isInf then none else some (numberValue lo hi p n.toFloat) :=
  rfl

/-- A number field stores what `numberValue` gives for some finite double. -/
theorem accept_number_some (h : (FieldKind.number lo hi p).accept v = some w) :
    ∃ x : Float, x.isFinite = true ∧ w = numberValue lo hi p x := by
  simp only [accept] at h
  split at h
  · rename_i x _
    split at h
    · cases h
    · rename_i hgood
      cases h
      exact ⟨x, isNaN_or_isInf_eq_false_iff.mp (Bool.eq_false_iff.mpr hgood), rfl⟩
  · cases h

/-- **A stored double that clamping keeps is kept.** It reads back as itself, which the kind
stores as it is, or, for a zero, as the positive zero, which clamps as the stored zero did: to the
same bound, or to a zero stored as the integer `0`. -/
theorem accept_ofComputed_settles {y : Float} (hy : y.isFinite = true) (hclamp : clampTo lo hi y = y)
    (hkeep : numberValue lo hi p y = Json.ofComputed y)
    (hzero : numberValue lo hi p (Float.ofBits (bitsOf false 0 (-1074)).toUInt64) =
      Json.ofComputed (clampTo lo hi (Float.ofBits (bitsOf false 0 (-1074)).toUInt64))) :
    (FieldKind.number lo hi p).accept (Json.ofComputed y) = some (Json.ofComputed y) := by
  obtain ⟨neg, m, e, hunpack⟩ := isFinite_iff.mp hy
  rw [Json.ofComputed_of_finite hunpack, accept_number_num]
  rcases Num.toFloat_ofComputed hunpack with hback | ⟨rfl, hint⟩
  · rw [hback, if_neg (by rw [isNaN_or_isInf_eq_false_iff.mpr hy]; decide), hkeep,
      Json.ofComputed_of_finite hunpack]
  · have hzfin := isFinite_iff.mpr ⟨_, _, _, unpack_zero_bits⟩
    rw [hint, Num.toFloat_int_zero, if_neg (by rw [isNaN_or_isInf_eq_false_iff.mpr hzfin]; decide),
      hzero]
    rcases clampTo_of_zero lo hi (toModel_unpack_of_zero hunpack)
      (toModel_unpack_of_zero unpack_zero_bits) with hsame | ⟨hself, -⟩
    · rw [hsame, hclamp, Json.ofComputed_of_finite hunpack, hint]
    · rw [hself, Json.ofComputed_of_finite unpack_zero_bits, Num.ofComputed_of_zero unpack_zero_bits]

/-- **A number field without rounding keeps what it stored**: a clamped finite double, which
clamping keeps. -/
theorem accept_number_settles (hp : ∀ q, p = some q → ¬ q > 0.0)
    (hlo : ∀ l ∈ lo, l.isFinite = true) (hhi : ∀ h ∈ hi, h.isFinite = true)
    (h : (FieldKind.number lo hi p).accept v = some w) :
    (FieldKind.number lo hi p).accept w = some w := by
  obtain ⟨x, hx, rfl⟩ := accept_number_some h
  rw [numberValue_eq_clampTo x hp]
  exact accept_ofComputed_settles (clampTo_forall _ hx hlo hhi) (clampTo_clampTo lo hi x)
    (by rw [numberValue_eq_clampTo _ hp, clampTo_clampTo]) (numberValue_eq_clampTo _ hp)

/-- **A number field rounding to `1` between whole bounds keeps what it stored**: a whole double
clamped to whole bounds, which is whole again and so rounds to itself. -/
theorem accept_number_one_settles (hlo : ∀ l ∈ lo, wholeDouble l = true)
    (hhi : ∀ h ∈ hi, wholeDouble h = true) (h : (FieldKind.number lo hi (some 1.0)).accept v = some w) :
    (FieldKind.number lo hi (some 1.0)).accept w = some w := by
  obtain ⟨x, hx, rfl⟩ := accept_number_some h
  have hwhole : wholeDouble (clampTo lo hi (roundHalfAway x)) = true :=
    clampTo_forall (fun y => wholeDouble y = true) (roundHalfAway_whole hx) hlo hhi
  -- on a whole double the rounding does nothing, so the kind stores it clamped
  have hstore : ∀ z, wholeDouble z = true →
      numberValue lo hi (some 1.0) z = Json.ofComputed (clampTo lo hi z) := fun z hz => by
    rw [numberValue_one (wholeDouble_isFinite hz), roundHalfAway_of_whole hz]
  rw [numberValue_one hx]
  exact accept_ofComputed_settles (wholeDouble_isFinite hwhole) (clampTo_clampTo lo hi _)
    (by rw [hstore _ hwhole, clampTo_clampTo]) (hstore _ wholeDouble_zero)

end FieldKind

/-! ### Angles -/

/-- A JSON value that is a number finite as a double, or no number at all. -/
def Json.isFiniteNumber : Json → Bool
  | .num n => n.toFloat.isFinite
  | _ => true

theorem toNat_toUInt64_360 : (360.0 : Float).toUInt64.toNat = 360 := rfl

/-- The exponent of the power of two that makes `m · 2^e` whole: `-e` for a negative `e`. -/
def wholeScale (e : Int) : Nat := if e < 0 then (-e).toNat else 0

/-- `m · 2^e` scaled by `2^(wholeScale e)`, a whole number. -/
def scaledValue (m : Nat) (e : Int) : Nat := m * 2 ^ (if e < 0 then 0 else e.toNat)

theorem cast_scaledValue (m : Nat) (e : Int) :
    (scaledValue m e : ℚ) = m * 2 ^ e * 2 ^ wholeScale e := by
  unfold scaledValue wholeScale
  by_cases he : e < 0
  · obtain ⟨k, hk⟩ := Int.exists_eq_neg_ofNat (le_of_lt he)
    subst hk
    simp only [if_pos he, neg_neg, Int.toNat_natCast, pow_zero, mul_one, zpow_neg, zpow_natCast]
    field_simp
  · obtain ⟨k, rfl⟩ := Int.eq_ofNat_of_zero_le (not_lt.mp he)
    simp [he]

/-- The reduction by `360` of a finite double `±m · 2^e`, in whole numbers: the remainder of the
scaled magnitude by `360` scaled alike, over the scale, and moved up by `360` for a negative
double. -/
theorem euclidRem_360 {x : Float} {neg : Bool} {m : Nat} {e : Int} (hx : unpack x = .finite neg m e) :
    euclidRem x 360.0 =
      let s := wholeScale e
      let rem := scaledValue m e % (360 * 2 ^ s)
      if (neg && rem != 0) = true then nearest false (360 * 2 ^ s - rem) (2 ^ s)
      else nearest neg rem (2 ^ s) := by
  unfold euclidRem
  rw [hx]
  dsimp only
  rw [toNat_toUInt64_360]
  rfl

/-- **An angle is reduced into `[0, 360]`.** The remainder of a finite double by `360` is exact;
a negative remainder moves up by `360` with one rounding, which may reach `360` itself. Only a
zero keeps a negative sign. -/
theorem euclidRem_le {x : Float} {neg : Bool} {sig : Nat} {q : Int}
    (hx : unpack x = .finite neg sig q) :
    ∃ neg' m e, unpack (euclidRem x 360.0) = .finite neg' m e ∧ (m : ℚ) * 2 ^ e ≤ 360 ∧
      (neg' = true → m = 0) := by
  rw [euclidRem_360 hx]
  dsimp only
  set s := wholeScale q
  set rem := scaledValue sig q % (360 * 2 ^ s)
  have hrem : rem < 360 * 2 ^ s := Nat.mod_lt _ (by positivity)
  by_cases hwrap : (neg && rem != 0) = true
  · -- a negative remainder, moved up by `360`
    rw [if_pos hwrap]
    obtain ⟨m, e, hc, heq, hle⟩ := nearest_le (N := 360 * 2 ^ s - rem) (D := 2 ^ s) (K := 360)
      (by omega) (by positivity) (by norm_num) (by exact_mod_cast Nat.sub_le (360 * 2 ^ s) rem)
    exact ⟨false, m, e, by rw [heq, unpack_ofBits_bitsOf hc], hle, by simp⟩
  · rw [if_neg hwrap]
    by_cases hzero : rem = 0
    · -- a zero remainder keeps the sign of `x`
      rw [hzero, nearest_exact (m := 0) (e := -1074) (.inr ⟨by norm_num, rfl⟩) (by positivity) (by simp),
        unpack_ofBits_bitsOf (.inr ⟨by norm_num, rfl⟩)]
      exact ⟨neg, 0, -1074, rfl, by simp, fun _ => rfl⟩
    · have hpos : neg = false := by simpa [hzero] using hwrap
      subst hpos
      obtain ⟨m, e, hc, heq, hle⟩ := nearest_le (N := rem) (D := 2 ^ s) (K := 360)
        (by omega) (by positivity) (by norm_num) (by exact_mod_cast hrem.le)
      exact ⟨false, m, e, by rw [heq, unpack_ofBits_bitsOf hc], hle, by simp⟩

/-- **An angle below `360` reduces to itself**: its remainder by `360` is itself, which `nearest`
gives back exactly. -/
theorem euclidRem_of_lt {y : Float} {neg : Bool} {m : Nat} {e : Int}
    (hy : unpack y = .finite neg m e) (hv : (m : ℚ) * 2 ^ e < 360) (hneg : neg = true → m = 0) :
    euclidRem y 360.0 = y := by
  obtain ⟨hc, hbits⟩ := eq_ofBits_bitsOf hy
  rw [euclidRem_360 hy]
  dsimp only
  have hlt : scaledValue m e < 360 * 2 ^ wholeScale e := by
    have : (scaledValue m e : ℚ) < 360 * 2 ^ wholeScale e := by
      rw [cast_scaledValue]
      gcongr
    exact_mod_cast this
  have hkeep : ¬ (neg && scaledValue m e % (360 * 2 ^ wholeScale e) != 0) = true := by
    rw [Nat.mod_eq_of_lt hlt]
    cases neg
    · simp
    · simp [scaledValue, hneg rfl]
  rw [if_neg hkeep, Nat.mod_eq_of_lt hlt,
    nearest_exact hc (by positivity) (by rw [cast_scaledValue]; push_cast; ring), ← hbits]

/-- **An angle keeps what it stored, but for `360`.** A stored angle below `360` reads back as
itself, or as the positive zero, and reduces to what it was. -/
theorem FieldKind.accept_angle_settles {v w : Json} (hv : v.isFiniteNumber = true)
    (h : FieldKind.angle.accept v = some w) :
    FieldKind.angle.accept w = some w ∨ w = .ofInt 360 := by
  cases v with
  | num n =>
    simp only [FieldKind.accept, Option.some.injEq] at h
    subst h
    obtain ⟨neg, sig, q, hx⟩ := isFinite_iff.mp hv
    obtain ⟨neg', m, e, hr, hle, hneg⟩ := euclidRem_le hx
    rw [Json.ofComputed_of_finite hr]
    rcases hle.lt_or_eq with hlt | heq
    · left
      show some (Json.ofComputed (euclidRem (Num.ofComputed _).toFloat 360.0)) = _
      rcases Num.toFloat_ofComputed hr with hback | ⟨rfl, hzero⟩
      · rw [hback, euclidRem_of_lt hr hlt hneg, Json.ofComputed_of_finite hr]
      · -- a zero reads back as the positive zero, which reduces to itself
        rw [hzero, Num.toFloat_int_zero, euclidRem_of_lt unpack_zero_bits (by simp) (by simp),
          Json.ofComputed_of_finite unpack_zero_bits, Num.ofComputed_of_zero unpack_zero_bits]
    · -- an angle at `360` is stored as the integer `360`
      right
      have hpos : neg' = false := by
        cases neg'
        · rfl
        · simp [hneg rfl] at heq
      rw [Num.ofComputed_of_whole hr (n := 360) (by exact_mod_cast heq) (by norm_num), hpos]
      rfl
  | _ => cases h

/-- An angle of exactly `360` reduces to the positive zero. -/
theorem euclidRem_of_eq_360 {y : Float} {m : Nat} {e : Int} (hy : unpack y = .finite false m e)
    (hv : (m : ℚ) * 2 ^ e = 360) :
    euclidRem y 360.0 = Float.ofBits (bitsOf false 0 (-1074)).toUInt64 := by
  rw [euclidRem_360 hy]
  dsimp only
  have hnum : scaledValue m e = 360 * 2 ^ wholeScale e := by
    have : (scaledValue m e : ℚ) = 360 * 2 ^ wholeScale e := by rw [cast_scaledValue, hv]
    exact_mod_cast this
  rw [hnum, Nat.mod_self]
  exact nearest_exact (.inr ⟨by norm_num, rfl⟩) (by positivity) (by simp)

/-- An angle field reads `360` as `0`. -/
theorem FieldKind.accept_angle_360 : FieldKind.angle.accept (.ofInt 360) = some (.ofInt 0) := by
  have hc : Canonical (360 * 2 ^ 44) (-44) := .inl ⟨by norm_num, by norm_num, by norm_num, by norm_num⟩
  have hv : ((360 * 2 ^ 44 : Nat) : ℚ) * 2 ^ (-44 : Int) = 360 := by norm_num
  have h360 : (Num.int 360).toFloat = Float.ofBits (bitsOf false (360 * 2 ^ 44) (-44)).toUInt64 :=
    nearest_exact hc one_pos (by rw [hv]; norm_num)
  show some (Json.ofComputed (euclidRem (Num.int 360).toFloat 360.0)) = _
  rw [h360, euclidRem_of_eq_360 (unpack_ofBits_bitsOf hc) hv, Json.ofComputed_of_finite unpack_zero_bits,
    Num.ofComputed_of_zero unpack_zero_bits]
  rfl

/-! ### Every kind -/

namespace FieldKind

variable {k : FieldKind} {v w : Json}

/-- Whether a kind rounds its numbers to a grid that a stored value can be off: a positive
precision, but for `1` between whole bounds. -/
def roundsOffGrid : FieldKind → Bool
  | .number lo hi (some p) =>
    decide (p > 0.0) && !(p.toBits == (1.0 : Float).toBits && lo.all wholeDouble && hi.all wholeDouble)
  | _ => false

/-- Whether the bounds of a number kind are finite doubles. -/
def boundsFinite : FieldKind → Bool
  | .number lo hi _ => lo.all Float.isFinite && hi.all Float.isFinite
  | _ => true

/-- **What a kind stores from a finite value, it keeps**, when it rounds to no grid a stored value
can be off and its bounds are finite; an angle may instead store `360`. -/
theorem accept_settles (hround : k.roundsOffGrid = false) (hb : k.boundsFinite = true)
    (hv : v.isFiniteNumber = true) (h : k.accept v = some w) :
    k.accept w = some w ∨ (k = .angle ∧ w = .ofInt 360) := by
  cases k with
  | number lo hi p =>
    have hbounds : (∀ l ∈ lo, l.isFinite = true) ∧ ∀ h ∈ hi, h.isFinite = true := by
      simp only [boundsFinite, Bool.and_eq_true, Option.all_eq_true] at hb
      exact hb
    left
    cases p with
    | none => exact accept_number_settles (fun _ hq => by cases hq) hbounds.1 hbounds.2 h
    | some q =>
      by_cases hq : q > 0.0
      · -- a positive precision on no grid a value can be off is `1`, between whole bounds
        simp only [roundsOffGrid, decide_eq_true hq, Bool.true_and, Bool.not_eq_eq_eq_not,
          Bool.not_false, Bool.and_eq_true, beq_iff_eq, Option.all_eq_true] at hround
        obtain ⟨⟨hone, hlo⟩, hhi⟩ := hround
        obtain rfl := eq_of_toBits_eq hone
        exact accept_number_one_settles hlo hhi h
      · exact accept_number_settles (fun _ hq' => by cases hq'; exact hq) hbounds.1 hbounds.2 h
  | angle => exact (accept_angle_settles hv h).imp_right fun h360 => ⟨rfl, h360⟩
  | checkbox =>
    -- a checkbox stores a boolean
    left
    simp only [accept] at h
    split at h
    · cases h
      rfl
    · split_ifs at h <;> cases h <;> rfl
    · cases h
  | dropdown options =>
    -- a dropdown stores the text it was given, one of its options
    left
    simp only [accept] at h
    split at h
    · split_ifs at h with hany
      cases h
      simp only [accept, if_pos hany]
    · cases h
  | label | textInput | multilineTextInput | «variable» | colour | date =>
    -- the text kinds store text, which they keep as it is
    left
    simp only [accept] at h
    split at h <;> cases h <;> rfl
  | image | custom =>
    left
    simp only [accept, Option.some.injEq] at h
    subst h
    rfl

end FieldKind

/-! ### Fields made and edited -/

namespace Field

variable {f g : Field} {v : Json}

/-- Sets the values in turn; a refused value leaves the field as it was. -/
def setAll (f : Field) : List Json → Field
  | [] => f
  | v :: vs =>
    match f.setValue v with
    | .ok g => g.setAll vs
    | .error _ => f.setAll vs

/-- A field whose number bounds are finite and whose value its kind stores for a finite value. -/
structure Stored (f : Field) : Prop where
  bounds : f.kind.boundsFinite = true
  stored : ∃ v, v.isFiniteNumber = true ∧ f.kind.accept v = some f.value

theorem Stored.rename (hf : f.Stored) (name : Option String) : { f with name := name }.Stored :=
  ⟨hf.bounds, hf.stored⟩

theorem setValue_of_accept {w : Json} (h : f.kind.accept v = some w) :
    f.setValue v = .ok { f with value := w } := by
  simp only [setValue, check, h]
  rfl

/-- Setting a finite value on a field with finite bounds stores what its kind accepts. -/
theorem stored_of_setValue (hb : f.kind.boundsFinite = true) (hv : v.isFiniteNumber = true)
    (h : f.setValue v = .ok g) : g.Stored := by
  obtain ⟨w, hw, rfl⟩ := setValue_eq h
  exact ⟨hb, v, hv, hw⟩

theorem kind_setAll (f : Field) (vs : List Json) : (f.setAll vs).kind = f.kind := by
  induction vs generalizing f with
  | nil => rfl
  | cons v vs ih =>
    unfold setAll
    split
    · rename_i g hg
      obtain ⟨w, -, rfl⟩ := setValue_eq hg
      exact ih _
    · exact ih f

/-- Finite values set one after another keep a field stored; by induction on the values. -/
theorem Stored.setAll (hf : f.Stored) {vs : List Json} (hvs : ∀ v ∈ vs, v.isFiniteNumber = true) :
    (f.setAll vs).Stored := by
  induction vs generalizing f with
  | nil => exact hf
  | cons v vs ih =>
    have hrest : ∀ u ∈ vs, u.isFiniteNumber = true := fun u hu => hvs u (List.mem_cons_of_mem v hu)
    unfold Field.setAll
    split
    · rename_i g hg
      exact ih (stored_of_setValue hf.bounds (hvs v List.mem_cons_self) hg) hrest
    · exact ih hf hrest

/-- **A stored field takes its own value back**, unless its kind rounds to a positive precision
other than `1` between whole bounds: the field stays as it is, or an angle at `360` becomes `0`. -/
theorem Stored.setValue_self (hf : f.Stored) (hround : f.kind.roundsOffGrid = false) :
    f.setValue f.value = .ok f ∨
      (f.kind = .angle ∧ f.value = .ofInt 360 ∧ f.setValue f.value = .ok { f with value := .ofInt 0 }) := by
  obtain ⟨v, hv, hacc⟩ := hf.stored
  rcases FieldKind.accept_settles hround hf.bounds hv hacc with hkeep | ⟨hk, h360⟩
  · exact .inl (setValue_of_accept hkeep)
  · refine .inr ⟨hk, h360, setValue_of_accept ?_⟩
    rw [hk, h360]
    exact FieldKind.accept_angle_360

end Field

theorem Json.isFiniteNumber_ofInt_zero : (Json.ofInt 0).isFiniteNumber = true := by
  show (Num.int 0).toFloat.isFinite = true
  rw [Num.toFloat_int_zero]
  exact isFinite_iff.mpr ⟨_, _, _, unpack_zero_bits⟩

namespace FieldMaker

variable {args : List Json} {f : Field}

theorem mem_of_firstGiven {v : Json} (h : firstGiven args = some v) : v ∈ args := by
  unfold firstGiven at h
  split at h
  · split_ifs at h
    cases h
    exact List.mem_cons_self
  · cases h

/-- The value a number or angle field is made with, the first argument or `0`, is finite. -/
theorem isFiniteNumber_firstGiven (hargs : ∀ a ∈ args, a.isFiniteNumber = true) :
    ((firstGiven args).getD (.ofInt 0)).isFiniteNumber = true := by
  cases hv : firstGiven args with
  | none => exact Json.isFiniteNumber_ofInt_zero
  | some v => exact hargs v (mem_of_firstGiven hv)

theorem numberArg_isFinite (hargs : ∀ a ∈ args, a.isFiniteNumber = true) (i : Nat) :
    ∀ x ∈ numberArg args i, x.isFinite = true := by
  intro x hx
  unfold numberArg at hx
  split at hx
  · rename_i n hn
    cases hx
    exact hargs _ (List.mem_of_getElem? hn)
  · cases hx

/-- A dropdown is made only from an array whose entries all read as options, at least one, and
it shows the first of them. -/
theorem dropdownOf_ok (h : dropdownOf args = .ok f) :
    ∃ xs o os, args.head? = some (.arr xs) ∧ xs.mapM option? = some (o :: os) ∧
      f = { typeName := "dropdown", kind := .dropdown (o :: os), value := .str o.value } := by
  simp only [dropdownOf, bind, Except.bind, pure, Except.pure, throw, throwThe,
    MonadExceptOf.throw] at h
  split at h
  · rename_i xs _
    rcases hos : xs.mapM option? with _ | _ | ⟨o, os⟩ <;> rw [hos] at h
    · cases h
    · cases h
    · cases h
      exact ⟨xs, o, os, rfl, hos, rfl⟩
  · cases h

/-- A dropdown shows the value of its first option, which it takes. -/
theorem dropdownOf_stored (h : dropdownOf args = .ok f) : f.Stored := by
  obtain ⟨-, o, _, -, -, rfl⟩ := dropdownOf_ok h
  refine ⟨rfl, .str o.value, rfl, ?_⟩
  simp [FieldKind.accept]

/-- **Every field made from finite arguments is stored.** -/
theorem make_stored {maker : FieldMaker} (hargs : ∀ a ∈ args, a.isFiniteNumber = true)
    (h : maker.make args = .ok f) : f.Stored := by
  cases maker with
  | number =>
    refine Field.stored_of_setValue ?_ (isFiniteNumber_firstGiven hargs) h
    simp only [FieldKind.boundsFinite, Bool.and_eq_true, Option.all_eq_true]
    exact ⟨numberArg_isFinite hargs 1, numberArg_isFinite hargs 2⟩
  | angle => exact Field.stored_of_setValue rfl (isFiniteNumber_firstGiven hargs) h
  | checkbox =>
    simp only [make] at h
    split at h
    · rename_i v hv
      exact Field.stored_of_setValue rfl (hargs v (mem_of_firstGiven hv)) h
    · cases h
      exact ⟨rfl, .bool false, rfl, rfl⟩
  | dropdown => exact dropdownOf_stored h
  | label | textInput | multilineTextInput | «variable» | image | colour | date =>
    -- the value is text, which these kinds take as it is
    cases h
    exact ⟨rfl, .str _, rfl, rfl⟩

end FieldMaker

/-- A declared field made from finite arguments and a finite default is stored. -/
theorem FieldData.make_stored {r : Registry} {d : FieldData} {f : Field}
    (hargs : ∀ a ∈ d.args, a.isFiniteNumber = true) (hdefault : ∀ v ∈ d.default, v.isFiniteNumber = true)
    (h : d.make r = .ok f) : f.Stored := by
  obtain ⟨maker, f₀, f₁, hf₀, hf₁, rfl⟩ := FieldData.make_ok h
  have h₀ : f₀.Stored := FieldMaker.make_stored hargs hf₀
  refine Field.Stored.rename ?_ _
  cases hdflt : d.default with
  | none =>
    rw [hdflt] at hf₁
    cases hf₁
    exact h₀
  | some v =>
    rw [hdflt] at hf₁
    exact Field.stored_of_setValue h₀.bounds (hdefault v hdflt) hf₁

/-! ### Setting a field to its own value -/

/-- **A field keeps its own value when set to it again.** Every field a registry makes from finite
arguments and a finite default, after any finite values set on it in turn (a refused one leaving it
as it was), takes its own value back and stays as it is, unless its kind rounds to a positive
precision other than `1` between whole bounds; an angle at `360` takes it back as `0`. -/
theorem field_value_settles {r : Registry} {d : FieldData} {f : Field} (hmake : d.make r = .ok f)
    (hround : f.kind.roundsOffGrid = false) (hargs : ∀ a ∈ d.args, a.isFiniteNumber = true)
    (hdefault : ∀ v ∈ d.default, v.isFiniteNumber = true)
    {sets : List Json} (hsets : ∀ v ∈ sets, v.isFiniteNumber = true) :
    let g := f.setAll sets
    g.setValue g.value = .ok g ∨
      (g.kind = .angle ∧ g.value = .ofInt 360 ∧ g.setValue g.value = .ok { g with value := .ofInt 0 }) := by
  intro g
  have hg : g.Stored := (FieldData.make_stored hargs hdefault hmake).setAll hsets
  exact hg.setValue_self (by rw [Field.kind_setAll]; exact hround)

/-- A number field between `0` and `10` rounding to `1`, made with the value `5`, then set to
`12.5`, to the text `3.25` and to the text `abc` (refused), takes its own value back. -/
theorem bounded_number_settles :
    ∃ f, ({ name := "n", type := "number", args := [.ofInt 5, .ofInt 0, .ofInt 10, .ofInt 1] } :
        FieldData).make Registry.builtin = .ok f ∧ f.kind.roundsOffGrid = false ∧
      let g := f.setAll [.num (.float 12.5), .str "3.25", .str "abc"]
      g.setValue g.value = .ok g ∨
        (g.kind = .angle ∧ g.value = .ofInt 360 ∧ g.setValue g.value = .ok { g with value := .ofInt 0 }) := by
  have hkind : ((({ name := "n", type := "number", args := [.ofInt 5, .ofInt 0, .ofInt 10, .ofInt 1] } :
      FieldData).make Registry.builtin).toOption.map fun f => f.kind.roundsOffGrid) = some false := by
    decide +kernel
  cases hm : ({ name := "n", type := "number", args := [.ofInt 5, .ofInt 0, .ofInt 10, .ofInt 1] } :
      FieldData).make Registry.builtin with
  | error e =>
    rw [hm] at hkind
    cases hkind
  | ok f =>
    rw [hm] at hkind
    have hround : f.kind.roundsOffGrid = false := Option.some.inj hkind
    exact ⟨f, rfl, hround, field_value_settles hm hround (by decide +kernel) (by simp)
      (by decide +kernel)⟩

/-- A stored value can move when set again. A number rounded to `1` and raised to the minimum
`0.5` stores `0.5`, which rounds to `1` the next time; an angle a hair below zero is stored as
`360`, which the next reduction takes to `0`. -/
theorem stored_value_can_move :
    ((FieldMaker.number.make [.ofInt 0, .num (.float 0.5), .null, .ofInt 1]).toOption.bind fun f =>
        (f.setValue f.value).toOption.map fun g => (f.value.compact, g.value.compact)) =
      some ("0.5", "1") ∧
    ((FieldMaker.angle.make [.num (.float (-1e-20))]).toOption.bind fun f =>
        (f.setValue f.value).toOption.map fun g => (f.value.compact, g.value.compact)) =
      some ("360", "0") := by
  decide +kernel

end Blockwork
