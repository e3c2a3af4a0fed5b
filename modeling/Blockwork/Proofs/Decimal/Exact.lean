import Mathlib
import Blockwork.Decimal.Shortest
import Blockwork.Decimal.Nearest

/-!
# Doubles as bit patterns, and exact rounding

`Decimal.unpack` reads a double's sign, significand and exponent off its bit pattern, and
`Decimal.nearest` assembles the pattern of the double nearest to a fraction. This module ties
both to the logical model of doubles that the comparisons and arithmetic of `Float` run on.

* `toModel_unpack`: the model unpacks a double as `unpack` does (`Unpacked.model`), so a
  property of the model's comparisons can be read off `unpack`;
* `unpack_ofBits_bitsOf` and `eq_ofBits_bitsOf`: a finite double is determined by its sign,
  significand and exponent, written back into a pattern by `bitsOf`;
* `nearest_exact`: on a fraction that is a double, `nearest` gives that double. This rests on
  `floorLog2` being `⌊log₂ (N / D)⌋` (`floorLog2_eq`).
-/

open Float.Model (UnpackedFloat Format)
open Float.Model.UnpackedFloat (Sign packComponents unpackSign unpackExponent unpackMantissa)

namespace Blockwork.Decimal

/-- `unpack` on a bit pattern given as a number. -/
def unpackBits (b : Nat) : Unpacked :=
  let neg := b / 2 ^ 63 = 1
  let biased : Nat := b / 2 ^ 52 % 2048
  let frac := b % 2 ^ 52
  if biased = 2047 then (if frac = 0 then .infinite neg else .nan)
  else if biased = 0 then .finite neg frac (-1074)
  else .finite neg (frac + 2 ^ 52) ((biased : Int) - 1075)

theorem unpack_eq_unpackBits (y : Float) : unpack y = unpackBits y.toBits.toNat := rfl

/-- The sign of a double whose sign bit is `neg`. -/
def signOf (neg : Bool) : Sign := if neg then .negative else .positive

/-- How the logical model of doubles sees an unpacked double. -/
def Unpacked.model : Unpacked → UnpackedFloat
  | .nan => .notANumber
  | .infinite neg => .infinity (signOf neg)
  | .finite neg m q => if h : 0 < m then .finite (signOf neg) m q h else .zero (signOf neg)

section Fields

variable (b : BitVec 64)

theorem toNat_unpackMantissa : (@unpackMantissa .binary64 b).toNat = b.toNat % 2 ^ 52 := by
  simp [unpackMantissa, Nat.shiftRight_eq_div_pow]

theorem toNat_unpackExponent :
    (@unpackExponent .binary64 b).toNat = b.toNat / 2 ^ 52 % 2048 := by
  simp [unpackExponent, Nat.shiftRight_eq_div_pow]

theorem toNat_one_append_unpackMantissa :
    (1#1 ++ @unpackMantissa .binary64 b).toNat = 2 ^ 52 + b.toNat % 2 ^ 52 := by
  rw [BitVec.toNat_append, ← Nat.shiftLeft_add_eq_or_of_lt (@unpackMantissa .binary64 b).isLt,
    toNat_unpackMantissa]
  simp [Nat.shiftLeft_eq]

theorem ofBitVec_unpackSign :
    Sign.ofBitVec (@unpackSign .binary64 b) = signOf (decide (b.toNat / 2 ^ 63 = 1)) := by
  have hsign : ∀ v : BitVec 1, (Sign.ofBitVec v).toBitVec = v := by decide
  have h : (Sign.ofBitVec (@unpackSign .binary64 b)).toBitVec.toNat = b.toNat / 2 ^ 63 := by
    have := b.isLt
    simp [hsign, unpackSign, Nat.shiftRight_eq_div_pow] at *
    omega
  have hlt : b.toNat / 2 ^ 63 < 2 := by have := b.isLt; simp at this; omega
  cases hs : Sign.ofBitVec (@unpackSign .binary64 b) <;> rw [hs] at h <;>
    simp [Sign.toBitVec] at h <;> simp [signOf] <;> omega

end Fields

theorem toNat_packComponents (s : Sign) (E : BitVec 11) (M : BitVec 52) :
    (packComponents .binary64 s E M).toNat =
      s.toBitVec.toNat * 2 ^ 63 + E.toNat * 2 ^ 52 + M.toNat := by
  simp only [packComponents, BitVec.toNat_append]
  rw [← Nat.shiftLeft_add_eq_or_of_lt M.isLt, ← Nat.shiftLeft_add_eq_or_of_lt E.isLt]
  simp [Nat.shiftLeft_eq]
  omega

theorem toNat_signOf_toBitVec (neg : Bool) : (signOf neg).toBitVec.toNat = if neg then 1 else 0 := by
  cases neg <;> rfl

/-- **The model unpacks a bit pattern as `unpack` does.** -/
theorem unpack_binary64 (b : UInt64) :
    UnpackedFloat.unpack .binary64 b.toBitVec = (unpackBits b.toNat).model := by
  have hM := toNat_unpackMantissa b.toBitVec
  have hE := toNat_unpackExponent b.toBitVec
  have happ := toNat_one_append_unpackMantissa b.toBitVec
  have hS := ofBitVec_unpackSign b.toBitVec
  simp only [UInt64.toNat_toBitVec] at hM hE happ hS
  simp only [UnpackedFloat.unpack, unpackBits, hS, ← BitVec.toNat_inj, hM, hE, happ,
    BitVec.toNat_neg, BitVec.toNat_ofNat, Format.exponentBias]
  norm_num
  split_ifs with hinf hzero hsub hfrac
  · rfl
  · rfl
  · simp [Unpacked.model, hfrac]
  · rw [Unpacked.model.eq_3, dif_pos (Nat.pos_of_ne_zero hfrac)]
    congr 1
    omega
  · rw [Unpacked.model.eq_3, dif_pos (by omega)]
    congr 1
    omega

theorem toModel_unpack (y : Float) : y.toModel.unpack = (unpack y).model := by
  rw [unpack_eq_unpackBits, ← unpack_binary64]
  rfl

/-- The significands and exponents of finite doubles as `unpack` gives them: a normal `m` has
53 bits, and a subnormal one (zero included) fewer, with the least exponent. -/
def Canonical (m : Nat) (e : Int) : Prop :=
  (2 ^ 52 ≤ m ∧ m < 2 ^ 53 ∧ -1074 ≤ e ∧ e ≤ 971) ∨ (m < 2 ^ 52 ∧ e = -1074)

/-- The bit pattern of the double `±m · 2^e`. The exponent field of a normal `m` is `e + 1075`:
its leading bit, at position 52, supplies the last `1`. -/
def bitsOf (neg : Bool) (m : Nat) (e : Int) : Nat :=
  (if neg then 2 ^ 63 else 0) + m + (e + 1074).toNat * 2 ^ 52

theorem bitsOf_lt {neg : Bool} {m : Nat} {e : Int} (hc : Canonical m e) : bitsOf neg m e < 2 ^ 64 := by
  unfold Canonical at hc
  unfold bitsOf
  split <;> omega

/-- The model packs a canonical double into the pattern `bitsOf` describes. -/
theorem toNat_pack_model {neg : Bool} {m : Nat} {e : Int} (hc : Canonical m e) :
    (UnpackedFloat.pack .binary64 (Unpacked.finite neg m e).model).toNat = bitsOf neg m e := by
  unfold Canonical at hc
  rw [Unpacked.model.eq_3]
  split_ifs with hm
  · have hbias : ¬ 2 ^ 11 ≤ (e + 1023 + 52).toNat + 1 := by omega
    simp only [UnpackedFloat.pack, Format.exponentBias, Format.mantissaBits]
    norm_num
    rw [if_neg (by omega)]
    split_ifs with hlog
    · have h52 : 2 ^ 52 ≤ m := by
        have := Nat.log2_self_le (n := m) (by omega)
        rw [show m.log2 = 52 by omega] at this
        exact this
      rw [toNat_packComponents, toNat_signOf_toBitVec]
      simp [bitsOf]
      split <;> omega
    · have hsmall : m < 2 ^ 52 := by
        by_contra h
        have := (Nat.le_log2 (by omega)).mpr (not_lt.mp h)
        have := (Nat.log2_lt (by omega)).mpr (show m < 2 ^ 53 by omega)
        omega
      rw [toNat_packComponents, toNat_signOf_toBitVec]
      simp [bitsOf]
      split <;> omega
  · simp only [UnpackedFloat.pack, UnpackedFloat.packedZero, toNat_packComponents,
      toNat_signOf_toBitVec]
    simp [bitsOf]
    split <;> omega

/-- Packing what the model unpacks from a pattern that is no infinity or NaN gives it back. -/
theorem pack_unpack_binary64 {b : UInt64} (hb : b.toNat / 2 ^ 52 % 2048 ≠ 2047) :
    UnpackedFloat.pack .binary64 (UnpackedFloat.unpack .binary64 b.toBitVec) = b.toBitVec := by
  have hlt := b.toNat_lt
  apply BitVec.eq_of_toNat_eq
  rw [unpack_binary64, unpackBits]
  simp only [if_neg hb, UInt64.toNat_toBitVec]
  split_ifs with hsub
  · rw [toNat_pack_model (.inr ⟨Nat.mod_lt _ (by decide), rfl⟩), bitsOf]
    split <;> simp_all <;> omega
  · rw [toNat_pack_model (.inl ⟨by omega, by omega, by omega, by omega⟩), bitsOf]
    split <;> simp_all <;> omega

theorem toBits_ofBits {b : UInt64} (hb : b.toNat / 2 ^ 52 % 2048 ≠ 2047) :
    (Float.ofBits b).toBits = b := by
  show UInt64.ofBitVec (UnpackedFloat.pack .binary64 (UnpackedFloat.unpack .binary64 b.toBitVec)) = b
  rw [pack_unpack_binary64 hb]

/-- Doubles with the same bit pattern are equal. -/
theorem eq_of_toBits_eq {y z : Float} (h : y.toBits = z.toBits) : y = z := by
  obtain ⟨⟨a, ha⟩⟩ := y
  obtain ⟨⟨b, hb⟩⟩ := z
  cases h
  rfl

theorem toNat_toUInt64_bitsOf {neg : Bool} {m : Nat} {e : Int} (hc : Canonical m e) :
    (bitsOf neg m e).toUInt64.toNat = bitsOf neg m e := by
  rw [Nat.toUInt64_eq, UInt64.toNat_ofNat', Nat.mod_eq_of_lt (bitsOf_lt hc)]

/-- The pattern of a canonical triple is no infinity or NaN. -/
theorem exponentField_bitsOf {neg : Bool} {m : Nat} {e : Int} (hc : Canonical m e) :
    (bitsOf neg m e).toUInt64.toNat / 2 ^ 52 % 2048 ≠ 2047 := by
  rw [toNat_toUInt64_bitsOf hc]
  unfold Canonical at hc
  unfold bitsOf
  split <;> omega

/-- The fields of the pattern of a canonical triple. -/
theorem unpackBits_bitsOf {neg : Bool} {m : Nat} {e : Int} (hc : Canonical m e) :
    unpackBits (bitsOf neg m e) = .finite neg m e := by
  have hsign : decide (bitsOf neg m e / 2 ^ 63 = 1) = neg := by
    unfold Canonical at hc
    unfold bitsOf
    cases neg <;> simp <;> omega
  unfold Canonical at hc
  rcases hc with ⟨h52, h53, hlo, hhi⟩ | ⟨h52, rfl⟩
  · -- a normal double: the exponent field is `e + 1075`, the leading bit is implicit
    have hfield : bitsOf neg m e / 2 ^ 52 % 2048 = (e + 1075).toNat := by
      unfold bitsOf; split <;> omega
    have hfrac : bitsOf neg m e % 2 ^ 52 = m - 2 ^ 52 := by
      unfold bitsOf; split <;> omega
    simp only [unpackBits, hsign, hfield, hfrac]
    rw [if_neg (by omega), if_neg (by omega), Unpacked.finite.injEq]
    exact ⟨rfl, by omega, by omega⟩
  · -- a subnormal double (or zero): the exponent field is `0`
    have hbits : bitsOf neg m (-1074) = (if neg then 2 ^ 63 else 0) + m := by
      simp [bitsOf]
    have hfield : bitsOf neg m (-1074) / 2 ^ 52 % 2048 = 0 := by
      rw [hbits]; split <;> omega
    have hfrac : bitsOf neg m (-1074) % 2 ^ 52 = m := by
      rw [hbits]; split <;> omega
    simp only [unpackBits, hsign, hfield, hfrac]
    simp

/-- **A canonical triple is read back from its bit pattern.** -/
theorem unpack_ofBits_bitsOf {neg : Bool} {m : Nat} {e : Int} (hc : Canonical m e) :
    unpack (Float.ofBits (bitsOf neg m e).toUInt64) = .finite neg m e := by
  rw [unpack_eq_unpackBits, toBits_ofBits (exponentField_bitsOf hc), toNat_toUInt64_bitsOf hc,
    unpackBits_bitsOf hc]

/-- **A finite double is the pattern of its own sign, significand and exponent**, and those are
canonical. -/
theorem eq_ofBits_bitsOf {y : Float} {neg : Bool} {m : Nat} {e : Int}
    (h : unpack y = .finite neg m e) :
    Canonical m e ∧ y = Float.ofBits (bitsOf neg m e).toUInt64 := by
  have hlt := y.toBits.toNat_lt
  rw [unpack_eq_unpackBits, unpackBits] at h
  have hfield : y.toBits.toNat / 2 ^ 52 % 2048 ≠ 2047 := by
    intro hinf
    rw [if_pos hinf] at h
    split at h <;> cases h
  rw [if_neg hfield] at h
  have hc : Canonical m e := by
    unfold Canonical
    split at h <;> (cases h; omega)
  refine ⟨hc, eq_of_toBits_eq ?_⟩
  rw [toBits_ofBits (exponentField_bitsOf hc)]
  apply UInt64.toNat_inj.mp
  rw [toNat_toUInt64_bitsOf hc, bitsOf]
  split at h <;> (cases h; split <;> simp_all <;> omega)

variable {N D : Nat}

/-- `atLeastPow2` compares `2^t · D` with `N`. -/
theorem atLeastPow2_iff (t : Int) : atLeastPow2 N D t = true ↔ (2 : ℚ) ^ t * D ≤ N := by
  unfold atLeastPow2
  split_ifs with ht
  · obtain ⟨k, rfl⟩ := Int.eq_ofNat_of_zero_le ht
    rw [decide_eq_true_iff, zpow_natCast, Int.toNat_natCast, Nat.pow_eq, ← Nat.cast_le (α := ℚ)]
    push_cast
    rw [mul_comm]
  · obtain ⟨k, hk⟩ := Int.exists_eq_neg_ofNat (le_of_lt (not_le.mp ht))
    subst hk
    rw [decide_eq_true_iff, zpow_neg, zpow_natCast, show (-(-(k : Int))).toNat = k by simp,
      Nat.pow_eq, ← Nat.cast_le (α := ℚ)]
    push_cast
    rw [inv_mul_le_iff₀ (by positivity), mul_comm]

/-- `floorLog2 N D` is `⌊log₂ (N / D)⌋`: `2^t · D ≤ N < 2^(t+1) · D`. -/
theorem floorLog2_spec (hN : 0 < N) (hD : 0 < D) :
    (2 : ℚ) ^ floorLog2 N D * D ≤ N ∧ (N : ℚ) < 2 ^ (floorLog2 N D + 1) * D := by
  have hN1 : (2 : ℚ) ^ N.log2 ≤ N := by exact_mod_cast Nat.log2_self_le hN.ne'
  have hN2 : (N : ℚ) < 2 ^ (N.log2 + 1) := by exact_mod_cast Nat.lt_log2_self
  have hD1 : (2 : ℚ) ^ D.log2 ≤ D := by exact_mod_cast Nat.log2_self_le hD.ne'
  have hD2 : (D : ℚ) < 2 ^ (D.log2 + 1) := by exact_mod_cast Nat.lt_log2_self
  -- 2^(log2 N - log2 D) · 2^(log2 D) = 2^(log2 N)
  have hsplit : ∀ k : Int, (2 : ℚ) ^ (k + ((N.log2 : Int) - D.log2)) * 2 ^ D.log2 = 2 ^ (k + N.log2) := by
    intro k
    rw [← zpow_natCast, ← zpow_add₀ (by norm_num)]
    ring_nf
  unfold floorLog2
  dsimp only
  split_ifs with h
  · rw [atLeastPow2_iff] at h
    refine ⟨h, ?_⟩
    calc (N : ℚ) < 2 ^ (N.log2 + 1) := hN2
      _ = 2 ^ (((N.log2 : Int) - D.log2) + 1) * 2 ^ D.log2 := by
        rw [add_comm _ (1 : Int), hsplit 1, zpow_add₀ two_ne_zero, zpow_one, zpow_natCast]
        ring
      _ ≤ 2 ^ (((N.log2 : Int) - D.log2) + 1) * D := by gcongr
  · rw [atLeastPow2_iff, not_le] at h
    refine ⟨?_, by rwa [sub_add_cancel]⟩
    calc (2 : ℚ) ^ ((N.log2 : Int) - D.log2 - 1) * D
        ≤ 2 ^ ((N.log2 : Int) - D.log2 - 1) * 2 ^ (D.log2 + 1) := by gcongr
      _ = 2 ^ N.log2 := by
        rw [pow_succ, ← mul_assoc, mul_comm _ (2 : ℚ), ← mul_assoc, ← zpow_one_add₀ (by norm_num)]
        rw [show (1 : Int) + (N.log2 - D.log2 - 1) = 0 + (N.log2 - D.log2) by ring, hsplit 0]
        simp
      _ ≤ N := hN1

/-- The exponent bracketing a ratio is unique. -/
theorem floorLog2_eq {t : Int} (hN : 0 < N) (hD : 0 < D) (hlo : (2 : ℚ) ^ t * D ≤ N)
    (hhi : (N : ℚ) < 2 ^ (t + 1) * D) : floorLog2 N D = t := by
  obtain ⟨h1, h2⟩ := floorLog2_spec hN hD
  have hD' : (0 : ℚ) < D := by exact_mod_cast hD
  by_contra hne
  rcases lt_or_gt_of_ne hne with hlt | hlt
  · have : (2 : ℚ) ^ (floorLog2 N D + 1) ≤ 2 ^ t := zpow_le_zpow_right₀ (by norm_num) (by omega)
    have := mul_le_mul_of_nonneg_right this hD'.le
    linarith
  · have : (2 : ℚ) ^ (t + 1) ≤ 2 ^ floorLog2 N D := zpow_le_zpow_right₀ (by norm_num) (by omega)
    have := mul_le_mul_of_nonneg_right this hD'.le
    linarith

/-- A ratio equal to `m · 2^e` lies in the binade of `m` moved by `e`. -/
theorem floorLog2_of_eq {m : Nat} {e : Int} (hm : 0 < m) (hD : 0 < D)
    (hv : (N : ℚ) = m * 2 ^ e * D) : floorLog2 N D = m.log2 + e := by
  have hN : 0 < N := by
    have : (0 : ℚ) < N := by rw [hv]; positivity
    exact_mod_cast this
  have hlog := Nat.log2_self_le hm.ne'
  have hlog' := Nat.lt_log2_self (n := m)
  apply floorLog2_eq hN hD
  · rw [hv, zpow_add₀ two_ne_zero, zpow_natCast]
    have : (2 : ℚ) ^ m.log2 ≤ m := by exact_mod_cast hlog
    gcongr
  · rw [hv, add_assoc, add_comm e, ← add_assoc, zpow_add₀ two_ne_zero, ← Nat.cast_succ, zpow_natCast]
    have : (m : ℚ) < 2 ^ (m.log2 + 1) := by exact_mod_cast hlog'
    have hD' : (0 : ℚ) < D := by exact_mod_cast hD
    gcongr

/-- Scaled to exponent `e` as `nearestBits` scales it, a ratio equal to `m · 2^e` is `m` times
the scaled denominator. -/
theorem scaled_eq_of_eq {m : Nat} {e : Int} (hv : (N : ℚ) = m * 2 ^ e * D) :
    (if 0 ≤ e then N else N * 2 ^ (-e).toNat) = m * (if 0 ≤ e then D * 2 ^ e.toNat else D) := by
  split_ifs with he
  · obtain ⟨k, rfl⟩ := Int.eq_ofNat_of_zero_le he
    rw [zpow_natCast] at hv
    simp only [Int.toNat_natCast]
    exact_mod_cast (show (N : ℚ) = m * (D * 2 ^ k) by rw [hv]; ring)
  · obtain ⟨k, hk⟩ := Int.exists_eq_neg_ofNat (le_of_lt (not_le.mp he))
    subst hk
    rw [zpow_neg, zpow_natCast] at hv
    simp only [neg_neg, Int.toNat_natCast]
    exact_mod_cast (show (N : ℚ) * 2 ^ k = m * D by rw [hv]; field_simp)

/-- **`nearestBits` is exact on doubles.** For `N / D` equal to the double `m · 2^e`, the bit
pattern is that of `m · 2^e`. -/
theorem nearestBits_exact {m : Nat} {e : Int} (hc : Canonical m e) (hD : 0 < D)
    (hv : (N : ℚ) = m * 2 ^ e * D) : nearestBits N D = (bitsOf false m e).toUInt64 := by
  unfold Canonical at hc
  rcases Nat.eq_zero_or_pos m with rfl | hm
  · have hN : N = 0 := by exact_mod_cast (show (N : ℚ) = 0 by simp [hv])
    have he : e = -1074 := by omega
    subst hN he
    simp [nearestBits, bitsOf]
  have hN : 0 < N := by
    have : (0 : ℚ) < N := by rw [hv]; positivity
    exact_mod_cast this
  have hexp : max (floorLog2 N D - 52) (-1074) = e := by
    rw [floorLog2_of_eq hm hD hv]
    rcases hc with ⟨h52, h53, hlo, -⟩ | ⟨h52, rfl⟩
    · have : m.log2 = 52 := by
        rw [Nat.log2_eq_iff hm.ne']
        exact ⟨h52, h53⟩
      omega
    · have : m.log2 < 52 := (Nat.log2_lt hm.ne').mpr h52
      omega
  have hnd := scaled_eq_of_eq hv
  have hd : 0 < (if 0 ≤ e then D * 2 ^ e.toNat else D) := by split_ifs <;> positivity
  unfold nearestBits
  simp only [Nat.pow_eq, hexp, if_neg (show ¬ (N = 0 ∨ D = 0) by omega)]
  generalize (if 0 ≤ e then N else N * 2 ^ (-e).toNat) = n at hnd ⊢
  generalize (if 0 ≤ e then D * 2 ^ e.toNat else D) = d at hnd hd ⊢
  -- the quotient at exponent `e` is `m` with nothing left over
  subst hnd
  have hq := Nat.mul_div_cancel m hd
  have hr := Nat.mul_mod_left m d
  have hm53 : m ≠ 2 ^ 53 := by omega
  have hfit : ¬ 2047 ≤ e + 1075 := by omega
  have hround : ¬ (d < 2 * 0 ∨ 2 * 0 = d ∧ m % 2 = 1) := by omega
  simp only [hq, hr, if_neg hround, if_neg hm53, if_neg hfit, bitsOf]
  simp

/-- **`nearest` is exact on doubles**: for `N / D` equal to the double `±m · 2^e`, it gives that
double. -/
theorem nearest_exact {neg : Bool} {m : Nat} {e : Int} (hc : Canonical m e) (hD : 0 < D)
    (hv : (N : ℚ) = m * 2 ^ e * D) : nearest neg N D = Float.ofBits (bitsOf neg m e).toUInt64 := by
  unfold nearest
  rw [nearestBits_exact hc hD hv]
  cases neg
  · rfl
  · simp only [if_pos]
    congr 1
    apply UInt64.toNat_inj.mp
    have hsmall : bitsOf false m e < 2 ^ 63 := by
      unfold Canonical at hc; unfold bitsOf; simp; omega
    rw [UInt64.toNat_or, toNat_toUInt64_bitsOf hc, toNat_toUInt64_bitsOf hc,
      show (9223372036854775808 : UInt64).toNat = 2 ^ 63 from rfl, Nat.or_two_pow_eq_add_of_lt hsmall]
    simp [bitsOf]
    omega

/-- The quotient `nearestBits` rounds to: up when more than half remains, and on a tie when
the quotient is odd. -/
theorem roundQuot_le {n d c : Nat} (hd : 0 < d) (h : n ≤ c * d) :
    (if d < 2 * (n % d) ∨ (2 * (n % d) = d ∧ n / d % 2 = 1) then n / d + 1 else n / d) ≤ c := by
  have hdiv := Nat.div_add_mod n d
  have hq : n / d ≤ c := (Nat.div_le_iff_le_mul_add_pred hd).mpr (by nlinarith)
  split_ifs with hup
  · -- rounding up needs a remainder, so the quotient was below `c`
    have hr : 0 < n % d := by omega
    have : n / d < c := by
      by_contra hc
      have : c * d ≤ n / d * d := Nat.mul_le_mul_right d (not_lt.mp hc)
      nlinarith [Nat.mul_comm d (n / d)]
    omega
  · exact hq

/-- A ratio at most a whole `K < 2^53` lies in a binade of exponent at most `52`. -/
theorem floorLog2_le_52 {K : Nat} (hN : 0 < N) (hD : 0 < D) (hK : K < 2 ^ 53)
    (hv : (N : ℚ) ≤ K * D) : floorLog2 N D ≤ 52 := by
  have hlo := (floorLog2_spec hN hD).1
  have hD' : (0 : ℚ) < D := by exact_mod_cast hD
  by_contra h
  have h53 : (2 : ℚ) ^ (53 : Int) ≤ 2 ^ floorLog2 N D := zpow_le_zpow_right₀ (by norm_num) (by omega)
  have hK' : (K : ℚ) < 2 ^ (53 : Int) := by exact_mod_cast hK
  nlinarith

/-- Scaled by `2^k` into a binade of exponent at most `52`, the ratio `N / D` is at most `2^53`. -/
theorem scaled_le_two_pow_53 {k : Nat} (hN : 0 < N) (hD : 0 < D) (hk : floorLog2 N D + k ≤ 52) :
    N * 2 ^ k ≤ 2 ^ 53 * D := by
  have hhi := (floorLog2_spec hN hD).2
  have : (N : ℚ) * 2 ^ k ≤ 2 ^ 53 * D := by
    have hexp : (2 : ℚ) ^ (floorLog2 N D + 1 + k) ≤ 2 ^ (53 : Int) :=
      zpow_le_zpow_right₀ (by norm_num) (by omega)
    calc (N : ℚ) * 2 ^ k ≤ 2 ^ (floorLog2 N D + 1) * D * 2 ^ k := by gcongr
      _ = 2 ^ (floorLog2 N D + 1 + k) * D := by
        rw [zpow_add₀ two_ne_zero (floorLog2 N D + 1), zpow_natCast]; ring
      _ ≤ 2 ^ (53 : Int) * D := by gcongr
      _ = 2 ^ 53 * D := by norm_num
  exact_mod_cast this

/-- Scaled by `2^k` into the binade of exponent `52`, the ratio `N / D` is at least `2^52`. -/
theorem two_pow_52_le_scaled {k : Nat} (hN : 0 < N) (hD : 0 < D) (hk : floorLog2 N D + k = 52) :
    2 ^ 52 * D ≤ N * 2 ^ k := by
  have hlo := (floorLog2_spec hN hD).1
  have : (2 : ℚ) ^ 52 * D ≤ N * 2 ^ k := by
    calc (2 : ℚ) ^ 52 * D = 2 ^ (floorLog2 N D + k) * D := by rw [hk]; norm_num
      _ = 2 ^ floorLog2 N D * D * 2 ^ k := by rw [zpow_add₀ two_ne_zero, zpow_natCast]; ring
      _ ≤ N * 2 ^ k := by gcongr
  exact_mod_cast this

/-- **`nearestBits` stays below a whole bound.** For `N / D` at most a whole `K < 2^53`, the
pattern is that of a canonical double of value at most `K`: rounding never passes a point of the
grid it rounds to, and `K` lies on that grid. -/
theorem nearestBits_le {K : Nat} (hN : 0 < N) (hD : 0 < D) (hK : K < 2 ^ 53)
    (hv : (N : ℚ) ≤ K * D) :
    ∃ m e, Canonical m e ∧ nearestBits N D = (bitsOf false m e).toUInt64 ∧ (m : ℚ) * 2 ^ e ≤ K := by
  -- the ratio is below `2^53`, so the quotient's exponent is at most `0`
  have ht52 := floorLog2_le_52 hN hD hK hv
  obtain ⟨k, hk⟩ : ∃ k : Nat, max (floorLog2 N D - 52) (-1074) = -(k : Int) :=
    ⟨(-max (floorLog2 N D - 52) (-1074)).toNat, by omega⟩
  have hn : (if 0 ≤ -(k : Int) then N else N * 2 ^ (-(-(k : Int))).toNat) = N * 2 ^ k := by
    split_ifs with h
    · have : k = 0 := by omega
      subst this; simp
    · simp
  have hd : (if 0 ≤ -(k : Int) then D * 2 ^ (-(k : Int)).toNat else D) = D := by
    split_ifs with h
    · simp [show (-(k : Int)).toNat = 0 by omega]
    · rfl
  -- what the scaled quotient `N · 2^k / D` is bounded by
  have hbelow : N * 2 ^ k ≤ 2 ^ 53 * D := scaled_le_two_pow_53 hN hD (by omega)
  have habove : max (floorLog2 N D - 52) (-1074) = floorLog2 N D - 52 → 2 ^ 52 * D ≤ N * 2 ^ k :=
    fun _ => two_pow_52_le_scaled hN hD (by omega)
  have hbound : N * 2 ^ k ≤ K * 2 ^ k * D := by
    have : (N : ℚ) * 2 ^ k ≤ K * 2 ^ k * D := by
      calc (N : ℚ) * 2 ^ k ≤ K * D * 2 ^ k := by gcongr
        _ = K * 2 ^ k * D := by ring
    exact_mod_cast this
  unfold nearestBits
  simp only [Nat.pow_eq, if_neg (show ¬ (N = 0 ∨ D = 0) by omega), hk, hn, hd]
  have hge : N * 2 ^ k / D ≤ (if D < 2 * (N * 2 ^ k % D) ∨ 2 * (N * 2 ^ k % D) = D ∧
      N * 2 ^ k / D % 2 = 1 then N * 2 ^ k / D + 1 else N * 2 ^ k / D) := by
    split_ifs <;> omega
  have hup := roundQuot_le hD hbelow
  have hval := roundQuot_le hD hbound
  generalize (if D < 2 * (N * 2 ^ k % D) ∨ 2 * (N * 2 ^ k % D) = D ∧
      N * 2 ^ k / D % 2 = 1 then N * 2 ^ k / D + 1 else N * 2 ^ k / D) = q at hge hup hval ⊢
  -- the value `q · 2^(-k)` is at most `K`
  have hvalue : (q : ℚ) * 2 ^ (-(k : Int)) ≤ K := by
    rw [zpow_neg, zpow_natCast, ← div_eq_mul_inv, div_le_iff₀ (by positivity)]
    exact_mod_cast hval
  have hk1074 : k ≤ 1074 := by omega
  by_cases hcarry : q = 2 ^ 53
  · -- a carry into `2^53` moves to the next binade
    subst hcarry
    refine ⟨2 ^ 52, -(k : Int) + 1, .inl ⟨le_rfl, by norm_num, by omega, by omega⟩, ?_, ?_⟩
    · rw [if_pos rfl, if_neg (by omega)]
      simp [bitsOf]
    · rw [zpow_add₀ two_ne_zero, zpow_one]
      push_cast at hvalue ⊢
      linarith
  · refine ⟨q, -(k : Int), ?_, ?_, hvalue⟩
    · by_cases h52 : 2 ^ 52 ≤ q
      · exact .inl ⟨h52, by omega, by omega, by omega⟩
      · -- below `2^52` only when the exponent has reached the subnormal floor
        refine .inr ⟨by omega, ?_⟩
        by_contra hsub
        have := habove (by omega)
        have : 2 ^ 52 ≤ N * 2 ^ k / D := (Nat.le_div_iff_mul_le hD).mpr (by linarith)
        omega
    · rw [if_neg hcarry, if_neg (by omega)]
      simp [bitsOf]

/-- The non-negative double nearest to `N / D ≤ K`, for a whole `K < 2^53`, is at most `K`. -/
theorem nearest_le {K : Nat} (hN : 0 < N) (hD : 0 < D) (hK : K < 2 ^ 53) (hv : (N : ℚ) ≤ K * D) :
    ∃ m e, Canonical m e ∧ nearest false N D = Float.ofBits (bitsOf false m e).toUInt64 ∧
      (m : ℚ) * 2 ^ e ≤ K := by
  obtain ⟨m, e, hc, hbits, hle⟩ := nearestBits_le hN hD hK hv
  exact ⟨m, e, hc, by simp [nearest, hbits], hle⟩

/-! ### Classification and comparison -/

/-- A double is finite exactly when `unpack` gives it a sign, significand and exponent. -/
theorem isFinite_iff {y : Float} : y.isFinite = true ↔ ∃ neg m e, unpack y = .finite neg m e := by
  show y.toModel.unpack.isFinite = true ↔ _
  rw [toModel_unpack]
  cases unpack y with
  | nan => simp [Unpacked.model, UnpackedFloat.isFinite]
  | infinite neg => simp [Unpacked.model, UnpackedFloat.isFinite]
  | finite neg m e => simp only [Unpacked.model]; split <;> simp [UnpackedFloat.isFinite]

/-- Neither NaN nor infinite is finite. -/
theorem isNaN_or_isInf_eq_false_iff {y : Float} : (y.isNaN || y.isInf) = false ↔ y.isFinite = true := by
  show (y.toModel.unpack.isNaN || y.toModel.unpack.isInf) = false ↔ y.toModel.unpack.isFinite = true
  cases y.toModel.unpack <;>
    simp [UnpackedFloat.isNaN, UnpackedFloat.isInf, UnpackedFloat.isFinite]

/-- `<` on doubles is the model's comparison of the unpacked values. -/
theorem lt_iff_unpack_lt (y w : Float) : y < w ↔ y.toModel.unpack.lt w.toModel.unpack = true := by
  show Float.lt y w = true ↔ _
  unfold Float.lt
  simp only [decide_eq_true_iff]
  rfl

/-- No double is below itself: not a number, and the rest compare equal to themselves. -/
theorem not_lt_self (y : Float) : ¬ y < y := by
  rw [lt_iff_unpack_lt]
  cases y.toModel.unpack with
  | infinity s => cases s <;> decide
  | notANumber => decide
  | zero s => cases s <;> decide
  | finite s m e hm => cases s <;> simp [UnpackedFloat.lt, UnpackedFloat.compare]

/-- Both zeros compare alike with every double. -/
theorem lt_congr_of_zero {y z : Float} {s t : Sign} (hy : y.toModel.unpack = .zero s)
    (hz : z.toModel.unpack = .zero t) (w : Float) : (y < w ↔ z < w) ∧ (w < y ↔ w < z) := by
  simp only [lt_iff_unpack_lt, hy, hz]
  cases w.toModel.unpack with
  | infinity r => cases r <;> cases s <;> cases t <;> decide
  | notANumber => cases s <;> cases t <;> decide
  | zero r => cases r <;> cases s <;> cases t <;> decide
  | finite r m e hm => cases r <;> cases s <;> cases t <;> simp [UnpackedFloat.lt, UnpackedFloat.compare]

/-- A finite double with a zero significand is a zero of the model. -/
theorem toModel_unpack_of_zero {y : Float} {neg : Bool} {e : Int} (h : unpack y = .finite neg 0 e) :
    y.toModel.unpack = .zero (signOf neg) := by
  rw [toModel_unpack, h]
  rfl

end Blockwork.Decimal
