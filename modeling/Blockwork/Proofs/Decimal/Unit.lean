import Blockwork.Proofs.Decimal.Exact

/-!
# A double times one, and over one

The model of doubles computes a product or a quotient exactly, as a significand and an exponent
with an accuracy, and rounds that once (`UnpackedFloat.roundWithAccuracy`). By `1`, which the model
holds as `2^52 · 2^-52`, both come out exact: a product is the significand shifted left by `52`
bits, a quotient by `0` or `1` more bits than it loses. Rounding shifts the zeros back out, at the
double's own exponent, and gives the double itself (`roundWithAccuracy_shifted`). So a finite
double times or over `1` is itself (`mul_one_of_finite`, `div_one_of_finite`).
-/

open Float.Model (UnpackedFloat Format totalExponent)
open Float.Model.UnpackedFloat (Sign ExtendedMantissa)

namespace Blockwork.Decimal

theorem log2_mul_two_pow {m : Nat} (hm : m ≠ 0) : ∀ k : Nat, (m * 2 ^ k).log2 = m.log2 + k
  | 0 => by simp
  | k + 1 => by
    rw [Nat.pow_succ, ← Nat.mul_assoc, Nat.mul_comm _ 2,
      Nat.log2_two_mul (Nat.mul_ne_zero hm (by positivity)), log2_mul_two_pow hm k]
    omega

/-- Shifting out zero bits loses nothing. -/
theorem shiftRight_zeros (k : Nat) :
    ∀ m : Nat, (⟨m * 2 ^ k, false, false⟩ : ExtendedMantissa) >>> k = ⟨m, false, false⟩ := by
  induction k with
  | zero => intro m; simp [HShiftRight.hShiftRight, Nat.repeat]
  | succ k ih =>
    intro m
    change ExtendedMantissa.shiftRightOne ((⟨m * 2 ^ (k + 1), false, false⟩ : ExtendedMantissa) >>> k)
      = _
    rw [show m * 2 ^ (k + 1) = 2 * m * 2 ^ k by rw [Nat.pow_succ]; ring, ih (2 * m)]
    simp [ExtendedMantissa.shiftRightOne]

/-- The model rounds the value of a canonical double to the double's own exponent. -/
theorem targetExponent_canonical {m : Nat} {e : Int} (hc : Canonical m e) (hm : 0 < m) :
    Format.binary64.targetExponent (totalExponent m e) = e := by
  rcases hc with ⟨h52, h53, hlo, -⟩ | ⟨h52, rfl⟩
  · have hlog : m.log2 = 52 := (Nat.log2_eq_iff (by omega)).mpr ⟨h52, h53⟩
    simp [Format.targetExponent, totalExponent, Format.mantissaBits, Format.minExponent, hlog]
    omega
  · have hlog : m.log2 < 52 := (Nat.log2_lt (by omega)).mpr h52
    simp [Format.targetExponent, totalExponent, Format.mantissaBits, Format.minExponent]
    omega

/-- Shifting the exact value of a canonical double, given with `k` more bits, to the exponent the
model rounds it to takes the `k` zero bits back out. -/
theorem shiftToTargetExponent_shifted {m : Nat} {e : Int} (hc : Canonical m e) (hm : 0 < m)
    (k : Nat) :
    UnpackedFloat.shiftToTargetExponent .binary64 (m * 2 ^ k) (e - k) .exact =
      (⟨m, false, false⟩, e) := by
  have htot : totalExponent (m * 2 ^ k) (e - k) = totalExponent m e := by
    unfold totalExponent
    rw [log2_mul_two_pow (by omega) k]
    push_cast
    ring
  simp only [UnpackedFloat.shiftToTargetExponent, UnpackedFloat.shiftToExponent, htot,
    targetExponent_canonical hc hm, sub_sub_cancel, Int.toNat_natCast,
    ExtendedMantissa.ofMantissaAndAccuracy, shiftRight_zeros, sub_add_cancel]

/-- **Rounding the exact value of a canonical double, given with `k` more bits, gives the
double.** -/
theorem roundWithAccuracy_shifted {m : Nat} {e : Int} (hc : Canonical m e) (hm : 0 < m) (s : Sign)
    (k : Nat) :
    UnpackedFloat.roundWithAccuracy .binary64 s (m * 2 ^ k) (e - k) .exact = .finite s m e hm := by
  -- the second shift, after a rounding that changes nothing, has no bits to take out
  have h₀ := shiftToTargetExponent_shifted hc hm 0
  rw [pow_zero, Nat.mul_one, Nat.cast_zero, sub_zero] at h₀
  simp only [UnpackedFloat.roundWithAccuracy, shiftToTargetExponent_shifted hc hm k,
    ExtendedMantissa.roundedMantissa, ExtendedMantissa.accuracy,
    UnpackedFloat.Accuracy.roundToNearestEven, h₀]
  simp [Nat.pos_iff_ne_zero.mp hm]

theorem mul_positive (s : Sign) : s * Sign.positive = s := by
  cases s <;> rfl

theorem div_positive (s : Sign) : s / Sign.positive = s := by
  cases s <;> rfl

/-- The model's `1`. -/
theorem toModel_unpack_one :
    (1.0 : Float).toModel.unpack = .finite .positive (2 ^ 52) (-52) (by decide) := by
  have hbits : (1.0 : Float).toBits = 0x3FF0000000000000 := by decide +kernel
  have h : unpack (1.0 : Float) = .finite false (2 ^ 52) (-52) := by
    rw [unpack_eq_unpackBits, hbits]
    rfl
  rw [toModel_unpack, h]
  rfl

/-- In the model, a finite double times `1` is itself. -/
theorem mul_one_unpacked {m : Nat} {e : Int} (hc : Canonical m e) (hm : 0 < m) (s : Sign) :
    UnpackedFloat.mul .binary64 (.finite s m e hm) (.finite .positive (2 ^ 52) (-52) (by decide)) =
      .finite s m e hm := by
  show UnpackedFloat.roundWithAccuracy .binary64 (s * .positive) (m * 2 ^ 52) (e + -52) .exact = _
  rw [mul_positive, show e + -52 = e - ((52 : Nat) : Int) by omega]
  exact roundWithAccuracy_shifted hc hm s 52

/-- In the model, a finite double over `1` is itself: the quotient carries at most one more bit
than the double, all of them exact. -/
theorem div_one_unpacked {m : Nat} {e : Int} (hc : Canonical m e) (hm : 0 < m) (s : Sign) :
    UnpackedFloat.div .binary64 (.finite s m e hm) (.finite .positive (2 ^ 52) (-52) (by decide)) =
      .finite s m e hm := by
  have hlog : m.log2 ≤ 52 := by
    rcases hc with ⟨-, h53, -⟩ | ⟨h52, -⟩
    · exact Nat.lt_succ_iff.mp ((Nat.log2_lt (by omega)).mpr h53)
    · exact Nat.le_of_lt ((Nat.log2_lt (by omega)).mpr (by omega))
  have he : -1074 ≤ e := by rcases hc with ⟨-, -, h, -⟩ | ⟨-, rfl⟩ <;> omega
  -- the quotient's exponent is `e - j` for `j` bits more, with nothing left over
  have hone : totalExponent (2 ^ 52) (-52) = 1 := by
    unfold totalExponent
    rw [Nat.log2_two_pow]
    norm_num
  have hT : Format.binary64.targetExponent (totalExponent m e - totalExponent (2 ^ 52) (-52)) ≤ e := by
    rw [hone]
    simp [Format.targetExponent, totalExponent, Format.mantissaBits, Format.minExponent]
    omega
  set t := min (e - -52) (Format.binary64.targetExponent
    (totalExponent m e - totalExponent (2 ^ 52) (-52))) with ht
  have hte : t ≤ e := (min_le_right _ _).trans hT
  obtain ⟨j, hj⟩ : ∃ j : Nat, e - t = j := ⟨(e - t).toNat, by omega⟩
  have hshift : (e - -52 - t).toNat = 52 + j := by omega
  have hq : m <<< (52 + j) / 2 ^ 52 = m * 2 ^ j := by
    rw [Nat.shiftLeft_eq, Nat.pow_add, Nat.mul_comm (2 ^ 52), ← Nat.mul_assoc,
      Nat.mul_div_cancel _ (by positivity)]
  have hr : m <<< (52 + j) % 2 ^ 52 = 0 := by
    rw [Nat.shiftLeft_eq, Nat.pow_add, Nat.mul_left_comm, Nat.mul_mod_right]
  show UnpackedFloat.roundWithAccuracy .binary64 (s / .positive)
    (m <<< (e - -52 - t).toNat / 2 ^ 52) t
    (UnpackedFloat.accuracyOfFraction (m <<< (e - -52 - t).toNat % 2 ^ 52) (2 ^ 52)) = _
  rw [hshift, hq, hr, div_positive, show t = e - (j : Int) by omega]
  exact roundWithAccuracy_shifted hc hm s j

/-- A finite double is no infinity or NaN in its exponent field. -/
theorem exponentField_ne_of_finite {y : Float} {neg : Bool} {m : Nat} {e : Int}
    (h : unpack y = .finite neg m e) : y.toBits.toNat / 2 ^ 52 % 2048 ≠ 2047 := by
  intro hinf
  rw [unpack_eq_unpackBits, unpackBits, if_pos hinf] at h
  split at h <;> cases h

/-- A double is the model's packing of what the model unpacks, when it is finite. -/
theorem ofModel_pack_unpack {y : Float} {neg : Bool} {m : Nat} {e : Int}
    (h : unpack y = .finite neg m e) : Float.ofModel (Float.Model.pack y.toModel.unpack) = y := by
  apply eq_of_toBits_eq
  show UInt64.ofBitVec (UnpackedFloat.pack .binary64
    (UnpackedFloat.unpack .binary64 y.toBits.toBitVec)) = y.toBits
  rw [pack_unpack_binary64 (exponentField_ne_of_finite h)]

/-- An operation of the model that keeps every canonical finite double and each zero keeps every
finite double. -/
theorem ofModel_pack_keeps {y : Float} (hy : y.isFinite = true)
    (op : UnpackedFloat → UnpackedFloat)
    (hfin : ∀ {m : Nat} {e : Int}, Canonical m e → ∀ (s : Sign) (hm : 0 < m),
      op (.finite s m e hm) = .finite s m e hm)
    (hzero : ∀ s, op (.zero s) = .zero s) :
    Float.ofModel (Float.Model.pack (op y.toModel.unpack)) = y := by
  obtain ⟨neg, m, e, h⟩ := isFinite_iff.mp hy
  have hc := (eq_ofBits_bitsOf h).1
  -- the model unpacks the double as a zero of its sign or as its canonical significand
  have hop : op y.toModel.unpack = y.toModel.unpack := by
    rw [toModel_unpack, h, Unpacked.model]
    split
    · exact hfin hc _ _
    · exact hzero _
  rw [hop]
  exact ofModel_pack_unpack h

/-- **A finite double times one is itself.** -/
theorem mul_one_of_finite {y : Float} (hy : y.isFinite = true) : y * 1.0 = y := by
  show Float.ofModel (Float.Model.pack
    (UnpackedFloat.mul .binary64 y.toModel.unpack (1.0 : Float).toModel.unpack)) = y
  rw [toModel_unpack_one]
  refine ofModel_pack_keeps hy (fun u => UnpackedFloat.mul .binary64 u _)
    (fun hc s hm => mul_one_unpacked hc hm s) fun s => ?_
  show UnpackedFloat.zero (s * .positive) = _
  rw [mul_positive]

/-- **A finite double over one is itself.** -/
theorem div_one_of_finite {y : Float} (hy : y.isFinite = true) : y / 1.0 = y := by
  show Float.ofModel (Float.Model.pack
    (UnpackedFloat.div .binary64 y.toModel.unpack (1.0 : Float).toModel.unpack)) = y
  rw [toModel_unpack_one]
  refine ofModel_pack_keeps hy (fun u => UnpackedFloat.div .binary64 u _)
    (fun hc s hm => div_one_unpacked hc hm s) fun s => ?_
  show UnpackedFloat.zero (s / .positive) = _
  rw [div_positive]

end Blockwork.Decimal
