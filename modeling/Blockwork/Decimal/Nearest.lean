/-!
# The nearest double of a fraction

`Decimal.nearest neg num den` is the binary64 value closest to `num / den`: ties go to the even
significand, values beyond the largest finite double become infinity, and small values sink
through the subnormals to zero. Everything is computed in exact `Nat` arithmetic and the result
is assembled from its bit pattern, so the answer does not depend on how the host rounds.

Reading decimal text (`digits × 10^exp`) is the special case `den = 10^k` or `num = m · 10^k`.
-/

namespace Blockwork.Decimal

/-- Whether `num / den ≥ 2^t`, decided by cross-multiplying. -/
def atLeastPow2 (num den : Nat) (t : Int) : Bool :=
  if 0 ≤ t then decide (den * Nat.pow 2 t.toNat ≤ num)
  else decide (den ≤ num * Nat.pow 2 (-t).toNat)

/-- `⌊log₂ (num / den)⌋` for positive `num` and `den`. The bit lengths bound the ratio to two
adjacent binades, and one comparison picks the right one. -/
def floorLog2 (num den : Nat) : Int :=
  let t : Int := (num.log2 : Int) - den.log2
  if atLeastPow2 num den t then t else t - 1

/-- The bit pattern of infinity with a clear sign bit. -/
def infinityBits : UInt64 := 0x7FF0000000000000

/-- Bits of the nearest non-negative double to `num / den`.

The exponent `e` is chosen so that the quotient `q = ⌊num / (den · 2^e)⌋` has 53 bits, or fewer
when `e` reaches the subnormal floor `-1074`. The remainder decides the rounding, and a carry
into `2^53` moves the value to the next binade. With `q` and `e` fixed, the bit pattern is
`q + (e + 1074) · 2^52`: the hidden bit of a normal `q` supplies the lowest exponent bit. -/
def nearestBits (num den : Nat) : UInt64 :=
  if num = 0 ∨ den = 0 then 0 else
  let e : Int := max (floorLog2 num den - 52) (-1074)
  let n := if 0 ≤ e then num else num * Nat.pow 2 (-e).toNat
  let d := if 0 ≤ e then den * Nat.pow 2 e.toNat else den
  let q := n / d
  let r := n % d
  let q := if d < 2 * r ∨ (2 * r = d ∧ q % 2 = 1) then q + 1 else q
  let (q, e) := if q = Nat.pow 2 53 then (Nat.pow 2 52, e + 1) else (q, e)
  if 2047 ≤ e + 1075 then infinityBits
  else (q + (e + 1074).toNat * Nat.pow 2 52).toUInt64

/-- The double nearest to `±num / den`. -/
def nearest (neg : Bool) (num den : Nat) : Float :=
  let b := nearestBits num den
  Float.ofBits (if neg then b ||| 0x8000000000000000 else b)

/-- The double nearest to the integer `i`. -/
def ofInt (i : Int) : Float :=
  nearest (i < 0) i.natAbs 1

/-- The double nearest to `±m · 10^exp`. -/
def ofDecimal (neg : Bool) (m : Nat) (exp : Int) : Float :=
  if 0 ≤ exp then nearest neg (m * Nat.pow 10 exp.toNat) 1
  else nearest neg m (Nat.pow 10 (-exp).toNat)

end Blockwork.Decimal
