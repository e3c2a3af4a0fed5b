import Blockwork.Colour.Hash
import Blockwork.Decimal.Nearest

/-!
# From CIE Lab to an sRGB hex colour

`Colour.labToHex` converts a CIE Lab colour (D50 white) to the `#rrggbb` text of the nearest
displayable sRGB colour:

1. the lightness is clamped to `[0, 100]` and the three coordinates are turned back into XYZ
   with the CIE inverse companding (cube above `ε = 216/24389`, linear below);
2. each XYZ component is scaled by the D50 white and clamped to `[0, white]`;
3. a Bradford matrix adapts D50 to D65 and a second matrix gives linear sRGB;
4. each channel is clamped to `[0, 1]`, gamma-encoded (linear below 0.0031308, else
   `1.055 · c^(1/2.4) - 0.055`), scaled to 255 and rounded half away from zero.

Every arithmetic step is the double operation written, in the order written: no step is
fused or reassociated, so the bytes are those of the formula evaluated in doubles.
-/

namespace Blockwork.Colour

/-- The double nearest to `m · 10^e`. -/
def dec (m : Nat) (e : Int) : Float := Decimal.ofDecimal false m e

/-- Clamps a double to `[lo, hi]`; NaN stays NaN. -/
def clampF (x lo hi : Float) : Float :=
  if x < lo then lo else if x > hi then hi else x

/-- `ε` of the CIE inverse companding. -/
def epsilon : Float := 216.0 / 24389.0

/-- `κ` of the CIE inverse companding. -/
def kappa : Float := 24389.0 / 27.0

/-- The D50 reference white. -/
def white : Float × Float × Float := (dec 96422 (-5), dec 10 (-1), dec 82521 (-5))

/-- A 3×3 matrix by rows. -/
abbrev Matrix3 := (Float × Float × Float) × (Float × Float × Float) × (Float × Float × Float)

/-- Bradford adaptation from D50 to D65. -/
def d50ToD65 : Matrix3 :=
  ((dec 9555766 (-7), -(dec 230393 (-7)), dec 631636 (-7)),
   (-(dec 282895 (-7)), dec 10099416 (-7), dec 210077 (-7)),
   (dec 122982 (-7), -(dec 20483 (-6)), dec 13299098 (-7)))

/-- XYZ (D65) to linear sRGB. -/
def xyzToLinearSrgb : Matrix3 :=
  ((dec 32404542 (-7), -(dec 15371385 (-7)), -(dec 4985314 (-7))),
   (-(dec 969266 (-6)), dec 18760108 (-7), dec 41556 (-6)),
   (dec 556434 (-7), -(dec 2040259 (-7)), dec 10572252 (-7)))

/-- One row times a vector, summed left to right. -/
def dot (row v : Float × Float × Float) : Float :=
  row.1 * v.1 + row.2.1 * v.2.1 + row.2.2 * v.2.2

/-- A matrix times a vector. -/
def transform (m : Matrix3) (v : Float × Float × Float) : Float × Float × Float :=
  (dot m.1 v, dot m.2.1 v, dot m.2.2 v)

/-- The CIE inverse companding of one coordinate. -/
def finv (f : Float) : Float :=
  let cubed := f * f * f
  if cubed > epsilon then cubed else (116.0 * f - 16.0) / kappa

/-- The sRGB gamma encoding of a linear channel, as a byte. -/
def encodeChannel (c : Float) : Nat :=
  let c := clampF c 0.0 1.0
  let encoded := if c ≤ dec 31308 (-7) then dec 1292 (-2) * c
    else dec 1055 (-3) * c ^ (1.0 / dec 24 (-1)) - dec 55 (-3)
  (encoded * 255.0).round.toUInt8.toNat

/-- Two lowercase hex digits of a byte. -/
def hexByte (n : Nat) : String :=
  let digit (d : Nat) : Char := if d < 10 then Char.ofNat (48 + d) else Char.ofNat (87 + d)
  String.ofList [digit (n / 16 % 16), digit (n % 16)]

/-- The `#rrggbb` text of a CIE Lab colour; see the module comment. -/
def labToHex (l a b : Float) : String :=
  let l := clampF l 0.0 100.0
  let fy := (l + 16.0) / 116.0
  let fx := fy + a / 500.0
  let fz := fy - b / 200.0
  let x := clampF (finv fx * white.1) 0.0 white.1
  let y := clampF (finv fy * white.2.1) 0.0 white.2.1
  let z := clampF (finv fz * white.2.2) 0.0 white.2.2
  let lin := transform xyzToLinearSrgb (transform d50ToD65 (x, y, z))
  "#" ++ hexByte (encodeChannel lin.1) ++ hexByte (encodeChannel lin.2.1) ++
    hexByte (encodeChannel lin.2.2)

/-- The colour of a category name. -/
def ofName (name : String) : String :=
  let (l, a, b) := labOfName name
  labToHex (Decimal.ofInt l) (Decimal.ofInt a) (Decimal.ofInt b)

end Blockwork.Colour
