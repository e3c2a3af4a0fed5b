import Blockwork.Decimal.Nearest

/-!
# Reading decimal text as a double

`Decimal.parse?` reads the usual decimal notation of a double: an optional sign, then either
`inf`, `infinity` or `nan` in any letter case, or digits with an optional point (at least one
digit on one side of it) and an optional exponent `e`/`E` with an optional sign and at least one
digit. The value is the double nearest to the decimal, so overlong inputs overflow to infinity
and tiny ones become zero. Nothing else is accepted: no spaces, no digit separators.
-/

namespace Blockwork.Decimal

/-- Digits at the front of a list, and the rest. -/
def spanDigits (cs : List Char) : List Char × List Char :=
  (cs.takeWhile Char.isDigit, cs.dropWhile Char.isDigit)

/-- The number a digit string spells. -/
def digitsValue (ds : List Char) : Nat :=
  ds.foldl (fun n c => 10 * n + (c.toNat - 48)) 0

/-- The double nearest to `±m · 10^e`, deciding overflow and underflow from the number of
digits before building large powers: a decimal of `n` digits lies in `[10^(n-1+e), 10^(n+e))`. -/
def scaled (neg : Bool) (m : Nat) (e : Int) : Float :=
  let n : Int := (toString m).length
  if m = 0 then (if neg then -0.0 else 0.0)
  else if n + e > 310 then (if neg then -(1.0 / 0.0) else 1.0 / 0.0)
  else if n + e < -326 then (if neg then -0.0 else 0.0)
  else ofDecimal neg m e

/-- Lowercase ASCII letters of a text. -/
def lowerAscii (cs : List Char) : List Char := cs.map Char.toLower

/-- Reads decimal text; see the module comment. -/
def parse? (s : String) : Option Float :=
  let cs := s.toList
  let (neg, body) := match cs with
    | '-' :: r => (true, r)
    | '+' :: r => (false, r)
    | r => (false, r)
  let word := lowerAscii body
  if word == "inf".toList || word == "infinity".toList then
    some (if neg then -(1.0 / 0.0) else 1.0 / 0.0)
  else if word == "nan".toList then some (0.0 / 0.0)
  else
    let (intDigits, rest) := spanDigits body
    let (fracDigits, rest) := match rest with
      | '.' :: r => spanDigits r
      | r => ([], r)
    if intDigits.isEmpty && fracDigits.isEmpty then none
    else
      let expPart : Option Int := match rest with
        | [] => some 0
        | c :: r =>
          if c == 'e' || c == 'E' then
            let (eneg, edigits) := match r with
              | '-' :: t => (true, t)
              | '+' :: t => (false, t)
              | t => (false, t)
            if edigits.isEmpty || !edigits.all Char.isDigit then none
            else
              let v : Int := digitsValue edigits
              some (if eneg then -v else v)
          else none
      match expPart with
      | none => none
      | some e =>
        let m := digitsValue (intDigits ++ fracDigits)
        some (scaled neg m (e - fracDigits.length))

/-- Unicode white space, as trimmed from text before it is read as a number. -/
def isWhite (c : Char) : Bool :=
  let n := c.toNat
  (9 ≤ n && n ≤ 13) || n == 32 || n == 0x85 || n == 0xA0 || n == 0x1680 ||
    (0x2000 ≤ n && n ≤ 0x200A) || n == 0x2028 || n == 0x2029 || n == 0x202F || n == 0x205F ||
    n == 0x3000

/-- Removes white space from both ends. -/
def trimWhite (s : String) : String :=
  String.ofList (((s.toList.dropWhile isWhite).reverse.dropWhile isWhite).reverse)

end Blockwork.Decimal
