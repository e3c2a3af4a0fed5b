/-!
# Shortest decimal text of a double

A finite double `m · 2^q` is read back from any decimal inside its rounding interval: the reals
that round to it, with both ends included when `m` is even (a tie then goes to `m`). The
shortest decimal of a double is the decimal with the fewest significant digits in that interval;
of two such decimals the one nearer to the value wins, and an exact tie goes to the even one.

`Float.shortest` finds it by trying 1, 2, … 17 digits. On the grid of `n`-digit decimals only
the value's two neighbours can lie in the interval if any point of the grid does, so each step
tests two candidates in exact `Nat` arithmetic. Seventeen digits always succeed.

Two layouts of these digits are used by the library:

* `jsonText` writes positionally while the decimal point falls within the first sixteen
  places (or at most five zeros follow the point), always keeps a fraction or an exponent, and
  writes an exponent with its sign (`1e+20`, `1e-7`);
* `plainText` always writes positionally and drops a zero fraction (`100000000000000000000`).
-/

namespace Blockwork.Decimal

/-- A double split into sign, significand and binary exponent, or one of its special values. -/
inductive Unpacked where
  /-- The finite value `±m · 2^q`; zero has `m = 0`. -/
  | finite (neg : Bool) (m : Nat) (q : Int)
  | infinite (neg : Bool)
  | nan

/-- Splits the bit pattern of a double. -/
def unpack (f : Float) : Unpacked :=
  let b := f.toBits.toNat
  let neg := b / Nat.pow 2 63 = 1
  let biased : Nat := (b / Nat.pow 2 52) % 2048
  let frac := b % Nat.pow 2 52
  if biased = 2047 then (if frac = 0 then .infinite neg else .nan)
  else if biased = 0 then .finite neg frac (-1074)
  else .finite neg (frac + Nat.pow 2 52) ((biased : Int) - (1075 : Int))

/-- Compares `k · 10^e` with `x · 2^p` exactly. -/
def cmpScaled (k : Nat) (e : Int) (x : Nat) (p : Int) : Ordering :=
  let lhs := k * Nat.pow 10 e.toNat * Nat.pow 2 (-p).toNat
  let rhs := x * Nat.pow 2 p.toNat * Nat.pow 10 (-e).toNat
  compare lhs rhs

/-- `⌊(x · 2^p) / 10^e⌋` and whether the division is exact. -/
def divScaled (x : Nat) (p : Int) (e : Int) : Nat × Bool :=
  let num := x * Nat.pow 2 p.toNat * Nat.pow 10 (-e).toNat
  let den := Nat.pow 2 (-p).toNat * Nat.pow 10 e.toNat
  (num / den, num % den == 0)

/-- `⌊log₁₀ (x · 2^p)⌋` for positive `x`: an estimate from the bit length, corrected by
comparisons (the estimate is off by at most one, the fuel allows more). -/
def floorLog10 (x : Nat) (p : Int) : Int :=
  let b : Int := (x.log2 : Int) + p
  let est := (b * 78913) / 262144
  let rec up : Nat → Int → Int
    | 0, d => d
    | fuel + 1, d => if cmpScaled 1 (d + 1) x p != .gt then up fuel (d + 1) else d
  let rec down : Nat → Int → Int
    | 0, d => d
    | fuel + 1, d => if cmpScaled 1 d x p == .gt then down fuel (d - 1) else d
  down 4 (up 4 est)

/-- A decimal `digits · 10^exp`. -/
structure Scaled where
  digits : Nat
  exp : Int

/-- Removes trailing zeros of the significand, raising the exponent to match. -/
def Scaled.trim (d : Scaled) : Scaled :=
  if h : d.digits ≠ 0 ∧ d.digits % 10 = 0 then
    have : d.digits / 10 < d.digits := Nat.div_lt_self (Nat.pos_of_ne_zero h.1) (by decide)
    Scaled.trim ⟨d.digits / 10, d.exp + 1⟩
  else d
termination_by d.digits

/-- The shortest decimal inside the rounding interval of `m · 2^q` (with `m > 0`).

All three points are kept as multiples of `2^(q-2)`: the value is `4m`, the upper end `4m + 2`
and the lower end `4m - 2`, or `4m - 1` at the bottom of a binade, where the gap below is half
the gap above. -/
def shortest (m : Nat) (q : Int) : Scaled :=
  let p := q - 2
  let v := 4 * m
  let hi := 4 * m + 2
  let lo := if m = Nat.pow 2 52 ∧ q > -1074 then 4 * m - 1 else 4 * m - 2
  let inclusive := m % 2 = 0
  let inside (k : Nat) (e : Int) : Bool :=
    let a := cmpScaled k e lo p
    let b := cmpScaled k e hi p
    (a == .gt || (inclusive && a == .eq)) && (b == .lt || (inclusive && b == .eq))
  let top := floorLog10 v p
  let rec search : Nat → Nat → Scaled
    | 0, _ => ⟨v, p⟩
    | fuel + 1, n =>
      let e := top - n + 1
      let (k, exact) := divScaled v p e
      if exact then ⟨k, e⟩ else
      let lowIn := inside k e
      let highIn := inside (k + 1) e
      if lowIn && highIn then
        -- both neighbours read back: the nearer wins, a tie goes to the even one
        match cmpScaled (2 * k + 1) e (2 * v) p with
        | .gt => ⟨k, e⟩
        | .lt => ⟨k + 1, e⟩
        | .eq => if k % 2 = 0 then ⟨k, e⟩ else ⟨k + 1, e⟩
      else if lowIn then ⟨k, e⟩
      else if highIn then ⟨k + 1, e⟩
      else search fuel (n + 1)
  (search 17 1).trim

/-- `n` copies of the digit zero. -/
def zeros (n : Nat) : String :=
  String.ofList (List.replicate n '0')

/-- An exponent with its sign always written. -/
def signedExponent (x : Int) : String :=
  if 0 ≤ x then "+" ++ toString x.toNat else "-" ++ toString (-x).toNat

/-- The layout of a shortest decimal in JSON text; see the module comment. -/
def layoutJson (d : Scaled) : String :=
  let s := toString d.digits
  let len : Int := s.length
  let point := len + d.exp
  if 0 ≤ d.exp ∧ point ≤ 16 then s ++ zeros d.exp.toNat ++ ".0"
  else if 0 < point ∧ point ≤ 16 then
    String.ofList (s.toList.take point.toNat) ++ "." ++ String.ofList (s.toList.drop point.toNat)
  else if -5 < point ∧ point ≤ 0 then "0." ++ zeros (-point).toNat ++ s
  else if len = 1 then s ++ "e" ++ signedExponent (point - 1)
  else
    String.ofList (s.toList.take 1) ++ "." ++ String.ofList (s.toList.drop 1) ++ "e" ++
      signedExponent (point - 1)

/-- The positional layout of a shortest decimal, with no fraction when it is whole. -/
def layoutPlain (d : Scaled) : String :=
  let s := toString d.digits
  let len : Int := s.length
  let point := len + d.exp
  if 0 ≤ d.exp then s ++ zeros d.exp.toNat
  else if 0 < point then
    String.ofList (s.toList.take point.toNat) ++ "." ++ String.ofList (s.toList.drop point.toNat)
  else "0." ++ zeros (-point).toNat ++ s

/-- JSON text of a double: the shortest decimal in the JSON layout; zero is `0.0`, and values
with no JSON form (infinities, NaN) are written `null`. -/
def jsonText (f : Float) : String :=
  match unpack f with
  | .nan | .infinite _ => "null"
  | .finite neg m q =>
    let sign := if neg then "-" else ""
    if m = 0 then sign ++ "0.0" else sign ++ layoutJson (shortest m q)

/-- Plain positional text of a double; infinities are `inf` and `-inf`, NaN is `NaN`. -/
def plainText (f : Float) : String :=
  match unpack f with
  | .nan => "NaN"
  | .infinite neg => if neg then "-inf" else "inf"
  | .finite neg m q =>
    let sign := if neg then "-" else ""
    if m = 0 then sign ++ "0" else sign ++ layoutPlain (shortest m q)

end Blockwork.Decimal
