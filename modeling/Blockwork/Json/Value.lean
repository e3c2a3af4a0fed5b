import Blockwork.Decimal.Nearest
import Blockwork.Decimal.Shortest

/-!
# JSON values

`Json` is the data format the library reads and writes: block libraries, saved block trees,
toolboxes, message tables and field values are all JSON. Objects are lists of entries in the
order they were written; the reader keeps one entry per key (the first position, the last
value), so a key's place in an object never moves once it is there.

Numbers keep the distinction the format's readers make: an integer that fits in 64 bits (as a
signed or an unsigned word) is kept exactly, anything else is a double.
-/

namespace Blockwork

/-- A JSON number: an exact integer in `[-2^63, 2^64)` or a double. -/
inductive Num where
  | int (i : Int)
  | float (f : Float)

namespace Num

/-- The number as a double (integers round to the nearest double). -/
def toFloat : Num → Float
  | .int i => Decimal.ofInt i
  | .float f => f

/-- Text of a number: integers in decimal, doubles in their shortest JSON form. -/
def text : Num → String
  | .int i => toString i
  | .float f => Decimal.jsonText f

/-- Numbers are equal when they have the same kind and the same value; doubles compare as
doubles, so `0.0` equals `-0.0`. -/
def beq : Num → Num → Bool
  | .int a, .int b => a == b
  | .float a, .float b => a == b
  | _, _ => false

instance : BEq Num := ⟨beq⟩

/-- The number a computed double is stored as: a whole double below `2^63` in magnitude becomes
an integer (so `-0.0` becomes `0`), anything else stays a double. -/
def ofComputed (f : Float) : Num :=
  match Decimal.unpack f with
  | .finite neg m q =>
    if q ≥ 0 then
      let n := m * Nat.pow 2 q.toNat
      if n < Nat.pow 2 63 then .int (if neg then -(n : Int) else n) else .float f
    else if m % Nat.pow 2 (-q).toNat = 0 then
      let n := m / Nat.pow 2 (-q).toNat
      .int (if neg then -(n : Int) else n)
    else .float f
  | _ => .float f

end Num

/-- A JSON value. -/
inductive Json where
  | null
  | bool (b : Bool)
  | num (n : Num)
  | str (s : String)
  | arr (items : List Json)
  | obj (entries : List (String × Json))

namespace Json

instance : Inhabited Json := ⟨.null⟩

/-- Structural equality; numbers compare as `Num.beq` does and objects entry by entry. -/
def beq : Json → Json → Bool
  | .null, .null => true
  | .bool a, .bool b => a == b
  | .num a, .num b => a == b
  | .str a, .str b => a == b
  | .arr as, .arr bs => beqList as bs
  | .obj as, .obj bs => beqEntries as bs
  | _, _ => false
where
  beqList : List Json → List Json → Bool
    | [], [] => true
    | a :: as, b :: bs => beq a b && beqList as bs
    | _, _ => false
  beqEntries : List (String × Json) → List (String × Json) → Bool
    | [], [] => true
    | (k, a) :: as, (l, b) :: bs => k == l && beq a b && beqEntries as bs
    | _, _ => false

instance : BEq Json := ⟨beq⟩

/-- How deeply arrays and objects nest in a value: `0` for a scalar, one more than its deepest
item for an array or an object. -/
def depth : Json → Nat
  | .arr items => depthItems items + 1
  | .obj entries => depthEntries entries + 1
  | _ => 0
where
  depthItems : List Json → Nat
    | [] => 0
    | a :: as => max (depth a) (depthItems as)
  depthEntries : List (String × Json) → Nat
    | [] => 0
    | (_, a) :: as => max (depth a) (depthEntries as)

/-- Sets `key` in an entry list: an existing key keeps its place and takes the new value, a new
key goes to the end. -/
def setEntry (entries : List (String × Json)) (key : String) (v : Json) : List (String × Json) :=
  if entries.any (·.1 == key) then entries.map (fun e => if e.1 == key then (key, v) else e)
  else entries ++ [(key, v)]

/-- Folds entries with `setEntry`, so that a repeated key keeps its first place and last value. -/
def dedup (entries : List (String × Json)) : List (String × Json) :=
  entries.foldl (fun acc e => setEntry acc e.1 e.2) []

/-- The value of `key` in an object, if the value is an object holding it. -/
def get? (j : Json) (key : String) : Option Json :=
  match j with
  | .obj entries => (entries.find? (·.1 == key)).map (·.2)
  | _ => none

/-- The string inside a string value. -/
def str? : Json → Option String
  | .str s => some s
  | _ => none

/-- The items of an array value. -/
def arr? : Json → Option (List Json)
  | .arr xs => some xs
  | _ => none

/-- The boolean inside a boolean value. -/
def bool? : Json → Option Bool
  | .bool b => some b
  | _ => none

/-- The number of a number value, as a double. -/
def float? : Json → Option Float
  | .num n => some n.toFloat
  | _ => none

def isNull : Json → Bool
  | .null => true
  | _ => false

/-- A number value of a double. -/
def ofFloat (f : Float) : Json := .num (.float f)

/-- A number value of an integer. -/
def ofInt (i : Int) : Json := .num (.int i)

/-- A number value of a natural number. -/
def ofNat (n : Nat) : Json := .num (.int n)

/-- An array of strings. -/
def ofStrings (xs : List String) : Json := .arr (xs.map .str)

/-- `none` as `null`, anything else through `f`. -/
def ofOption {α : Type} (f : α → Json) : Option α → Json
  | none => .null
  | some a => f a

end Json

end Blockwork
