import Blockwork.Json.Write
import Blockwork.Decimal.Parse

/-!
# Fields

A field is a value a block shows and lets the user edit: a label, a text box, a number, a
checkbox, a dropdown and so on. Each field has a kind, which decides which values it accepts and
how it stores them, and the name of its type as the registry knows it.

`Field.check` is the acceptance rule of a kind; `Field.setValue` stores what it returns:

* a checkbox takes a boolean, or the text `true` or `false` in any letter case;
* a number takes a number, or text that reads as one after trimming white space; the value must
  be finite, is rounded to a multiple of a positive precision, then raised to the minimum and
  lowered to the maximum;
* an angle takes a number and stores it reduced into `[0, 360)`;
* a dropdown takes the text of one of its option values;
* the text kinds take text, a number (as its text) or null (as empty text);
* images and custom fields take anything.

Computed numbers are stored as integers when they are whole and below `2^63` in magnitude.
-/

namespace Blockwork

/-- An entry of a dropdown: the text shown and the value stored. -/
structure DropdownOption where
  label : String
  value : String
  deriving BEq, Repr

/-- What kind of field a field is, with the settings of its kind. -/
inductive FieldKind where
  | label
  | textInput
  | multilineTextInput
  | number (min max precision : Option Float)
  | checkbox
  | dropdown (options : List DropdownOption)
  | variable
  | image (src : String) (width height : Float) (alt : String)
  | angle
  | colour
  | date
  | custom

/-- The name of a field kind in descriptions. -/
def FieldKind.name : FieldKind → String
  | .label => "label"
  | .textInput => "text_input"
  | .multilineTextInput => "multiline_text_input"
  | .number .. => "number"
  | .checkbox => "checkbox"
  | .dropdown _ => "dropdown"
  | .variable => "variable"
  | .image .. => "image"
  | .angle => "angle"
  | .colour => "colour"
  | .date => "date"
  | .custom => "custom"

/-- Why a field could not be made or could not take a value. -/
inductive FieldError where
  /-- The constructor arguments of a field type do not describe a field. -/
  | invalidArguments (typeName message : String)
  /-- A field refused a value. -/
  | rejected (typeName : String) (value : Json)

/-- The text of a field error. -/
def FieldError.message : FieldError → String
  | .invalidArguments t m => "Invalid arguments for field type '" ++ t ++ "': " ++ m
  | .rejected t v => "Field type '" ++ t ++ "' rejected value '" ++ v.compact ++ "'"

/-- A field of a block. -/
structure Field where
  name : Option String := none
  typeName : String
  kind : FieldKind
  value : Json

/-- A computed double as a stored value: whole values below `2^63` become integers, values with
no JSON form become null. -/
def Json.ofComputed (f : Float) : Json :=
  if f.isNaN || f.isInf then .null
  else .num (Num.ofComputed f)

/-- `x` reduced into `[0, m]` for a whole positive `m`: the remainder of the division truncated
toward zero, which is exact in doubles, moved up by `m` when negative. Moving up rounds once, as
the sum of the two doubles does, and lands on `m` itself when the remainder is a tiny negative. -/
def euclidRem (x m : Float) : Float :=
  match Decimal.unpack x with
  | .finite neg sig q =>
    -- |x| mod m, with both sides scaled to whole numbers
    let scale := if q < 0 then (-q).toNat else 0
    let num := sig * Nat.pow 2 (if q < 0 then 0 else q.toNat)
    let mm := m.toUInt64.toNat * Nat.pow 2 scale
    let rem := num % mm
    if neg && rem != 0 then Decimal.nearest false (mm - rem) (Nat.pow 2 scale)
    else Decimal.nearest neg rem (Nat.pow 2 scale)
  | _ => 0.0 / 0.0

/-- `x` rounded to a whole number, halfway cases away from zero, exactly. The sign is kept, so
values in `(-1/2, 0]` become `-0`. -/
def roundHalfAway (x : Float) : Float :=
  match Decimal.unpack x with
  | .finite neg m q =>
    if 0 ≤ q then x
    else
      -- |x| = m / 2^k, and adding half of 2^k before dividing rounds a half up in magnitude
      let k := (-q).toNat
      Decimal.nearest neg ((2 * m + Nat.pow 2 k) / Nat.pow 2 (k + 1)) 1
  | _ => x

/-- The value a number field stores for a finite number `x`. -/
def numberValue (min max precision : Option Float) (x : Float) : Json :=
  let x := match precision with
    | some p => if p > 0.0 then roundHalfAway (x / p) * p else x
    | none => x
  let x := match min with
    | some lo => if x < lo then lo else x
    | none => x
  let x := match max with
    | some hi => if x > hi then hi else x
    | none => x
  Json.ofComputed x

/-- Letters compared without regard to ASCII case. -/
def sameIgnoringCase (a b : String) : Bool :=
  a.toList.map Char.toLower == b.toList.map Char.toLower

/-- The value a field of kind `kind` stores for `v`, or `none` when it refuses `v`. -/
def FieldKind.accept (kind : FieldKind) (v : Json) : Option Json :=
  match kind with
  | .checkbox =>
    match v with
    | .bool _ => some v
    | .str s =>
      if sameIgnoringCase s "true" then some (.bool true)
      else if sameIgnoringCase s "false" then some (.bool false)
      else none
    | _ => none
  | .number min max precision =>
    let x? := match v with
      | .num n => some n.toFloat
      | .str s => Decimal.parse? (Decimal.trimWhite s)
      | _ => none
    match x? with
    | some x => if x.isNaN || x.isInf then none else some (numberValue min max precision x)
    | none => none
  | .dropdown options =>
    match v with
    | .str s => if options.any (·.value == s) then some v else none
    | _ => none
  | .angle =>
    match v with
    | .num n => some (Json.ofComputed (euclidRem n.toFloat 360.0))
    | _ => none
  | .label | .textInput | .multilineTextInput | .variable | .colour | .date =>
    match v with
    | .str _ => some v
    | .num n => some (.str n.text)
    | .null => some (.str "")
    | _ => none
  | .image .. | .custom => some v

namespace Field

/-- The stored form of `v`, or the refusal. -/
def check (f : Field) (v : Json) : Except FieldError Json :=
  match f.kind.accept v with
  | some w => .ok w
  | none => .error (.rejected f.typeName v)

/-- Stores `v` after checking it. A refused value leaves the field as it was. -/
def setValue (f : Field) (v : Json) : Except FieldError Field := do
  let w ← f.check v
  return { f with value := w }

/-- The options of a dropdown field. -/
def options : Field → List DropdownOption
  | { kind := .dropdown options, .. } => options
  | _ => []

/-- A label showing `text`. -/
def label (text : String) : Field :=
  { typeName := "label", kind := .label, value := .str text }

end Field

end Blockwork
