import Blockwork.Field.Basic

/-!
# Making fields from constructor arguments

Each built-in field type is made from a list of JSON constructor arguments, in the order the
editor's own field classes take them; missing trailing arguments take the editor's defaults.
Text arguments accept text or a number (as its text); number arguments accept any number.

* `label`, `text_input`, `multiline_text_input`, `date`: the text, empty by default;
* `number`: the first argument is the value (0 when missing or null), then minimum, maximum and
  precision; the value goes through the number's own check;
* `checkbox`: unchecked, or the first argument when it is not null, checked as a checkbox value;
* `dropdown`: one argument listing the options, each a text (shown and stored) or a
  `[label, value]` pair of texts; the first option's value is selected;
* `variable`: the variable name, `item` by default;
* `image`: source, width and height (15 by default) and alternative text; the value is the
  source;
* `angle`: like `number`, reduced into `[0, 360)`;
* `colour`: the colour text, `#ff0000` by default.
-/

namespace Blockwork

/-- The built-in constructors of fields. -/
inductive FieldMaker where
  | label | textInput | multilineTextInput | number | checkbox | dropdown | variable | image
  | angle | colour | date
  deriving BEq, DecidableEq, Repr

namespace FieldMaker

/-- A text argument: text as is, a number as its text, anything else the default. -/
def textArg (args : List Json) (i : Nat) (default : String) : String :=
  match args[i]? with
  | some (.str s) => s
  | some (.num n) => n.text
  | _ => default

/-- A number argument. -/
def numberArg (args : List Json) (i : Nat) : Option Float :=
  match args[i]? with
  | some (.num n) => some n.toFloat
  | _ => none

/-- The first argument when it is given and not null. -/
def firstGiven (args : List Json) : Option Json :=
  match args with
  | v :: _ => if v.isNull then none else some v
  | [] => none

/-- One dropdown option: a text, or a pair of texts. -/
def option? : Json → Option DropdownOption
  | .str s => some ⟨s, s⟩
  | .arr (.str l :: .str v :: _) => some ⟨l, v⟩
  | _ => none

/-- The dropdown of the given arguments. -/
def dropdownOf (args : List Json) : Except FieldError Field := do
  let invalid (m : String) : FieldError := .invalidArguments "dropdown" m
  let entries ← match args with
    | .arr xs :: _ => pure xs
    | _ => throw (invalid "expected an array of options")
  let options ← match entries.mapM option? with
    | some os => pure os
    | none => throw (invalid "each option must be a string or a [label, value] pair")
  match options with
  | o :: _ => pure { typeName := "dropdown", kind := .dropdown options, value := .str o.value }
  | [] => throw (invalid "a dropdown needs at least one option")

/-- Makes a field from constructor arguments. -/
def make (maker : FieldMaker) (args : List Json) : Except FieldError Field :=
  match maker with
  | .label => pure (Field.label (textArg args 0 ""))
  | .textInput => pure { typeName := "text_input", kind := .textInput, value := .str (textArg args 0 "") }
  | .multilineTextInput =>
    pure { typeName := "multiline_text_input", kind := .multilineTextInput,
           value := .str (textArg args 0 "") }
  | .number =>
    let f : Field := { typeName := "number",
                       kind := .number (numberArg args 1) (numberArg args 2) (numberArg args 3),
                       value := .ofInt 0 }
    f.setValue ((firstGiven args).getD (.ofInt 0))
  | .checkbox =>
    let f : Field := { typeName := "checkbox", kind := .checkbox, value := .bool false }
    match firstGiven args with
    | some v => f.setValue v
    | none => pure f
  | .dropdown => dropdownOf args
  | .variable => pure { typeName := "variable", kind := .variable, value := .str (textArg args 0 "item") }
  | .image =>
    let src := textArg args 0 ""
    pure { typeName := "image",
           kind := .image src ((numberArg args 1).getD 15.0) ((numberArg args 2).getD 15.0)
             (textArg args 3 ""),
           value := .str src }
  | .angle =>
    let f : Field := { typeName := "angle", kind := .angle, value := .ofInt 0 }
    f.setValue ((firstGiven args).getD (.ofInt 0))
  | .colour => pure { typeName := "colour", kind := .colour, value := .str (textArg args 0 "#ff0000") }
  | .date => pure { typeName := "date", kind := .date, value := .str (textArg args 0 "") }

end FieldMaker

end Blockwork
