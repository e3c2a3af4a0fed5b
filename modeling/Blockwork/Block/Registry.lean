import Blockwork.Block.Input
import Blockwork.Text.Quoted

/-!
# The class registry

Blocks make their inputs and fields through a registry of constructors by name. The built-in
registry knows the four input kinds and the field types under their short names, under the
editor's own `field_`-prefixed names (`field_input` is the text input), and a few extension
types (`colour_hsv` is a colour field).
-/

namespace Blockwork

/-- The two kinds of things the registry makes. -/
inductive RegistryKind where
  | input
  | field
  deriving BEq, DecidableEq, Repr

/-- How a registry kind is named in messages. -/
def RegistryKind.name : RegistryKind → String
  | .input => "input"
  | .field => "field"

/-- A name the registry does not know. -/
structure RegistryError where
  kind : RegistryKind
  name : String

/-- The text of a registry error. -/
def RegistryError.message (e : RegistryError) : String :=
  "Unregistered " ++ e.kind.name ++ " type: '" ++ e.name ++ "'"

/-- Input kinds and field constructors by name. -/
structure Registry where
  inputs : List (String × InputKind) := []
  fields : List (String × FieldMaker) := []

namespace Registry

/-- The registry every host starts with. -/
def builtin : Registry where
  inputs := [("value", .value), ("statement", .statement), ("dummy", .dummy), ("end_row", .endRow)]
  fields :=
    [("field_label", .label), ("field_input", .textInput), ("field_number", .number),
     ("field_checkbox", .checkbox), ("field_dropdown", .dropdown), ("field_variable", .variable),
     ("field_image", .image),
     ("checkbox", .checkbox), ("dropdown", .dropdown), ("image", .image), ("number", .number),
     ("text_input", .textInput), ("variable", .variable), ("label", .label),
     ("angle", .angle), ("colour", .colour), ("colour_hsv", .colour), ("date", .date),
     ("multiline_text_input", .multilineTextInput)]

/-- The input kind registered under a name. -/
def input? (r : Registry) (name : String) : Except RegistryError InputKind :=
  match r.inputs.lookup name with
  | some k => .ok k
  | none => .error ⟨.input, name⟩

/-- The field constructor registered under a name. -/
def field? (r : Registry) (name : String) : Except RegistryError FieldMaker :=
  match r.fields.lookup name with
  | some m => .ok m
  | none => .error ⟨.field, name⟩

/-- Whether a name is registered for a kind. -/
def contains (r : Registry) : RegistryKind → String → Bool
  | .input, name => (r.inputs.lookup name).isSome
  | .field, name => (r.fields.lookup name).isSome

/-- Makes an input of a registered kind; its connection, if any, takes `check`. -/
def makeInput (r : Registry) (kind : InputKind) (name : Option String)
    (check : Option (List String)) : Except RegistryError Input := do
  let k ← r.input? kind.registryName
  let i := Input.ofKind name k
  pure { i with connection := i.connection.map fun c => { c with check := check } }

/-- Sorted names, as the registry lists them. -/
def sortedNames (names : List String) : List String :=
  names.mergeSort (fun a b => decide (a ≤ b))

/-- The registry's listing: both kinds' names in order. -/
def describe (r : Registry) : String :=
  "ClassRegistry \x7b inputs: " ++ Text.quotedList (sortedNames (r.inputs.map (·.1))) ++
    ", fields: " ++ Text.quotedList (sortedNames (r.fields.map (·.1))) ++ " \x7d"

end Registry

end Blockwork
