import Blockwork.Json.Write

/-!
# Block states

A block state is the saved form of a block and the blocks connected below it: its type, the
values of its fields, what is plugged into its inputs (a block, a shadow block, or both) and the
block chained after it. Toolbox entries carry one so that a block taken from the palette comes
with shadow blocks and preset fields; placing blocks into a workspace starts from one.

In the JSON form, empty field and input maps and a missing next block are left out.
-/

namespace Blockwork

/-- What is plugged into a connection: a real block, a shadow block, or both. -/
structure Plug (α : Type) where
  block : Option α := none
  shadow : Option α := none

/-- The saved state of a block tree. -/
structure BlockState where
  type : String
  fields : List (String × Json) := []
  inputs : List (String × Plug BlockState) := []
  next : Option (Plug BlockState) := none

namespace BlockState

/-- Whether a state presets nothing. -/
def isBare (s : BlockState) : Bool := s.fields.isEmpty && s.inputs.isEmpty && s.next.isNone

mutual
/-- The JSON form of a block state. -/
def toJson : BlockState → Json
  | ⟨type, fields, inputs, next⟩ =>
    .obj ([("type", .str type)] ++
      (if fields.isEmpty then [] else [("fields", .obj fields)]) ++
      (if inputs.isEmpty then [] else [("inputs", .obj (inputsJson inputs))]) ++
      nextJson next)

def inputsJson : List (String × Plug BlockState) → List (String × Json)
  | [] => []
  | (name, p) :: rest => (name, plugJson p) :: inputsJson rest

def nextJson : Option (Plug BlockState) → List (String × Json)
  | none => []
  | some p => [("next", plugJson p)]

def plugJson : Plug BlockState → Json
  | ⟨b, s⟩ => .obj (optionEntry "block" b ++ optionEntry "shadow" s)

def optionEntry (key : String) : Option BlockState → List (String × Json)
  | none => []
  | some s => [(key, toJson s)]
end

end BlockState

end Blockwork
