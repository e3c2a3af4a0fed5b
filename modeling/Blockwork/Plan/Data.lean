import Blockwork.Plan.Error
import Blockwork.Block.State
import Blockwork.Code.Generator

/-!
# Block declarations

The declarative description of block types, as a block library writes it:

* a **field** has a name, a registered type, constructor arguments and an optional default;
* an **input** has a name, a kind, an optional shadow block and optionally the types it accepts;
* an **output** is declared as null (any type), one type, a list of types, or one of these
  wrapped as `{"type": ...}` or `{"types": ...}`;
* a **variant** has inputs, fields, an output, a code template, a message and, when it is a
  branch, child variants;
* a **block** is the root variant plus its kind, orientation, toolbox categories and colour.

`OutputData.normalize` reduces every output declaration to the list of accepted types, or to
`none` for any type.
-/

namespace Blockwork

/-- Declares a field of a block. -/
structure FieldData where
  name : String
  type : String
  args : List Json := []
  default : Option Json := none

/-- A shadow block preset into an input: its type, shadows of its own inputs, and field
values. -/
structure ShadowData where
  block : String
  inputs : List (String × ShadowData) := []
  fields : List (String × Json) := []

/-- Declares an input of a block. -/
structure InputData where
  name : String
  kind : InputKind := .value
  shadow : Option ShadowData := none
  accepts : Option (List String) := none

/-- The ways of declaring what a block produces. -/
inductive OutputData where
  | any
  | type (name : String)
  | types (names : List String)
  | typeObject (inner : OutputData)
  | typesObject (inner : OutputData)

/-- The types an output declaration accepts; `none` accepts any type. -/
def OutputData.normalize : OutputData → Option (List String)
  | .any => none
  | .type name => some [name]
  | .types names => some names
  | .typeObject inner => inner.normalize
  | .typesObject inner => inner.normalize

/-- The canonical form of an output: the accepted types, `none` for any type. -/
structure OutputPlan where
  types : Option (List String)
  deriving BEq

/-- Declares one variant of a block, a branch when it lists child variants. -/
structure VariantData where
  name : String
  inputs : List InputData := []
  fields : List FieldData := []
  output : Option OutputData := none
  outputs : Option (List String) := none
  toCode : Option String := none
  generator : Option Code.Generator := none
  message : Option String := none
  variants : Option (List VariantData) := none

/-- The declared output of a variant: `output` when given, else `outputs`. -/
def VariantData.outputPlan (d : VariantData) : Option OutputPlan :=
  match d.output, d.outputs with
  | some o, _ => some ⟨o.normalize⟩
  | none, some types => some ⟨some types⟩
  | none, none => none

/-- What kind of language construct a block is. -/
inductive BlockKind where
  | value
  | statement
  | valueAndStatement
  deriving BEq, DecidableEq, Repr

/-- The name of a block kind. -/
def BlockKind.name : BlockKind → String
  | .value => "value"
  | .statement => "statement"
  | .valueAndStatement => "value_and_statement"

/-- The shape templates of a kind produce: statements for statement blocks, expressions
otherwise. -/
def BlockKind.shape : BlockKind → Code.Shape
  | .statement => .statement
  | _ => .value

/-- The initial layout of a block's inputs. -/
inductive Orientation where
  | horizontal
  | vertical
  deriving BEq, DecidableEq, Repr

/-- The name of an orientation. -/
def Orientation.name : Orientation → String
  | .horizontal => "horizontal"
  | .vertical => "vertical"

/-- Declares a block type. -/
structure BlockData where
  name : String
  kind : BlockKind := .value
  orientation : Orientation := .horizontal
  categories : List String := []
  inputs : List InputData := []
  fields : List FieldData := []
  output : Option OutputData := none
  outputs : Option (List String) := none
  toCode : Option String := none
  generator : Option Code.Generator := none
  variants : Option (List VariantData) := none
  colour : Option Nat := none
  message : Option String := none

/-- The root of a block's variant tree: a leaf when no variants are declared (an empty list
counts as none), otherwise a branch named after the block. -/
def BlockData.rootVariant (d : BlockData) : VariantData where
  name := d.name
  inputs := d.inputs
  fields := d.fields
  output := d.output
  outputs := d.outputs
  toCode := d.toCode
  generator := d.generator
  message := d.message
  variants := match d.variants with
    | some [] => none
    | vs => vs

/-- A named set of block declarations and the messages they are localized with. -/
structure LibraryData where
  name : String := ""
  messages : Json := .null
  blocks : List BlockData

/-! ### Making fields and shadow states -/

/-- Makes the declared field through the registry: the type as given, else under its
`field_`-prefixed name (a miss names the type as given), then the default if any. -/
def FieldData.make (r : Registry) (d : FieldData) : Except PlanError Field := do
  let maker ← match r.field? d.type with
    | .ok m => pure m
    | .error e =>
      match r.field? ("field_" ++ d.type) with
      | .ok m => pure m
      | .error _ => throw (.registry e)
  let f ← (maker.make d.args).mapError .field
  let f ← match d.default with
    | some v => (f.setValue v).mapError .field
    | none => pure f
  pure { f with name := some d.name }

/-- Sets a key of an ordered map: a new key goes last, a present key keeps its place. -/
def setKey {α : Type} (entries : List (String × α)) (key : String) (v : α) : List (String × α) :=
  if entries.any (·.1 == key) then entries.map fun (k, w) => if k == key then (k, v) else (k, w)
  else entries ++ [(key, v)]

mutual
/-- The block state that places a shadow: its fields, then its inputs' shadows. -/
def ShadowData.toState : ShadowData → BlockState
  | ⟨block, inputs, fields⟩ =>
    { type := block,
      fields := fields.foldl (fun acc (k, v) => setKey acc k v) [],
      inputs := shadowInputs [] inputs }

def shadowInputs (acc : List (String × Plug BlockState)) :
    List (String × ShadowData) → List (String × Plug BlockState)
  | [] => acc
  | (name, s) :: rest => shadowInputs (setKey acc name { shadow := some s.toState }) rest
end

end Blockwork
