import Blockwork.Decode.Tree
import Blockwork.Decode.Stream
import Blockwork.Plan.Data

/-!
# Decoding block declarations

The decoders of block libraries and the declarations in them, written once for both kinds of
source. Every list and optional field may be left out; required are the names of blocks,
variants, inputs, fields and shadow fields, a field's `type`, a shadow's `block` and a library's
`blocks`. A variant's code template is read from `to_code` or `toCode` (giving both is giving
it twice).

Two fields accept several shapes and are decoded from the value exactly as written:

* an input's `kind` is one of `value`, `statement`, `dummy`, `end_row` (as a string or as
  `{"name": null}`), and any other string names a custom kind;
* an output is null, a type, a list of types, or `{"type": ...}` or `{"types": ...}` around any of
  these (other keys ignored, the key itself not repeated).

Nested variants and shadows are read with a fuel that bounds their depth.
-/

namespace Blockwork.Decode

open Json

/-- The text of a value that fits none of the shapes of a choice. -/
def noShape (name : String) : Mismatch :=
  .custom ("data did not match any variant of untagged enum " ++ name)

/-- The failure of decoding nested deeper than the fuel allows. -/
def tooDeep : Mismatch := .custom "recursion limit exceeded"

/-- The kind of an input; see the module comment. -/
def inputKindOf (j : Json) : Except Mismatch InputKind :=
  match ((tree true).unitVariant ["value", "statement", "dummy", "end_row"]).on j with
  | .ok "value" => .ok .value
  | .ok "statement" => .ok .statement
  | .ok "dummy" => .ok .dummy
  | .ok _ => .ok .endRow
  | .error _ =>
    match j with
    | .str s => .ok (.custom s)
    | _ => .error (noShape "InputKind")

mutual
/-- An output declaration; see the module comment. -/
def outputOf : Json → Option OutputData
  | .null => some .any
  | .str s => some (.type s)
  | .arr xs => (xs.mapM Json.str?).map .types
  | .obj es =>
    (wrapped "type" es none).map .typeObject <|> (wrapped "types" es none).map .typesObject
  | _ => none

/-- The declaration under `key` of an object, which must occur once. -/
def wrapped (key : String) : List (String × Json) → Option OutputData → Option OutputData
  | [], found => found
  | (k, v) :: rest, found =>
    if k == key then
      if found.isSome then none
      else
        match outputOf v with
        | some o => wrapped key rest (some o)
        | none => none
    else wrapped key rest found
end

section

variable {m : Type → Type} [Monad m] (src : Source m)

/-- A field declaration. -/
def fieldData : m FieldData :=
  src.record "FieldPlanData"
    [{ keys := ["name"], required := true, read := fun d => do pure { d with name := ← src.str } },
     { keys := ["type"], required := true, read := fun d => do pure { d with type := ← src.str } },
     { keys := ["args"], read := fun d => do pure { d with args := ← src.seq src.value } },
     { keys := ["default"], read := fun d => do pure { d with default := ← src.option src.value } }]
    { name := "", type := "" } id

/-- A field value preset on a shadow. -/
def shadowField : m (String × Json) :=
  src.record "ShadowFieldValue"
    [{ keys := ["name"], required := true, read := fun (_, v) => do pure (← src.str, v) },
     { keys := ["default"], read := fun (n, _) => do pure (n, ← src.value) }]
    ("", .null) id

end

/-- A shadow block; the shadows of its inputs share their objects with their input names. -/
def shadowData {m : Type → Type} [Monad m] (src : Source m) : Nat → m ShadowData
  | 0 => src.lift (.error tooDeep)
  | fuel + 1 =>
    src.record "ShadowBlockData"
      [{ keys := ["block"], required := true, read := fun d => do pure { d with block := ← src.str } },
       { keys := ["inputs"],
         read := fun d => do pure { d with inputs := ← src.seq (shadowInput src fuel) } },
       { keys := ["fields"], read := fun d => do pure { d with fields := ← src.seq (shadowField src) } }]
      { block := "" } id
where
  /-- A shadow under an input name: the name, and the shadow's own fields in the same object. -/
  shadowInput {m : Type → Type} [Monad m] (src : Source m) (fuel : Nat) : m (String × ShadowData) :=
    src.entries "ShadowInputValue"
      [{ keys := ["name"], required := true, read := fun _ => src.str }] ""
      (fun name rest => do
        let s ← (shadowData (tree true) fuel).on (.obj rest)
        pure (name, s))

/-- An input declaration. -/
def inputData {m : Type → Type} [Monad m] (src : Source m) (fuel : Nat) : m InputData :=
  src.record "InputPlanData"
    [{ keys := ["name"], required := true, read := fun d => do pure { d with name := ← src.str } },
     { keys := ["kind"],
       read := fun d => do pure { d with kind := ← src.lift (inputKindOf (← src.content)) } },
     { keys := ["shadow"],
       read := fun d => do pure { d with shadow := ← src.option (shadowData src fuel) } },
     { keys := ["accepts"], read := fun d => do pure { d with accepts := ← src.option (src.seq src.str) } }]
    { name := "" } id

/-- An output declaration read as an optional field. -/
def outputField {m : Type → Type} [Monad m] (src : Source m) : m (Option OutputData) :=
  src.option do
    match outputOf (← src.content) with
    | some o => pure o
    | none => src.lift (.error (noShape "OutputPlanData"))

/-- A variant declaration. -/
def variantData {m : Type → Type} [Monad m] (src : Source m) : Nat → m VariantData
  | 0 => src.lift (.error tooDeep)
  | fuel + 1 =>
    src.record "BlockVariantPlanData"
      [{ keys := ["name"], required := true, read := fun d => do pure { d with name := ← src.str } },
       { keys := ["inputs"], read := fun d => do pure { d with inputs := ← src.seq (inputData src fuel) } },
       { keys := ["fields"], read := fun d => do pure { d with fields := ← src.seq (fieldData src) } },
       { keys := ["output"], read := fun d => do pure { d with output := ← outputField src } },
       { keys := ["outputs"], read := fun d => do pure { d with outputs := ← src.option (src.seq src.str) } },
       { keys := ["to_code", "toCode"], read := fun d => do pure { d with toCode := ← src.option src.str } },
       { keys := ["message"], read := fun d => do pure { d with message := ← src.option src.str } },
       { keys := ["variants"],
         read := fun d => do pure { d with variants := ← src.option (src.seq (variantData src fuel)) } }]
      { name := "" } id

/-- A block kind. -/
def blockKind {m : Type → Type} [Monad m] (src : Source m) : m BlockKind := do
  match ← src.unitVariant ["value", "statement", "value_and_statement"] with
  | "statement" => pure .statement
  | "value_and_statement" => pure .valueAndStatement
  | _ => pure .value

/-- A block orientation. -/
def orientation {m : Type → Type} [Monad m] (src : Source m) : m Orientation := do
  match ← src.unitVariant ["horizontal", "vertical"] with
  | "vertical" => pure .vertical
  | _ => pure .horizontal

/-- A block declaration. -/
def blockData {m : Type → Type} [Monad m] (src : Source m) (fuel : Nat) : m BlockData :=
  src.record "BlockPlanData"
    [{ keys := ["name"], required := true, read := fun d => do pure { d with name := ← src.str } },
     { keys := ["kind"], read := fun d => do pure { d with kind := ← blockKind src } },
     { keys := ["orientation"], read := fun d => do pure { d with orientation := ← orientation src } },
     { keys := ["categories"], read := fun d => do pure { d with categories := ← src.seq src.str } },
     { keys := ["inputs"], read := fun d => do pure { d with inputs := ← src.seq (inputData src fuel) } },
     { keys := ["fields"], read := fun d => do pure { d with fields := ← src.seq (fieldData src) } },
     { keys := ["output"], read := fun d => do pure { d with output := ← outputField src } },
     { keys := ["outputs"], read := fun d => do pure { d with outputs := ← src.option (src.seq src.str) } },
     { keys := ["to_code", "toCode"], read := fun d => do pure { d with toCode := ← src.option src.str } },
     { keys := ["variants"],
       read := fun d => do pure { d with variants := ← src.option (src.seq (variantData src fuel)) } },
     { keys := ["colour"], read := fun d => do pure { d with colour := ← src.option src.u16 } },
     { keys := ["message"], read := fun d => do pure { d with message := ← src.option src.str } }]
    { name := "" } id

/-- A block library. -/
def libraryData {m : Type → Type} [Monad m] (src : Source m) (fuel : Nat) : m LibraryData :=
  src.record "BlockLibrary"
    [{ keys := ["name"], read := fun d => do pure { d with name := ← src.str } },
     { keys := ["messages"], read := fun d => do pure { d with messages := ← src.value } },
     { keys := ["blocks"], required := true,
       read := fun d => do pure { d with blocks := ← src.seq (blockData src fuel) } }]
    { blocks := [] } id

/-- How deep declarations may nest: as deep as JSON text may. -/
def nesting : Nat := 130

/-- Reads a block library from JSON text. -/
def readLibrary (text : String) : Except ReadError LibraryData :=
  Reader.readAll (libraryData stream nesting) text

/-- Decodes a block declaration from a JSON value. -/
def blockOf (j : Json) : Except Mismatch BlockData := (blockData (tree false) nesting).on j

/-- Decodes an output declaration from a JSON value. -/
def outputOfValue (j : Json) : Except Mismatch OutputData :=
  match outputOf j with
  | some o => .ok o
  | none => .error (noShape "OutputPlanData")

end Blockwork.Decode
