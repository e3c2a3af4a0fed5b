import Blockwork.Json.Read

/-!
# Sources of typed data

The library reads its data — block declarations, toolboxes, block states — from two kinds of
source: JSON text, read token by token, and JSON values already in memory. Both follow one
discipline, so every decoder is written once against `Source`, the operations a source offers:

* `str`, `u16`: a string; an unsigned 16-bit number (a larger or negative integer is an invalid
  value, a fraction an invalid type);
* `option`: null for nothing, anything else for the inner value;
* `seq`: an array of items;
* `record`: a record with named fields, from an object (unknown keys are skipped, a key given
  twice is refused, a required field that is missing is refused — the first in declaration
  order) or from an array of the fields in declaration order;
* `entries`: like `record`, from an object only, keeping the unknown entries for a nested
  record that shares the object;
* `value`: any JSON value, a repeated key keeping its first place and its last value; `content`:
  any JSON value exactly as written, repeated keys included, for decoders that try several shapes;
* `unitVariant`: one of a closed list of names, as a string or as `{"name": null}`;
* `tagged`: an object whose `tag` entry names its variant, returned with the other entries.

A failure found while reading is a `Json.Mismatch`; a text source gives it a position.
-/

namespace Blockwork.Decode

/-- A field of a record: the keys it is read from (the first is its name), whether it must be
present, and how its value is read into the record being built. -/
structure Rule (m : Type → Type) (σ : Type) where
  keys : List String
  required : Bool := false
  read : σ → m σ

/-- The name of a field. -/
def Rule.name {m : Type → Type} {σ : Type} (r : Rule m σ) : String := r.keys.headD ""

/-- How a record given as an array is described when it has too few items. -/
def recordArity (name : String) (fields : Nat) : String :=
  "struct " ++ name ++ " with " ++ toString fields ++ (if fields == 1 then " element" else " elements")

/-- The operations of a source of typed data; see the module comment. -/
structure Source (m : Type → Type) where
  lift : {α : Type} → Except Json.Mismatch α → m α
  str : m String
  u16 : m Nat
  option : {α : Type} → m α → m (Option α)
  seq : {α : Type} → m α → m (List α)
  record : {σ α : Type} → String → List (Rule m σ) → σ → (σ → α) → m α
  entries : {σ α : Type} → String → List (Rule m σ) → σ →
    (σ → List (String × Json) → Except Json.Mismatch α) → m α
  value : m Json
  content : m Json
  unitVariant : List String → m String
  tagged : String → String → List String → m (String × Json)

/-- The first rule that reads a key. -/
def ruleFor? {m : Type → Type} {σ : Type} (rules : List (Rule m σ)) (key : String) :
    Option (Rule m σ) :=
  rules.find? (·.keys.contains key)

/-- The first required rule not among the seen names. -/
def missing? {m : Type → Type} {σ : Type} (rules : List (Rule m σ)) (seen : List String) :
    Option String :=
  (rules.find? fun r => r.required && !seen.contains r.name).map (·.name)

end Blockwork.Decode
