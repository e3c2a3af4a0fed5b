import Blockwork.Decode.Catalog
import Blockwork.Toolbox

/-!
# Decoding block states and toolboxes

A block state needs its `type`; its field and input maps and its next block may be left out.
In a map, a key given again replaces the earlier value in its place.

A toolbox entry names its kind under `kind`: `category` (a name, an optional colour and
entries), `sep`, or `block` (the rest of the object is a block state). The rest of an entry is
decoded from the value exactly as written, once its kind is known. An entry may also be an array
whose first item is its kind and whose other items are its fields in order; a `sep` entry then
has no other items.
-/

namespace Blockwork.Decode

open Json

/-- A map with string keys. -/
def treeMap {α : Type} (inner : Tree α) : Tree (List (String × α)) := fun j =>
  match j with
  | .obj es => es.foldlM (fun acc (k, v) => do pure (setKey acc k (← inner.run v))) []
  | _ => .error (.invalidType (Found.ofJson j) "a map")

/-- A block state. -/
def blockState (exact : Bool) : Nat → Tree BlockState
  | 0 => Tree.fail tooDeep
  | fuel + 1 =>
    let plug : Tree (Plug BlockState) :=
      (tree exact).record "ConnectionState"
        [{ keys := ["block"], read := fun p => do pure { p with block := ← (tree exact).option (blockState exact fuel) } },
         { keys := ["shadow"], read := fun p => do pure { p with shadow := ← (tree exact).option (blockState exact fuel) } }]
        {} id
    (tree exact).record "BlockState"
      [{ keys := ["type"], required := true, read := fun s => do pure { s with type := ← (tree exact).str } },
       { keys := ["fields"], read := fun s => do pure { s with fields := ← treeMap (tree exact).value } },
       { keys := ["inputs"], read := fun s => do pure { s with inputs := ← treeMap plug } },
       { keys := ["next"], read := fun s => do pure { s with next := ← (tree exact).option plug } }]
      { type := "" } id

/-- The rest of an entry of a kind that holds nothing: an object may hold any other entries, an
array must hold no further items. -/
def unitRest : Json → Except Mismatch ToolboxItem
  | .arr [] => .ok .separator
  | .arr xs => .error (.invalidLength xs.length "0 elements in sequence")
  | _ => .ok .separator

mutual
/-- A toolbox entry. -/
def toolboxItem {m : Type → Type} [Monad m] (src : Source m) : Nat → m ToolboxItem
  | 0 => src.lift (.error tooDeep)
  | fuel + 1 => do
    let (kind, rest) ← src.tagged "kind" "internally tagged enum ToolboxItem" ["category", "sep", "block"]
    match kind with
    | "category" => src.lift ((category fuel).on rest)
    | "block" => src.lift ((ToolboxItem.block <$> blockState true fuel).on rest)
    | _ => src.lift (unitRest rest)

/-- A category of a toolbox, from the exact value. -/
def category : Nat → Tree ToolboxItem
  | 0 => Tree.fail tooDeep
  | fuel + 1 =>
    (tree true).record "ToolboxCategory"
      [{ keys := ["name"], required := true,
         read := fun (_, c, is) => do pure (← (tree true).str, c, is) },
       { keys := ["colour"], read := fun (n, _, is) => do pure (n, ← (tree true).option (tree true).str, is) },
       { keys := ["contents"],
         read := fun (n, c, _) => do pure (n, c, ← (tree true).seq (toolboxItem (tree true) fuel)) }]
      ("", none, []) fun (n, c, is) => .category n c is
end

/-- A toolbox. -/
def toolbox {m : Type → Type} [Monad m] (src : Source m) (fuel : Nat) : m Toolbox :=
  src.record "Toolbox"
    [{ keys := ["kind"], read := fun t => do pure { t with kind := ← src.str } },
     { keys := ["contents"], read := fun t => do pure { t with contents := ← src.seq (toolboxItem src fuel) } }]
    {} id

/-- Reads a toolbox from JSON text. -/
def readToolbox (text : String) : Except ReadError Toolbox :=
  Reader.readAll (toolbox stream nesting) text

/-- Decodes a block state from a JSON value. -/
def stateOf (j : Json) : Except Mismatch BlockState := (blockState false nesting).on j

/-- Decodes one block state, or an array of them, from a JSON value. -/
def statesOf (j : Json) : Except Mismatch (List BlockState) :=
  match j with
  | .arr _ => ((tree false).seq (blockState false nesting)).on j
  | _ => (fun s => [s]) <$> stateOf j

end Blockwork.Decode
