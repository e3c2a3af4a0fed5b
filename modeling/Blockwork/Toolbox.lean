import Blockwork.Block.State
import Blockwork.Colour.Lab

/-!
# Toolboxes

A toolbox is the palette blocks are taken from: a list of categories, separators and blocks, a
category holding a list of its own. Each block of a library is listed in every category its
declaration names, once per category even when named twice: in the first top-level category of
that name, or in a new category added at the end and coloured from its name.
-/

namespace Blockwork

/-- An entry of a toolbox or category. -/
inductive ToolboxItem where
  | category (name : String) (colour : Option String) (contents : List ToolboxItem)
  | separator
  | block (state : BlockState)

/-- A toolbox: its kind and its entries. -/
structure Toolbox where
  kind : String := "categoryToolbox"
  contents : List ToolboxItem := []

/-- The names in order of first occurrence, each once. -/
def uniqueNames (names : List String) : List String :=
  names.foldl (fun acc n => if acc.contains n then acc else acc ++ [n]) []

namespace ToolboxItem

/-- Whether an entry is a category of a name. -/
def isCategory (name : String) : ToolboxItem → Bool
  | .category n _ _ => n == name
  | _ => false

/-- The block types listed directly in an entry's contents. -/
def blockTypes : ToolboxItem → List String
  | .category _ _ contents => contents.filterMap fun
    | .block s => some s.type
    | _ => none
  | _ => []

mutual
/-- The JSON form of an entry, tagged by `kind`. -/
def toJson : ToolboxItem → Json
  | .category name colour contents =>
    .obj ([("kind", .str "category"), ("name", .str name)] ++
      (match colour with
       | some c => [("colour", .str c)]
       | none => []) ++
      [("contents", .arr (listJson contents))])
  | .separator => .obj [("kind", .str "sep")]
  | .block s =>
    match s.toJson with
    | .obj entries => .obj (("kind", .str "block") :: entries)
    | j => j

def listJson : List ToolboxItem → List Json
  | [] => []
  | i :: is => toJson i :: listJson is
end

end ToolboxItem

namespace Toolbox

/-- Adds a block to the first top-level category of a name, or a new category at the end. -/
def addToCategory (t : Toolbox) (entry : BlockState) (name : String) : Toolbox :=
  if t.contents.any (·.isCategory name) then
    let rec go : List ToolboxItem → List ToolboxItem
      | [] => []
      | i :: is =>
        match i with
        | .category n c items => if n == name then .category n c (items ++ [.block entry]) :: is
          else i :: go is
        | _ => i :: go is
    { t with contents := go t.contents }
  else
    { t with contents := t.contents ++ [.category name (some (Colour.ofName name)) [.block entry]] }

/-- Lists a block in each of the named categories. -/
def addBlock (t : Toolbox) (entry : BlockState) (categories : List String) : Toolbox :=
  (uniqueNames categories).foldl (fun t n => t.addToCategory entry n) t

/-- The top-level categories. -/
def categories (t : Toolbox) : List ToolboxItem := t.contents.filter fun
  | .category .. => true
  | _ => false

/-- The first top-level category of a name. -/
def category? (t : Toolbox) (name : String) : Option ToolboxItem :=
  t.contents.find? (·.isCategory name)

/-- The JSON form of a toolbox. -/
def toJson (t : Toolbox) : Json :=
  .obj [("kind", .str t.kind), ("contents", .arr (ToolboxItem.listJson t.contents))]

end Toolbox

end Blockwork
