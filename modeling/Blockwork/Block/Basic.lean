import Blockwork.Plan.Data

/-!
# Blocks

A block is one instance of a block type in a workspace. Every input and field ever made for it
lives in its two arenas, addressed by index; the block's visible **line** is a list of input
indices, each input carrying the row of field indices shown before it. A block with variants
makes the inputs and fields of all its variants up front, and switching variants only rewrites
the line, so what was plugged into a hidden input stays there.

The **variant tree** of a block mirrors its plan: a branch knows the dropdown field that chooses
between its children and which child is selected; a leaf knows its line, its output and its
generator. Following the selected child of every branch leads to the active leaf, which decides
the block's layout, connections and code.
-/

namespace Blockwork

/-- One input of a leaf's line and the fields shown before it. -/
structure LineEntry where
  input : Nat
  fields : List Nat

/-- A concrete variant: its line, output and generator. -/
structure Leaf where
  name : String
  line : List LineEntry
  output : Option OutputPlan
  generator : Option Code.Generator

/-- The variant tree of a block. -/
inductive Variant where
  | leaf (l : Leaf)
  /-- A choice between `children` through the field `dropdown`; `current` is the index of the
  selected child. -/
  | branch (name : String) (dropdown : Nat) (current : Nat) (children : List Variant)

namespace Variant

/-- The name of a variant. -/
def name : Variant → String
  | .leaf l => l.name
  | .branch n _ _ _ => n

/-- The leaf reached by following the selected child of every branch. -/
def activeLeaf? : Variant → Option Leaf
  | .leaf l => some l
  | .branch _ _ current children => activeIn current children
where
  /-- The active leaf of the child at an index. -/
  activeIn : Nat → List Variant → Option Leaf
    | _, [] => none
    | 0, v :: _ => activeLeaf? v
    | i + 1, _ :: vs => activeIn i vs

mutual
/-- Whether a branch of a name occurs in the tree, selected or not. -/
def hasBranch (n : String) : Variant → Bool
  | .leaf _ => false
  | .branch m _ _ children => m == n || anyHasBranch n children

def anyHasBranch (n : String) : List Variant → Bool
  | [] => false
  | v :: vs => hasBranch n v || anyHasBranch n vs
end

/-- The index of the child of a name. -/
def indexOfName (n : String) (children : List Variant) : Option Nat :=
  children.findIdx? (·.name == n)

mutual
/-- Selects `choice` in the first branch named `n` (searched depth-first, the tree's root
first): the new tree and the branch's dropdown field, or `none` when no branch has that name. -/
def select (n choice : String) : Variant → Option (Except PlanError (Variant × Nat))
  | .leaf _ => none
  | .branch m dropdown current children =>
    if m == n then
      some (match indexOfName choice children with
        | some i => .ok (.branch m dropdown i children, dropdown)
        | none => .error (.unknownVariant n choice))
    else
      (selectAmong n choice children).map fun r =>
        r.map fun (cs, d) => (.branch m dropdown current cs, d)

/-- `select` over the children in order: the first child with such a branch decides. -/
def selectAmong (n choice : String) : List Variant → Option (Except PlanError (List Variant × Nat))
  | [] => none
  | v :: vs =>
    match select n choice v with
    | some r => some (r.map fun (v', d) => (v' :: vs, d))
    | none => (selectAmong n choice vs).map fun r => r.map fun (vs', d) => (v :: vs', d)
end

end Variant

/-- One block of a workspace. -/
structure Block where
  id : Nat
  typeName : String
  colour : Nat := 0
  tooltip : String := ""
  helpUrl : String := ""
  inline : Bool := false
  shadow : Bool := false
  output : Option Connection := none
  previous : Option Connection := none
  next : Option Connection := none
  parent : Option Nat := none
  variants : Option Variant := none
  generator : Option Code.Generator := none
  inputArena : Array Input := #[]
  fieldArena : Array Field := #[]
  line : List Nat := []

namespace Block

/-- Adds an input to the arena, off the line; returns its index. -/
def adoptInput (b : Block) (i : Input) : Block × Nat :=
  ({ b with inputArena := b.inputArena.push i }, b.inputArena.size)

/-- Adds a field to the arena, attached to no input; returns its index. -/
def adoptField (b : Block) (f : Field) : Block × Nat :=
  ({ b with fieldArena := b.fieldArena.push f }, b.fieldArena.size)

/-- The input at an arena index. -/
def input? (b : Block) (i : Nat) : Option Input := b.inputArena[i]?

/-- The field at an arena index. -/
def field? (b : Block) (i : Nat) : Option Field := b.fieldArena[i]?

/-- The block as a generator written as a function reads it. -/
def view (b : Block) : Code.BlockView := ⟨b.id, b.typeName, b.line, b.inputArena, b.fieldArena⟩

/-- The inputs on the line, in order, with their arena indices. -/
def visibleInputs (b : Block) : List (Nat × Input) :=
  b.line.filterMap fun i => (b.input? i).map (i, ·)

/-- The fields on the line, in display order, with their arena indices. -/
def visibleFields (b : Block) : List (Nat × Field) :=
  b.visibleInputs.flatMap fun (_, i) => i.fieldRow.filterMap fun f => (b.field? f).map (f, ·)

/-- The visible input of a name. -/
def inputNamed? (b : Block) (name : String) : Option Nat :=
  (b.visibleInputs.find? (·.2.name == some name)).map (·.1)

/-- The visible field of a name. -/
def fieldNamed? (b : Block) (name : String) : Option Nat :=
  (b.visibleFields.find? (·.2.name == some name)).map (·.1)

/-- Changes the input at an arena index. -/
def modifyInput (b : Block) (i : Nat) (f : Input → Input) : Block :=
  { b with inputArena := b.inputArena.modify i f }

/-- Changes the field at an arena index. -/
def modifyField (b : Block) (i : Nat) (f : Field → Field) : Block :=
  { b with fieldArena := b.fieldArena.modify i f }

/-- The block plugged into the visible input of a name. -/
def targetOf? (b : Block) (name : String) : Option Nat :=
  (b.inputNamed? name).bind fun i => (b.input? i).bind Input.target

/-- The blocks plugged into any input of the arena, visible or not, in arena order. -/
def arenaTargets (b : Block) : List Nat := b.inputArena.toList.filterMap Input.target

/-- Lays out a leaf's line: the line is cleared, then each entry's input gets its field row and
goes on the line. -/
def layOut (b : Block) (line : List LineEntry) : Block :=
  line.foldl (fun b e =>
    { (b.modifyInput e.input fun i => { i with fieldRow := e.fields }) with line := b.line ++ [e.input] })
    { b with line := [] }

end Block

end Blockwork
