import Blockwork.Plan.Variant

/-!
# Block plans

A block plan is a compiled block type: the checked variant tree and the block's kind,
orientation, categories, tooltip and help address. It makes new blocks of its type and lays
them out again when their variant changes.

**Making a block** runs the plan's colour steps (the last one decides the hue, 255 when the
declaration gives none), sets the tooltip, help address and inline layout (horizontal blocks are
inline), makes every variant's inputs and fields, and lays the block out from its active leaf.

**Laying out** from a leaf puts the leaf's line on the block and sets its connections by kind:

* a value block has an output exactly when the leaf has one, checked by the leaf's types, and no
  previous or next connection;
* a statement block has no output, and previous and next connections checked by the leaf's
  output types (unchecked when the leaf has no output);
* a value-and-statement block has an output like a value block, and unchecked previous and next
  connections.

A connection that stays enabled keeps the block it holds. The block takes the leaf's generator.

**Selecting a variant** finds the first branch of the name in the tree, selects the child, sets
the branch's dropdown to it and lays the block out again. Changing a field that names a branch
selects the variant its visible value names.
-/

namespace Blockwork

/-- A compiled block type. -/
structure BlockPlan where
  name : String
  kind : BlockKind
  orientation : Orientation
  categories : List String
  tooltip : String
  helpUrl : String
  variants : VariantPlan
  /-- The hues the plan's colour steps set, in order. -/
  colours : List Nat

namespace BlockPlan

/-- The hue of blocks without a declared colour. -/
def defaultColour : Nat := 255

/-- Builds the plan of a declaration with the messages it is localized with; `extraColours` are
colour steps that run after the declared colour. -/
def build (d : BlockData) (messages : Messages) (extraColours : List Nat) :
    Except PlanError BlockPlan := do
  let variants ← VariantPlan.build d.kind.shape messages {} d.rootVariant
  pure { name := d.name, kind := d.kind, orientation := d.orientation,
         categories := d.categories,
         tooltip := (messages.lookup (d.name ++ ".TOOLTIP")).getD "",
         helpUrl := (messages.lookup (d.name ++ ".HELP_URL")).getD "",
         variants := variants,
         colours := (d.colour.getD defaultColour) :: extraColours }

/-- Lays a block out from a leaf; see the module comment. -/
def configure (p : BlockPlan) (b : Block) (leaf : Leaf) : Block :=
  let b := b.layOut leaf.line
  let check := leaf.output.bind (·.types)
  let hasOutput := leaf.output.isSome
  let (output, previous, next) := match p.kind with
    | .value => (Connection.toggle b.output hasOutput check, none, none)
    | .statement =>
      (none, Connection.toggle b.previous true check, Connection.toggle b.next true check)
    | .valueAndStatement =>
      (Connection.toggle b.output hasOutput check, Connection.toggle b.previous true none,
        Connection.toggle b.next true none)
  { b with output := output, previous := previous, next := next, generator := leaf.generator }

/-- Sets up a new block of the plan's type. -/
def setUp (p : BlockPlan) (r : Registry) (b : Block) : Except PlanError Block := do
  let b := { b with colour := p.colours.foldl (fun _ c => c) b.colour,
                    tooltip := p.tooltip, helpUrl := p.helpUrl,
                    inline := p.orientation == .horizontal }
  let (b, v) ← p.variants.construct r {} b
  let b := match v.activeLeaf? with
    | some leaf => p.configure b leaf
    | none => b
  pure { b with variants := some v }

/-- Selects `choice` in the branch `branch` of a block, sets the branch's dropdown to it and lays
the block out again. -/
def selectVariant (p : BlockPlan) (b : Block) (branch choice : String) :
    Except PlanError Block := do
  let v ← match b.variants with
    | some v => pure v
    | none => throw .uninitialized
  match v.select branch choice with
  | none => throw (.unknownBranch branch)
  | some (.error e) => throw e
  | some (.ok (v, dropdown)) =>
    let set : Except FieldError Block := match b.field? dropdown with
      | some f => do
        let f ← f.setValue (.str choice)
        pure (b.modifyField dropdown fun _ => f)
      | none => pure b
    match set with
    | .error e => .error (.field e)
    | .ok b =>
      let b := match v.activeLeaf? with
        | some leaf => p.configure b leaf
        | none => b
      pure { b with variants := some v }

/-- Reacts to a changed field: when a branch has the field's name, selects the variant the
visible field of that name holds. -/
def fieldChanged (p : BlockPlan) (b : Block) (name : String) : Except PlanError Block :=
  match b.variants with
  | some v =>
    if v.hasBranch name then
      match (b.fieldNamed? name).bind b.field? with
      | some { value := .str choice, .. } => p.selectVariant b name choice
      | _ => pure b
    else pure b
  | none => pure b

/-- The state a block of this type is placed with from the toolbox: shadows in the root's inputs
and defaults of the root's fields, or `none` when there is nothing to preset. -/
def blockState? (p : BlockPlan) : Option BlockState :=
  let scope := p.variants.scope
  let inputs := scope.inputs.foldl (fun acc (n, d) =>
    match d.shadow with
    | some s => setKey acc n { shadow := some s.toState }
    | none => acc) []
  let fields := scope.fields.foldl (fun acc (n, d) =>
    match d.default with
    | some v => setKey acc n v
    | none => acc) []
  let s : BlockState := { type := p.name, fields := fields, inputs := inputs }
  if s.isBare then none else some s

/-- The state of the plan's toolbox entry. -/
def entryState (p : BlockPlan) : BlockState := p.blockState?.getD { type := p.name }

end BlockPlan

end Blockwork
