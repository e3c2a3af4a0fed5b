import Blockwork.Host

/-!
# Workspaces

A workspace owns the blocks placed in it and the connections between them. A block's id is its
position in the workspace's list; a disposed block leaves an empty slot, so ids are never reused.

Every connection is recorded on both ends: the parent's socket (an input's connection, or its
next connection) holds the child's id, and the child holds its parent's id and, in its output or
previous connection, the parent's id again. The operations keep the two ends in step, and refuse a
connection that would make a block its own ancestor, so the blocks form a forest.

Operations run in `WorkspaceM`: a failure stops the operation but keeps what it changed before
failing, the way an editor's workspace behaves.
-/

namespace Blockwork

/-- The blocks of a workspace by id; disposed blocks leave `none`. -/
structure Workspace where
  blocks : List (Option Block) := []

/-- Workspace operations: they change the workspace and may fail, keeping earlier changes. -/
abbrev WorkspaceM := ExceptT HostError (StateM Workspace)

namespace Workspace

/-- The live block of an id. -/
def get? (ws : Workspace) (id : Nat) : Option Block := (ws.blocks[id]?).join

/-- The store with slot `id` replaced. -/
def write (ws : Workspace) (id : Nat) (o : Option Block) : Workspace :=
  { blocks := ws.blocks.set id o }

/-- The store with the live block of slot `id` changed; a missing block is left alone. -/
def change (ws : Workspace) (id : Nat) (f : Block → Block) : Workspace :=
  { blocks := ws.blocks.modify id (Option.map f) }

/-- The store with `b` added in a new slot at the end. -/
def push (ws : Workspace) (b : Block) : Workspace :=
  { blocks := ws.blocks ++ [some b] }

/-- The blocks with no parent, in id order. -/
def topBlocks (ws : Workspace) : List Nat :=
  ws.blocks.filterMap fun
    | some b => if b.parent.isNone then some b.id else none
    | none => none

/-- The number of live blocks. -/
def size (ws : Workspace) : Nat := (ws.blocks.filter Option.isSome).length

/-- Whether `candidate` is a strict ancestor of `of`, following parents at most `fuel` times. -/
def isAncestor (ws : Workspace) (candidate : Nat) : Nat → Option Nat → Bool
  | 0, _ => false
  | _, none => false
  | fuel + 1, some p => p == candidate || ws.isAncestor candidate fuel ((ws.get? p).bind (·.parent))

end Workspace

/-! ### The two ends of a connection -/

namespace Block

/-- Empties the sockets that hold `child`: the next connection when it holds `child`, otherwise
every input connection holding it. -/
def release (p : Block) (child : Nat) : Block :=
  if p.next.bind (·.target) == some child then
    { p with next := p.next.map fun n => { n with target := none } }
  else
    { p with inputArena := p.inputArena.map fun i =>
        if i.target == some child then
          { i with connection := i.connection.map fun k => { k with target := none } }
        else i }

/-- Clears the block's own end of the connection to its parent. -/
def unplug (c : Block) : Block :=
  { c with parent := none,
           output := c.output.map fun k => { k with target := none },
           previous := c.previous.map fun k => { k with target := none } }

/-- Points the connection of the input at an arena index at `child`. -/
def plugInput (p : Block) (i child : Nat) : Block :=
  p.modifyInput i fun i =>
    { i with connection := i.connection.map fun k => { k with target := some child } }

/-- Points the next connection at `child`. -/
def plugNext (p : Block) (child : Nat) : Block :=
  { p with next := p.next.map fun k => { k with target := some child } }

/-- Hangs the block from `parent`, through its previous connection when it goes into a statement
socket and through its output otherwise. -/
def hangFrom (c : Block) (parent : Nat) (isStatement : Bool) : Block :=
  if isStatement then
    { c with parent := some parent, previous := c.previous.map fun k => { k with target := some parent } }
  else
    { c with parent := some parent, output := c.output.map fun k => { k with target := some parent } }

end Block

namespace WorkspaceM

/-- The live block of an id, or the failure naming it. -/
def block (id : Nat) : WorkspaceM Block := do
  match (← get).get? id with
  | some b => pure b
  | none => throw (.noSuchBlock id)

/-- Stores a block under its id. -/
def put (b : Block) : WorkspaceM Unit :=
  modify (·.write b.id (some b))

/-- Changes a live block; missing blocks are left alone. -/
def update (id : Nat) (f : Block → Block) : WorkspaceM Unit :=
  modify (·.change id f)

/-- Makes a new block of a defined type; a failure places nothing and uses no id. -/
def newBlock (host : Host) (type : String) : WorkspaceM Nat := do
  let plan ← liftExcept (host.definition type)
  let id := (← get).blocks.length
  match plan.setUp host.classes { id := id, typeName := type } with
  | .ok b => modify (·.push b); pure id
  | .error e => throw (.plan e)
where
  liftExcept {α : Type} : Except HostError α → WorkspaceM α
    | .ok a => pure a
    | .error e => throw e

/-- Unplugs a block from its parent, clearing both ends of the connection. -/
def disconnect (child : Nat) : WorkspaceM Unit := do
  let c ← block child
  match c.parent with
  | none => pure ()
  | some parent =>
    let _ ← block parent
    update parent (·.release child)
    update child Block.unplug

/-- Plugs `child` below `parent` once a connection has been checked: the block the parent's socket
held (`occupant`) and the child's old connection are unplugged first, then `plug` fills the
parent's socket and the child takes the parent. -/
def link (parent child : Nat) (occupant : Option Nat) (plug : Block → Block) (isStatement : Bool) :
    WorkspaceM Unit := do
  if let some o := occupant then disconnect o
  disconnect child
  update parent plug
  update child (·.hangFrom parent isStatement)

/-- Plugs `child` into the visible input `name` of `parent`: value inputs take the child's output
connection, statement inputs its previous connection. What the input held before, and the child's
old parent, are unplugged first. -/
def connect (parent : Nat) (name : String) (child : Nat) : WorkspaceM Unit := do
  let p ← block parent
  let c ← block child
  let some inputId := p.inputNamed? name | throw (.noSuchInput p.typeName name)
  let some input := p.input? inputId | throw (.noSuchInput p.typeName name)
  let fail {α : Type} (m : String) : WorkspaceM α := throw (.connection p.typeName c.typeName m)
  let some socket := input.connection | fail ("input '" ++ name ++ "' has no connection")
  let isStatement := input.kind == .statement
  let some plug := (if isStatement then c.previous else c.output)
    | fail "child block has no matching connection"
  if !socket.compatible plug then
    fail ("types " ++ Text.quotedOptionList plug.check ++ " are not accepted by input '" ++ name ++
      "' (" ++ Text.quotedOptionList socket.check ++ ")")
  let ws ← get
  if parent == child || ws.isAncestor child (ws.blocks.length + 1) p.parent then
    fail "connection would create a cycle"
  link parent child socket.target (·.plugInput inputId child) isStatement

/-- Chains `next` below the statement block `previous`. -/
def connectNext (previous next : Nat) : WorkspaceM Unit := do
  let p ← block previous
  let n ← block next
  let fail {α : Type} (m : String) : WorkspaceM α := throw (.connection p.typeName n.typeName m)
  let some socket := p.next | fail "block has no next connection"
  let some plug := n.previous | fail "block has no previous connection"
  if !socket.compatible plug then fail "statement types are incompatible"
  let ws ← get
  if previous == next || ws.isAncestor next (ws.blocks.length + 1) p.parent then
    fail "connection would create a cycle"
  link previous next socket.target (·.plugNext next) true

/-- Removes the blocks of `pending` and everything plugged below them, visible or not; `fuel`
bounds the number of blocks removed. -/
def removeAll : Nat → List Nat → WorkspaceM Unit
  | 0, _ => pure ()
  | _, [] => pure ()
  | fuel + 1, current :: rest => do
    let b ← block current
    modify (·.write current none)
    let below := b.arenaTargets ++ (b.next.bind (·.target)).toList
    removeAll fuel (below.reverse ++ rest)

/-- Removes a block and everything plugged below it. -/
def dispose (id : Nat) : WorkspaceM Unit := do
  disconnect id
  removeAll ((← get).blocks.length + 1) [id]

/-- Sets a visible field's value, then lets the block's type react to it. -/
def setField (host : Host) (id : Nat) (name : String) (value : Json) : WorkspaceM Unit := do
  let b ← block id
  let some fieldId := b.fieldNamed? name | throw (.noSuchField b.typeName name)
  let some f := b.field? fieldId | throw (.noSuchField b.typeName name)
  match f.setValue value with
  | .error e => throw (.field e)
  | .ok f =>
    let b := b.modifyField fieldId fun _ => f
    put b
    match host.definition b.typeName with
    | .error e => throw e
    | .ok plan =>
      match plan.fieldChanged b name with
      | .ok b => put b
      | .error e => throw (.plan e)

/-- Disposes a block, ignoring a failure. -/
def discard (id : Nat) : WorkspaceM Unit :=
  tryCatch (dispose id) fun _ => pure ()

mutual
/-- Places a block tree from its state: the block, its fields in order, then what its inputs
hold (a block rather than a shadow when both are given), then the block chained after it. A
failure disposes the blocks of the state made so far. -/
def placeAs (host : Host) (isShadow : Bool) : BlockState → WorkspaceM Nat
  | ⟨type, fields, inputs, next⟩ => do
    let id ← newBlock host type
    tryCatch
      (do
        update id fun b => { b with shadow := isShadow }
        for (name, value) in fields do
          setField host id name value
        placeInputs host id inputs
        placeNext host id next
        pure id)
      (fun e => do discard id; throw e)

/-- Places and plugs in what each input holds, in order. -/
def placeInputs (host : Host) (id : Nat) : List (String × Plug BlockState) → WorkspaceM Unit
  | [] => pure ()
  | (name, p) :: rest => do
    match p with
    | ⟨some s, _⟩ => plugInto host id name false s
    | ⟨none, some s⟩ => plugInto host id name true s
    | ⟨none, none⟩ => pure ()
    placeInputs host id rest

/-- Places one child and plugs it into an input; a refused connection disposes the child. -/
def plugInto (host : Host) (id : Nat) (name : String) (isShadow : Bool) (s : BlockState) :
    WorkspaceM Unit := do
  let child ← placeAs host isShadow s
  tryCatch (connect id name child) fun e => do discard child; throw e

/-- Places the block chained after another; only a real block is placed. -/
def placeNext (host : Host) (id : Nat) : Option (Plug BlockState) → WorkspaceM Unit
  | some ⟨some s, _⟩ => do
    let child ← placeAs host false s
    tryCatch (connectNext id child) fun e => do discard child; throw e
  | _ => pure ()
end

/-- Places a block tree from its state; see `placeAs`. -/
def place (host : Host) (s : BlockState) : WorkspaceM Nat := placeAs host false s

end WorkspaceM

end Blockwork
