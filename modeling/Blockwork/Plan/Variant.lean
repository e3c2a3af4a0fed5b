import Blockwork.Block.Basic
import Blockwork.Messages
import Blockwork.Message.Token

/-!
# Variant plans

A block's plan is a tree of variants. Each node declares inputs, fields, an output and a
generator; its descendants inherit them and add their own. A branch offers a choice between its
children through a dropdown field named after the branch, with one option per child; a leaf has
the message that lays the block out.

**Building** a plan checks the declarations, node by node from the root:

1. the node's code template parses;
2. no input name and no field name repeats within the node (inputs are looked at first);
3. a branch has children, no two children share a name, and no own field is named like the
   branch (its dropdown takes that name);
4. no name is both an input and a field once the node's names are added to those it inherits:
   the first own input that is an own or inherited field is reported, else the first own field
   that is an inherited input.

A leaf without a message takes `<name>.MESSAGE` from the messages, else a message listing every
field and then every input visible to it (inherited first) as `%{NAME}`, separated by spaces.

**Making** a block from the plan creates every node's fields and then inputs on the block, the
names of a node merged over its parent's (a name declared again keeps its place and takes the new
object), and lays each leaf's message out into a line: text becomes label fields and, like field
parameters, waits for the next input, newline or the end of the message, where it goes on that
input's row (a newline or the end adds an unnamed dummy input for it). A parameter that names
neither an input nor a field of the leaf is refused.
-/

namespace Blockwork

/-- The inputs, fields, output and generator declared on one node of a plan. -/
structure Scope where
  name : String
  inputs : List (String × InputData)
  fields : List (String × FieldData)
  output : Option OutputPlan
  generator : Option Code.Generator

/-- A checked variant tree. -/
inductive VariantPlan where
  | leaf (scope : Scope) (message : String)
  | branch (scope : Scope) (children : List VariantPlan)

/-- The scope of a node. -/
def VariantPlan.scope : VariantPlan → Scope
  | .leaf s _ => s
  | .branch s _ => s

/-- Names visible to a node from its ancestors, in order of declaration. -/
structure Inherited where
  inputs : List String := []
  fields : List String := []

/-- Adds names not yet present, in order. -/
def addNew (known : List String) (names : List String) : List String :=
  names.foldl (fun acc n => if acc.contains n then acc else acc ++ [n]) known

/-- The first name that occurs a second time, in the order of second occurrences. -/
def firstRepeat (names : List String) : Option String :=
  go [] names
where
  go (seen : List String) : List String → Option String
    | [] => none
    | n :: rest => if seen.contains n then some n else go (n :: seen) rest

namespace Scope

/-- The scope a node declares. -/
def ofData (shape : Code.Shape) (d : VariantData) : Except PlanError Scope := do
  let generator ← match d.generator, d.toCode with
    | some g, _ => pure (some g)
    | none, some source =>
      match Code.Generator.ofSource source shape with
      | .ok g => pure (some g)
      | .error _ => throw (.template d.name)
    | none, none => pure none
  match firstRepeat (d.inputs.map (·.name)) <|> firstRepeat (d.fields.map (·.name)) with
  | some n => throw (.duplicateName d.name n)
  | none =>
    pure { name := d.name,
           inputs := d.inputs.map fun i => (i.name, i),
           fields := d.fields.map fun f => (f.name, f),
           output := d.outputPlan,
           generator := generator }

/-- Whether the scope declares a field of a name. -/
def hasField (s : Scope) (n : String) : Bool := s.fields.any (·.1 == n)

/-- Refuses a name that is both an input and a field once the scope is merged over the
inherited names. -/
def checkCollisions (s : Scope) (inh : Inherited) : Except PlanError Unit :=
  let clash := (s.inputs.find? fun (n, _) => s.hasField n || inh.fields.contains n).map (·.1)
  let clash := clash <|> (s.fields.find? fun (n, _) => inh.inputs.contains n).map (·.1)
  match clash with
  | some n => .error (.nameCollision s.name n)
  | none => .ok ()

/-- The names visible below the scope. -/
def extend (s : Scope) (inh : Inherited) : Inherited :=
  { inputs := addNew inh.inputs (s.inputs.map (·.1)),
    fields := addNew inh.fields (s.fields.map (·.1)) }

end Scope

/-- The message of a leaf without one: every field, then every input, as parameters. -/
def synthesizeMessage (names : Inherited) : String :=
  " ".intercalate ((names.fields ++ names.inputs).map fun n => "%\x7b" ++ n ++ "\x7d")

/-- The dropdown field of a branch: one option per child, shown and stored as its name. -/
def branchDropdown (branch : String) (children : List String) : FieldData :=
  { name := branch, type := "dropdown",
    args := [.arr (children.map fun c => .arr [.str c, .str c])] }

namespace VariantPlan

mutual
/-- Builds and checks the plan of a node below the inherited names. -/
def build (shape : Code.Shape) (messages : Messages) (inh : Inherited) :
    VariantData → Except PlanError VariantPlan
  | d@⟨name, _, _, _, _, _, _, message, none⟩ => do
    let scope ← Scope.ofData shape d
    scope.checkCollisions inh
    let text := match message with
      | some m => m
      | none => (messages.lookup (name ++ ".MESSAGE")).getD (synthesizeMessage (scope.extend inh))
    pure (.leaf scope text)
  | d@⟨name, _, _, _, _, _, _, _, some children⟩ => do
    let scope ← Scope.ofData shape d
    if children.isEmpty then throw (.emptyVariants name)
    let dup := firstRepeat (children.map (·.name)) <|>
      (if scope.hasField name then some name else none)
    if let some n := dup then throw (.duplicateName name n)
    let scope := { scope with
      fields := scope.fields ++ [(name, branchDropdown name (children.map (·.name)))] }
    scope.checkCollisions inh
    let built ← buildAll shape messages (scope.extend inh) children
    pure (.branch scope built)

/-- Builds the children of a branch in order. -/
def buildAll (shape : Code.Shape) (messages : Messages) (inh : Inherited) :
    List VariantData → Except PlanError (List VariantPlan)
  | [] => pure []
  | d :: ds => do
    let v ← build shape messages inh d
    let vs ← buildAll shape messages inh ds
    pure (v :: vs)
end

end VariantPlan

/-! ### Making blocks -/

/-- The merged view of a node and its ancestors on one block: input and field indices by name,
output and generator. -/
structure Proto where
  inputs : List (String × Nat) := []
  fields : List (String × Nat) := []
  output : Option OutputPlan := none
  generator : Option Code.Generator := none

/-- Creates a scope's fields, then its inputs, on the block and merges them over the parent's
view; output and generator fall back to the parent's. -/
def Proto.extend (r : Registry) (b : Block) (s : Scope) (parent : Proto) :
    Except PlanError (Block × Proto) := do
  let (b, fields) ← s.fields.foldlM (fun (b, acc) (n, d) => do
      let f ← d.make r
      let (b, i) := b.adoptField f
      pure (b, setKey acc n i)) (b, parent.fields)
  let (b, inputs) ← s.inputs.foldlM (fun (b, acc) (n, d) => do
      let input ← (r.makeInput d.kind (some d.name) d.accepts).mapError .registry
      let (b, i) := b.adoptInput input
      pure (b, setKey acc n i)) (b, parent.inputs)
  pure (b, { inputs := inputs, fields := fields,
             output := s.output <|> parent.output,
             generator := s.generator <|> parent.generator })

/-- Adds an unnamed dummy input to the block. -/
def addDummy (r : Registry) (b : Block) : Except PlanError (Block × Nat) := do
  let input ← (r.makeInput .dummy none none).mapError .registry
  pure (b.adoptInput input)

/-- Lays a leaf's message out into a line; `buffer` holds the fields waiting for an input. -/
def layoutLine (r : Registry) (p : Proto) (leaf : String) :
    Block → List Message.Token → List Nat → List LineEntry → Except PlanError (Block × List LineEntry)
  | b, [], buffer, line =>
    if buffer.isEmpty then pure (b, line)
    else do
      let (b, i) ← addDummy r b
      pure (b, line ++ [⟨i, buffer⟩])
  | b, t :: ts, buffer, line =>
    match t with
    | .text s =>
      let (b, f) := b.adoptField (Field.label s)
      layoutLine r p leaf b ts (buffer ++ [f]) line
    | .newline => do
      let (b, i) ← addDummy r b
      layoutLine r p leaf b ts [] (line ++ [⟨i, buffer⟩])
    | .param n =>
      match p.inputs.lookup n with
      | some i => layoutLine r p leaf b ts [] (line ++ [⟨i, buffer⟩])
      | none =>
        match p.fields.lookup n with
        | some f => layoutLine r p leaf b ts (buffer ++ [f]) line
        | none => throw (.unknownParameter leaf n)

namespace VariantPlan

mutual
/-- Makes a node's inputs and fields on the block and its variant tree. -/
def construct (r : Registry) (parent : Proto) (b : Block) :
    VariantPlan → Except PlanError (Block × Variant)
  | .leaf s message => do
    let (b, p) ← Proto.extend r b s parent
    let (b, line) ← layoutLine r p s.name b (Message.tokenize message) [] []
    pure (b, .leaf ⟨s.name, line, p.output, p.generator⟩)
  | .branch s children => do
    let (b, p) ← Proto.extend r b s parent
    let dropdown ← match p.fields.lookup s.name with
      | some f => pure f
      | none => throw (.unknownParameter s.name s.name)
    let (b, vs) ← constructAll r p b children
    pure (b, .branch s.name dropdown 0 vs)

/-- Makes the children of a branch in order. -/
def constructAll (r : Registry) (parent : Proto) (b : Block) :
    List VariantPlan → Except PlanError (Block × List Variant)
  | [] => pure (b, [])
  | v :: vs => do
    let (b, x) ← construct r parent b v
    let (b, xs) ← constructAll r parent b vs
    pure (b, x :: xs)
end

end VariantPlan

end Blockwork
