import Blockwork.Workspace

/-!
# Generating code

Code is generated block by block, through the generator of each block's type.

* **A block**: statement code gets a final newline when it is not empty and lacks one; a
  statement or a value with a block chained after it is followed by the code of the chain (a value
  then ends in `;` and a newline, like every value in a chain).
* **A template** is rendered against the block's names: every named input on the line is bound to
  the code of the block plugged into it (statement children indented; the empty text when nothing
  is plugged in), and every named field on the input's row to its value, a field shadowing an input
  of the same name. Children are generated before the template renders, in the order they are
  bound.
* **A value operand** is the child's code, parenthesized when the child's precedence binds looser
  than the operator around it.
* **A statement body** is the chain plugged into a statement input, each non-empty line prefixed
  by the indent.
* **A function** of the host's is given the block and the settings, and its requests for the code
  of the block's inputs are answered as value operands and statement bodies are.
* **A workspace** is its top blocks in id order: values end in `;` and a newline, statements in a
  newline. A block that fails becomes comments holding the failure, one `// ` line per line of its
  text, unless the generation is strict.

Every walk goes from a block to blocks plugged below it; a workspace's blocks form a forest, so
the walks are bounded by the number of blocks.
-/

namespace Blockwork.Code

/-- Why code could not be generated. -/
inductive GenerateError where
  | missingGenerator (type : String)
  | noFunctionAttached (type : String)
  | noSuchBlock (id : Nat)
  | render (message : String)
  | custom (message : String)
  /-- The blocks nest deeper than the workspace has blocks: they do not form a forest. -/
  | tooDeep

/-- The text of a generation failure. -/
def GenerateError.message : GenerateError → String
  | .missingGenerator t => "No code generator registered for block type '" ++ t ++ "'"
  | .noFunctionAttached t => "Block '" ++ t ++ "' has no code generation function attached"
  | .noSuchBlock id => "Block " ++ toString id ++ " does not exist in this workspace"
  | .render m => "Failed to render template: " ++ m
  | .custom m => m
  | .tooDeep => "Blocks nest deeper than the workspace has blocks"

/-- The lines of a text: a line ends at a newline or at a carriage return followed by a newline,
and the last line needs no ending, so the empty text has no lines and a final newline starts no
empty line. -/
def linesOf : List Char → List (List Char)
  | [] => []
  | '\n' :: r => [] :: linesOf r
  | '\r' :: '\n' :: r => [] :: linesOf r
  | c :: r =>
    match linesOf r with
    | [] => [[c]]
    | l :: ls => (c :: l) :: ls

/-- The lines of a text; see `linesOf`. -/
def lines (s : String) : List String :=
  (linesOf s.toList).map String.ofList

/-- Prefixes every non-empty line with the indent; every line ends in a newline. -/
def indentLines (indent code : String) : String :=
  String.join ((lines code).map fun l => if l.isEmpty then "\n" else indent ++ l ++ "\n")

/-- A field value as code: text as it is, nothing for null, other values as compact JSON. -/
def valueText : Json → String
  | .str s => s
  | .null => ""
  | v => v.compact

/-- What a template is rendered against: for each bound name, the code of a child block or a
value. -/
inductive Binding where
  | child (id : Nat) (statement : Bool)
  | value (v : Json)

/-- The names a block's template sees; see the module comment. -/
def bindings (b : Block) : List (String × Binding) :=
  b.visibleInputs.foldl (fun acc (_, i) =>
    let acc := match i.name with
      | some n =>
        if n.isEmpty then acc
        else setKey acc n (match i.target with
          | some c => .child c (i.kind == .statement)
          | none => .value (.str ""))
      | none => acc
    i.fieldRow.foldl (fun acc f =>
      match b.field? f with
      | some { name := some n, value := v, .. } => if n.isEmpty then acc else setKey acc n (.value v)
      | _ => acc) acc) []

/-- Runs the steps of a generator written as a function, answering each request with `value` or
`statement`; a failed answer ends the run with its failure. -/
def Steps.run (value : String → Order → Except GenerateError String)
    (statement : String → Except GenerateError String) : Steps → Except GenerateError Fragment
  | .done code => pure code
  | .fail message => throw (.custom message)
  | .value input outer next => do
    let code ← value input outer
    (next code).run value statement
  | .statement input next => do
    let code ← statement input
    (next code).run value statement

/-- Everything a generation pass reads. -/
structure Pass where
  host : Host
  workspace : Workspace
  config : Config

namespace Pass

mutual
/-- The code of a block and the chain below it. -/
def blockCode (g : Pass) : Nat → Nat → Except GenerateError Fragment
  | 0, _ => .error .tooDeep
  | fuel + 1, id => do
    let some b := g.workspace.get? id | throw (.noSuchBlock id)
    let some tg := g.host.generator? b.typeName | throw (.missingGenerator b.typeName)
    let code ← match tg with
      | .direct gen => run g fuel b gen
      | .attached =>
        match b.generator with
        | some gen => run g fuel b gen
        | none => throw (.noFunctionAttached b.typeName)
    let next := b.next.bind (·.target)
    match code, next with
    | .statement c, next =>
      let c := if !c.isEmpty && !c.endsWith "\n" then c ++ "\n" else c
      match next with
      | some n => do
        let rest ← chainCode g fuel n
        pure (.statement (c ++ rest))
      | none => pure (.statement c)
    | .value c _, some n => do
      let rest ← chainCode g fuel n
      pure (.statement (c ++ ";\n" ++ rest))
    | v, none => pure v

/-- The code of a chained block as statements. -/
def chainCode (g : Pass) : Nat → Nat → Except GenerateError String
  | 0, _ => .error .tooDeep
  | fuel + 1, id => do
    match ← blockCode g fuel id with
    | .value c _ => pure (c ++ ";\n")
    | .statement c => pure c

/-- The code of a child block as text, indented when it sits in a statement input. -/
def childCode (g : Pass) : Nat → Nat → Bool → Except GenerateError String
  | 0, _, _ => .error .tooDeep
  | fuel + 1, id, statement => do
    let code := (← blockCode g fuel id).text
    pure (if statement then indentLines g.config.indent code else code)

/-- The code plugged into a visible value input, parenthesized as `outer` needs. -/
def valueCode (g : Pass) : Nat → Block → String → Order → Except GenerateError String
  | 0, _, _, _ => .error .tooDeep
  | fuel + 1, b, name, outer =>
    match b.targetOf? name with
    | none => pure ""
    | some c => do
      match ← blockCode g fuel c with
      | .value code inner => pure (if outer.needsParentheses inner then "(" ++ code ++ ")" else code)
      | .statement code => pure code

/-- The indented chain plugged into a visible statement input. -/
def statementCode (g : Pass) : Nat → Block → String → Except GenerateError String
  | 0, _, _ => .error .tooDeep
  | fuel + 1, b, name =>
    match b.targetOf? name with
    | none => pure ""
    | some c => childCode g fuel c true

/-- The template data of a block: each binding, children generated in order. -/
def templateData (g : Pass) : Nat → List (String × Binding) → Except GenerateError (List (String × Json))
  | 0, _ => .error .tooDeep
  | fuel + 1, bs => bs.mapM fun (n, bnd) =>
    match bnd with
    | .child id statement => do pure (n, Json.str (← childCode g fuel id statement))
    | .value v => pure (n, v)

/-- Runs a generator on a block. -/
def run (g : Pass) : Nat → Block → Generator → Except GenerateError Fragment
  | 0, _, _ => .error .tooDeep
  | fuel + 1, b, gen =>
    match gen with
    | .template t shape => do
      let data ← templateData g fuel (bindings b)
      match t.render (.obj data) with
      | .ok code => pure (match shape with
        | .value => .value code .atomic
        | .statement => .statement code)
      | .error e => throw (.render e.message)
    | .binary symbol order left right => do
      let a ← valueCode g fuel b left order
      let c ← valueCode g fuel b right order
      pure (.value (a ++ " " ++ symbol ++ " " ++ c) order)
    | .unary opening order input => do
      let a ← valueCode g fuel b input order
      pure (.value (opening ++ a) order)
    | .call name args => do
      let codes ← args.mapM fun a => valueCode g fuel b a .comma
      pure (.value (name ++ "(" ++ ", ".intercalate codes ++ ")") .functionCall)
    | .literal text order => pure (.value text order)
    | .field name order =>
      let v := ((b.fieldNamed? name).bind b.field?).map (·.value)
      pure (.value (valueText (v.getD .null)) order)
    | .body input header => do
      let inner ← statementCode g fuel b input
      pure (.statement (header ++ " \x7b\n" ++ inner ++ "\x7d"))
    | .statement text => pure (.statement text)
    | .fail text => throw (.custom text)
    | .settings =>
      pure (.value (toString g.workspace.size ++ "|" ++ g.config.indent ++ "|" ++
        (if g.config.commentErrors then "true" else "false")) .atomic)
    | .function steps =>
      (steps b.view g.config).run (fun input outer => valueCode g fuel b input outer)
        (fun input => statementCode g fuel b input)
end

/-- Enough fuel for any walk over the workspace's blocks. -/
def fuel (g : Pass) : Nat := 8 * (g.workspace.blocks.length + 2)

/-- The code of one block and the chain below it. -/
def blockToCode (g : Pass) (id : Nat) : Except GenerateError Fragment := blockCode g g.fuel id

/-- The code of the whole workspace. -/
def workspaceCode (g : Pass) : Except GenerateError String :=
  g.workspace.topBlocks.foldlM (fun out id =>
    match g.blockToCode id with
    | .ok (.value c _) => .ok (out ++ c ++ ";\n")
    | .ok (.statement c) => .ok (out ++ c ++ (if c.endsWith "\n" then "" else "\n"))
    | .error e =>
      if g.config.commentErrors then
        .ok (out ++ String.join ((lines e.message).map fun l => "// " ++ l ++ "\n"))
      else .error e) ""

end Pass

end Blockwork.Code
