import Blockwork.Template.Parse
import Blockwork.Json.Write

/-!
# Code templates: rendering

`CodeTemplate.render` evaluates a template against a JSON object, the template's data.

**Scopes.** Rendering keeps a stack of scopes, innermost first. The data is the outermost
scope; `{{#each}}` and `{{#with}}` open one for the value they visit. A path is looked up in the
innermost scope; `../` moves one scope out per step (past the outermost scope it stays in the
innermost one), `@root.` starts from the data, and a first key that names a block parameter
(`as |x|`) starts from that parameter. Keys index objects; an array takes only keys that read
as an unsigned number, any other key is a failure. A missing value renders as nothing.

**Values** render as text: strings as themselves, numbers in their JSON form, `true` and
`false`, nothing for null, arrays as `[a, b]` with their items rendered, objects as
`[object]`. Nothing is escaped.

**Truth.** `false`, null, `0`, the empty string, the empty array and the empty object are
false; so are numbers that are not normal doubles (subnormals); everything else is true. With
`includeZero=true`, `{{#if}}` counts every number as true.

**Helpers.** `if`, `unless`, `each`, `with`, `lookup`, `raw`, `log`, the value helpers `eq`,
`ne`, `gt`, `gte`, `lt`, `lte`, `and`, `or`, `not`, `len`, and `toCode`, which writes a string
argument as it is, nothing for null, and any other value as compact JSON. A tag with
arguments, or a block, calls a helper; a tag with a bare name calls the helper of that name if
there is one and renders the value of the path otherwise. A value helper used as a block
renders its body or its inverse when its value is a boolean, and writes the value otherwise.
`log` takes a `level` of `error`, `warn`, `info`, `debug` or `trace`, in any case.

**Partials.** `{{#*inline "name"}}…{{/inline}}` defines a partial until the end of the block
that holds it (the bodies of `each`, `with` and partials are blocks; those of `if` and `unless`
are not), and inner definitions hide outer ones. `{{> name}}` renders a partial in a copy of the
current scope, based on its first argument if it has one, with its options set as keys over that
base. `{{#> name}}…{{/name}}` falls back to its own body, and inside the partial
`{{> @partial-block}}` renders that body. A partial naming the template being rendered, or no
partial at all, is a failure.

A failure names the place of the innermost tag that failed.
-/

namespace Blockwork.Template

/-- Why rendering failed. -/
inductive Fault where
  | helperNotFound (name : String)
  | partialNotFound (name : String)
  | decoratorNotFound (name : String)
  | missingArgument (helper : String) (index : Nat)
  | missingNamedArgument (helper name : String)
  | notAnIndex (key : String)
  | cannotIncludeSelf
  | invalidParamType (expected : String)
  | blockContentRequired
  | partialBlockNotFound
  | invalidLogLevel (level : String)
  | unsupported

/-- The text of a fault. -/
def Fault.message : Fault → String
  | .helperNotFound n => "Helper not found " ++ n
  | .partialNotFound n => "Partial not found " ++ n
  | .decoratorNotFound n => "Decorator not found " ++ n
  | .missingArgument h i =>
    "Helper/Decorator " ++ h ++ " param at index " ++ toString i ++ " required but not found"
  | .missingNamedArgument h n =>
    "Helper/Decorator " ++ h ++ " param with name " ++ n ++ " required but not found"
  | .notAnIndex k => "Cannot access array/vector with string index, " ++ k
  | .cannotIncludeSelf => "Can not include current template in partial"
  | .invalidParamType t => "Invalid param type, " ++ t ++ " expected"
  | .blockContentRequired => "Block content required"
  | .partialBlockNotFound => "Partial block cound not be found"
  | .invalidLogLevel l => "Invalid logging level: " ++ l
  | .unsupported => "Unimplemented"

/-- A rendering failure and the place of the tag that failed, once known. -/
structure RenderError where
  fault : Fault
  place : Option Place := none

/-- The name code templates are rendered under. -/
def templateName : String := "code"

/-- The text of a rendering failure of the template named `templateName`. -/
def RenderError.message (e : RenderError) : String :=
  match e.place with
  | some p =>
    "Error rendering \"" ++ templateName ++ "\" line " ++ toString p.line ++ ", col " ++
      toString p.column ++ ": " ++ e.fault.message
  | none => e.fault.message

/-- Gives a failure the place of a tag unless it already has a place. -/
def atPlace {α : Type} (p : Place) : Except RenderError α → Except RenderError α
  | .error e => .error (if e.place.isSome then e else { e with place := some p })
  | ok => ok

/-! ### Values -/

/-- Whether a double is normal: finite, non-zero and not subnormal. -/
def isNormal (f : Float) : Bool :=
  match Decimal.unpack f with
  | .finite _ m _ => m ≥ Nat.pow 2 52
  | _ => false

/-- The truth of a value; see the module comment. -/
def truthy (includeZero : Bool) : Json → Bool
  | .bool b => b
  | .num n => if includeZero then !n.toFloat.isNaN else isNormal n.toFloat
  | .null => false
  | .str s => !s.isEmpty
  | .arr xs => !xs.isEmpty
  | .obj es => !es.isEmpty

/-- The text of a value; see the module comment. -/
def renderValue : Json → String
  | .str s => s
  | .bool b => if b then "true" else "false"
  | .num n => n.text
  | .null => ""
  | .arr xs => "[" ++ ", ".intercalate (xs.map renderValue) ++ "]"
  | .obj _ => "[object]"

mutual
/-- Equality of values as data: objects are equal when they hold the same keys with equal
values, in any order. -/
def sameValue : Json → Json → Bool
  | .null, .null => true
  | .bool a, .bool b => a == b
  | .num a, .num b => a == b
  | .str a, .str b => a == b
  | .arr as, .arr bs => sameItems as bs
  | .obj as, .obj bs => as.length == bs.length && sameEntries as bs
  | _, _ => false

def sameItems : List Json → List Json → Bool
  | [], [] => true
  | a :: as, b :: bs => sameValue a b && sameItems as bs
  | _, _ => false

/-- Every entry of the first object has an equal value in the second. -/
def sameEntries : List (String × Json) → List (String × Json) → Bool
  | [], _ => true
  | (k, a) :: rest, bs =>
    (match lookupEntry k bs with
     | some b => sameValue a b
     | none => false) && sameEntries rest bs

def lookupEntry (k : String) : List (String × Json) → Option Json
  | [] => none
  | (k', v) :: rest => if k == k' then some v else lookupEntry k rest
end

/-- An unsigned number as array indices are written: optional `+`, then digits only. -/
def indexOf? (key : String) : Option Nat :=
  let cs := match key.toList with
    | '+' :: r => r
    | r => r
  if cs.isEmpty || !cs.all Char.isDigit then none
  else
    let n := cs.foldl (fun n c => 10 * n + (c.toNat - 48)) 0
    if n < Nat.pow 2 64 then some n else none

/-- One step of a lookup: an object key, or an array index. -/
def child (v : Json) (key : String) : Except Fault (Option Json) :=
  match v with
  | .arr xs =>
    match indexOf? key with
    | some i => .ok xs[i]?
    | none => .error (.notAnIndex key)
  | .obj es => .ok ((es.find? (·.1 == key)).map (·.2))
  | _ => .ok none

/-- Follows keys from a value; a missing step makes the whole lookup missing. -/
def descend : Option Json → List String → Except Fault (Option Json)
  | none, _ => .ok none
  | some v, [] => .ok (some v)
  | some v, k :: ks => do
    let next ← child v k
    descend next ks

/-- Compares a whole number with a finite double by their exact values. -/
def compareIntFloat (a : Int) (f : Float) : Option Ordering :=
  match Decimal.unpack f with
  | .finite neg m q =>
    let v : Int := if neg then -(m : Int) else m
    if q ≥ 0 then some (compare a (v * Int.pow 2 q.toNat))
    else some (compare (a * Int.pow 2 (-q).toNat) v)
  | _ => none

/-- Compares two numbers by their exact values, whole numbers and doubles alike. -/
def compareNums : Num → Num → Option Ordering
  | .int a, .int b => some (compare a b)
  | .int a, .float g => compareIntFloat a g
  | .float f, .int b => (compareIntFloat b f).map Ordering.swap
  | .float f, .float g =>
    if f < g then some .lt else if f > g then some .gt else if f == g then some .eq else none

/-- Text that is exactly a JSON number, with nothing around it, as that number; a number out of
the range of doubles is no number. -/
def numberOfText? (s : String) : Option Num :=
  match s.toList.head?, s.toList.getLast? with
  | some c, some d =>
    if (c == '-' || c.isDigit) && d.isDigit then
      match Json.parse s with
      | .ok (.num n) => some n
      | _ => none
    else none
  | _, _ => none

/-- Compares two values for the ordering helpers: numbers by exact value, strings and booleans
among themselves, and a number with text that is exactly a JSON number. -/
def compareValues (x y : Json) : Option Ordering :=
  match x, y with
  | .num a, .num b => compareNums a b
  | .str a, .str b => some (compare a b)
  | .bool a, .bool b => some (compare a b)
  | .num a, .str b => (numberOfText? b).bind (compareNums a)
  | .str a, .num b => (numberOfText? a).bind (compareNums · b)
  | _, _ => none

/-! ### Scopes -/

/-- Partials defined by `{{#*inline "name"}}…{{/inline}}` blocks, the latest first. -/
abbrev Partials := List (String × List Node)

/-- A block scope: the value it visits, its loop variables and its block parameters. -/
structure Scope where
  base : Json
  locals : List (String × Json) := []
  params : List (String × Json) := []

/-- The rendering environment: the data, the scopes (innermost first, never empty), the
partials defined in the blocks around the current one, the indentation of the partial being
rendered, and the fallbacks `{{> @partial-block}}` renders (innermost first). -/
structure Env where
  root : Json
  scopes : List Scope
  outer : Partials := []
  indent : Option String := none
  partialBlocks : List (List Node) := []

namespace Env

/-- The innermost scope. -/
def innermost (env : Env) : Scope := env.scopes.headD ⟨env.root, [], []⟩

/-- A block parameter by name, searched from the innermost scope out. -/
def param? (env : Env) (n : String) : Option Json :=
  env.scopes.findSome? (fun s => (s.params.find? (·.1 == n)).map (·.2))

/-- Looks up a path; see the module comment. -/
def lookup (env : Env) : Path → Except Fault (Option Json)
  | .localVar _ levels n =>
    .ok ((env.scopes[levels]?).bind fun s => (s.locals.find? (·.1 == n)).map (·.2))
  | .steps _ steps =>
    match steps with
    | .root :: rest => descend (some env.root) (rest.filterMap fun | .key k => some k | _ => none)
    | _ =>
      let ups := (steps.takeWhile (· == .up)).length
      let keys := steps.filterMap fun | .key k => some k | _ => none
      match keys with
      | k :: more =>
        match env.param? k with
        | some v => descend (some v) more
        | none =>
          let scope := (env.scopes[ups]?).getD env.innermost
          descend (some scope.base) keys
      | [] =>
        let scope := (env.scopes[ups]?).getD env.innermost
        .ok (some scope.base)

/-- Opens a scope. -/
def push (env : Env) (s : Scope) : Env := { env with scopes := s :: env.scopes }

end Env

/-! ### Helpers -/

/-- The helpers the renderer knows. -/
def helperNames : List String :=
  ["if", "unless", "each", "with", "lookup", "raw", "log", "eq", "ne", "gt", "gte", "lt", "lte",
   "and", "or", "not", "len", "toCode"]

/-- Whether a helper computes a value rather than writing output. -/
def isValueHelper (name : String) : Bool :=
  ["eq", "ne", "gt", "gte", "lt", "lte", "and", "or", "not", "len", "lookup"].contains name

/-- A value helper applied to its arguments (missing values are null). `and` and `or` take any
number of arguments; the others fail on a missing argument, naming its index (`len` names its
parameter, `x`). -/
def valueHelper (name : String) (args : List (Option Json)) : Except Fault (Option Json) :=
  let arg (i : Nat) : Except Fault Json :=
    match args[i]? with
    | some v => .ok (v.getD .null)
    | none => .error (.missingArgument name i)
  let ordered (test : Ordering → Bool) : Except Fault (Option Json) := do
    let x ← arg 0
    let y ← arg 1
    pure (some (.bool ((compareValues x y).any test)))
  match name with
  | "eq" => do let x ← arg 0; let y ← arg 1; pure (some (.bool (sameValue x y)))
  | "ne" => do let x ← arg 0; let y ← arg 1; pure (some (.bool (!sameValue x y)))
  | "gt" => ordered (· == .gt)
  | "gte" => ordered (· != .lt)
  | "lt" => ordered (· == .lt)
  | "lte" => ordered (· != .gt)
  | "and" => pure (some (.bool (args.all fun v => truthy false (v.getD .null))))
  | "or" => pure (some (.bool (args.any fun v => truthy false (v.getD .null))))
  | "not" => do let x ← arg 0; pure (some (.bool (!truthy false x)))
  | "len" => do
    let x ← match args[0]? with
      | some v => pure (v.getD .null)
      | none => .error (.missingNamedArgument "len" "x")
    let n := match x with
      | .arr xs => xs.length
      | .obj es => es.length
      | .str s => s.utf8ByteSize
      | _ => 0
    pure (some (.ofNat n))
  | "lookup" =>
    match args[0]?, args[1]? with
    | none, _ => .error (.missingArgument "lookup" 0)
    | _, none => .error (.missingArgument "lookup" 1)
    | some c, some i =>
      match c, i with
      | some (.arr xs), some (.num (.int k)) => .ok (if 0 ≤ k then xs[k.toNat]? else none)
      | some (.obj es), some (.str k) => .ok ((es.find? (·.1 == k)).map (·.2))
      | _, _ => .ok none
  | _ => .error (.helperNotFound name)

/-- The levels `log` accepts, in any case of ASCII letters. -/
def logLevels : List String := ["error", "warn", "info", "debug", "trace"]

/-- What a helper that writes output writes when it has no block (or ignores it): the block
helpers write nothing once their argument is there, `log` writes nothing at a known level, and
`toCode` writes a string argument as it is, nothing for null, any other value as compact JSON. -/
def bareOutput (name : String) (args : List (Option Json)) (opts : List (String × Option Json)) :
    Except Fault String :=
  match name with
  | "if" | "unless" => if args.isEmpty then .error (.missingArgument "if" 0) else .ok ""
  | "each" => if args.isEmpty then .error (.missingArgument "each" 0) else .ok ""
  | "with" => if args.isEmpty then .error (.missingArgument "with" 0) else .ok ""
  | "raw" => .ok ""
  | "log" =>
    match opts.find? (·.1 == "level") with
    | some (_, some (.str l)) =>
      if logLevels.contains (l.map Char.toLower) then .ok "" else .error (.invalidLogLevel l)
    | _ => .ok ""
  | "toCode" =>
    match args with
    | some (.str s) :: _ => .ok s
    | some .null :: _ | none :: _ | [] => .ok ""
    | some v :: _ => .ok v.compact
  | _ => .error (.helperNotFound name)

/-! ### Evaluation -/

mutual
/-- Evaluates a term: a path, a literal, or a helper call. -/
def evalTerm : Nat → Env → Term → Except RenderError (Option Json)
  | 0, _, _ => .error ⟨.unsupported, none⟩
  | fuel + 1, env, t =>
    match t with
    | .path p =>
      match env.lookup p with
      | .ok v => .ok v
      | .error f => .error ⟨f, none⟩
    | .literal v => .ok (some v)
    | .name _ => .ok none
    | .call tag => evalCall fuel env tag

/-- Evaluates a helper call in parentheses: a value helper gives its value, a helper that writes
output gives the text it writes without a block. -/
def evalCall : Nat → Env → Tag → Except RenderError (Option Json)
  | 0, _, _ => .error ⟨.unsupported, none⟩
  | fuel + 1, env, tag => do
    let name ← helperNameOf fuel env tag.head
    let args ← evalArgs fuel env tag.args
    let opts ← evalOptions fuel env tag.options
    let result := if isValueHelper name then valueHelper name args
      else (bareOutput name args opts).map fun s => some (.str s)
    match result with
    | .ok v => pure v
    | .error f => throw ⟨f, none⟩

/-- The name a tag's head calls: a name or path as written, a call by the text of its value. -/
def helperNameOf : Nat → Env → Term → Except RenderError String
  | 0, _, _ => .error ⟨.unsupported, none⟩
  | fuel + 1, env, t =>
    match t with
    | .name s => .ok s
    | .path p => .ok p.raw
    | .literal v => .ok (renderValue v)
    | .call tag => do
      let v ← evalCall fuel env tag
      pure (renderValue (v.getD .null))

/-- Evaluates arguments in order. -/
def evalArgs : Nat → Env → List Term → Except RenderError (List (Option Json))
  | 0, _, _ => .error ⟨.unsupported, none⟩
  | _, _, [] => .ok []
  | fuel + 1, env, t :: ts => do
    let v ← evalTerm fuel env t
    let vs ← evalArgs fuel env ts
    pure (v :: vs)

/-- Evaluates options in order. -/
def evalOptions : Nat → Env → List (String × Term) → Except RenderError (List (String × Option Json))
  | 0, _, _ => .error ⟨.unsupported, none⟩
  | _, _, [] => .ok []
  | fuel + 1, env, (n, t) :: ts => do
    let v ← evalTerm fuel env t
    let vs ← evalOptions fuel env ts
    pure ((n, v) :: vs)
end

/-- Binds block parameters for one visited item: the item, then its index or key. -/
def bindParams (params : List String) (item key : Json) : List (String × Json) :=
  match params with
  | [x] => [(x, item)]
  | [x, y] => [(x, item), (y, key)]
  | _ => []

/-- The scopes `{{#each}}` visits: one per array item or object entry, each knowing its
`@index` (and, for an entry, its `@key`) and whether it is `@first` and `@last`; `none` for any
other value. -/
def eachScopes (params : List String) : Json → Option (List Scope)
  | .arr xs =>
    some (((List.range xs.length).zip xs).map fun (i, x) =>
      { base := x,
        locals := [("first", .bool (i == 0)), ("last", .bool (i + 1 == xs.length)),
                   ("index", .ofNat i)],
        params := bindParams params x (.ofNat i) })
  | .obj es =>
    some (((List.range es.length).zip es).map fun (i, (k, x)) =>
      { base := x,
        locals := [("first", .bool (i == 0)), ("last", .bool (i + 1 == es.length)),
                   ("index", .ofNat i), ("key", .str k)],
        params := bindParams params x (.str k) })
  | _ => none

/-! ### Partials -/

/-- The name under which a partial reaches the fallback of the partial block it was called
from. -/
def partialBlockName : String := "@partial-block"

/-- Runs a decorator tag: `inline` defines the partial named by its first argument, which must
be text, as the decorator's body; there is no other decorator. -/
def decorate (fuel : Nat) (env : Env) (ps : Partials) (tag : Tag) (body : Option (List Node)) :
    Except RenderError Partials := do
  let name ← helperNameOf fuel env tag.head
  let args ← evalArgs fuel env tag.args
  let _ ← evalOptions fuel env tag.options
  if name != "inline" then throw ⟨.decoratorNotFound name, none⟩
  match args with
  | [] => throw ⟨.missingArgument "inline" 0, none⟩
  | some (.str n) :: _ =>
    match body with
    | some b => pure ((n, b) :: ps)
    | none => throw ⟨.blockContentRequired, none⟩
  | _ => throw ⟨.invalidParamType "String", none⟩

/-- Runs the decorators standing directly in a list of nodes, in order. -/
def runDecorators (fuel : Nat) (env : Env) (ps : Partials) : List Node → Except RenderError Partials
  | [] => .ok ps
  | .decorator tag body at_ :: ns => do
    let ps ← atPlace at_ (decorate fuel env ps tag body)
    runDecorators fuel env ps ns
  | _ :: ns => runDecorators fuel env ps ns

/-- A value as object entries for merging: an object's entries, an array's items under their
indices, a string's characters under their positions; nothing for other values. -/
def entriesOf : Json → List (String × Json)
  | .obj es => es
  | .arr xs => ((List.range xs.length).zip xs).map fun (i, x) => (toString i, x)
  | .str s => ((List.range s.length).zip s.toList).map fun (i, c) => (toString i, .str c.toString)
  | _ => []

/-- The scope a partial renders in: a copy of the current scope whose value is the partial's
first argument (null when it is missing) if it has one, with the partial's options, in the
order of their names, set as keys of that value. -/
def partialScope (s : Scope) (args : List (Option Json)) (opts : List (String × Option Json)) :
    Scope :=
  let base := match args with
    | v :: _ => v.getD .null
    | [] => s.base
  if opts.isEmpty then { s with base := base }
  else
    let sorted := (opts.map fun (k, v) => (k, v.getD .null)).mergeSort
      fun (a b : String × Json) => decide (a.1 ≤ b.1)
    { s with base := .obj (sorted.foldl (fun acc (k, v) => Json.setEntry acc k v) (entriesOf base)) }

/-! ### Output -/

/-- Inserts the indent after every line break of `s` that more text follows. -/
def indentInside (indent : List Char) : List Char → List Char
  | [] => []
  | ['\n'] => ['\n']
  | '\n' :: r => '\n' :: (indent ++ indentInside indent r)
  | c :: r => c :: indentInside indent r

/-- Whether a character breaks lines. -/
def isBreak (c : Char) : Bool := c == '\n' || c == '\r'

/-- Writes text at the indentation of the partial being rendered: the indent goes before the
text when the output stands at the start of a line (unless the text itself starts with a line
break), and after every line break inside the text that more text follows. Returns the written
text and whether the output then stands at the start of a line. -/
def emit (indent : Option String) (lineStart : Bool) (s : String) : String × Bool :=
  if s.isEmpty then ("", lineStart)
  else
    let ends := s.toList.getLast?.any isBreak
    match indent with
    | none => (s, ends)
    | some i =>
      let lead := if lineStart && !(s.toList.head?.any isBreak) then i else ""
      (lead ++ String.ofList (indentInside i.toList s.toList), ends)

/-- The state rendering passes along a block: the partials defined so far in the block, and
whether the output of the partial being rendered stands at the start of a line. -/
structure Flow where
  defs : Partials := []
  lineStart : Bool := true

/-! ### Rendering -/

mutual
/-- Renders nodes in order. -/
def renderNodes : Nat → Env → Flow → List Node → Except RenderError (String × Flow)
  | 0, _, _, _ => .error ⟨.unsupported, none⟩
  | _, _, st, [] => .ok ("", st)
  | fuel + 1, env, st, n :: ns => do
    let (a, st) ← renderNode fuel env st n
    let (b, st) ← renderNodes fuel env st ns
    pure (a ++ b, st)

/-- Renders one node. -/
def renderNode : Nat → Env → Flow → Node → Except RenderError (String × Flow)
  | 0, _, _, _ => .error ⟨.unsupported, none⟩
  | fuel + 1, env, st, n =>
    match n with
    | .text s =>
      let (out, ls) := emit env.indent st.lineStart s
      .ok (out, { st with lineStart := ls })
    | .comment => .ok ("", st)
    | .interpolate tag at_ => atPlace at_ (interpolate fuel env st tag)
    | .block tag body inverse at_ => atPlace at_ (callHelper fuel env st tag (some body) inverse)
    | .raw tag body at_ => atPlace at_ (callHelper fuel env st tag (some [.text body]) none)
    | .embed tag indent at_ => atPlace at_ (do
        let out ← embed fuel env st tag none indent
        pure (out, st))
    | .embedBlock tag fallback indent at_ => atPlace at_ (do
        let out ← embed fuel env st tag (some fallback) indent
        pure (out, st))
    | .decorator tag body at_ => atPlace at_ (do
        let defs ← decorate fuel env st.defs tag body
        pure ("", { st with defs := defs }))

/-- `{{> name}}` and `{{#> name}}fallback{{/name}}`: renders the partial defined under the name
(for `@partial-block`, the fallback of the partial block being rendered), else the fallback, in
a block of its own whose scope `partialScope` gives. The fallback's own decorators run in that
block first, so that the partial sees what they define. A partial may not name the template
being rendered. The output is indented as the tag's `Indent` says. -/
def embed : Nat → Env → Flow → Tag → Option (List Node) → Option Indent →
    Except RenderError String
  | 0, _, _, _, _, _ => .error ⟨.unsupported, none⟩
  | fuel + 1, env, st, tag, fallback, indent => do
    let name ← helperNameOf fuel env tag.head
    let args ← evalArgs fuel env tag.args
    let opts ← evalOptions fuel env tag.options
    if name == templateName then throw ⟨.cannotIncludeSelf, none⟩
    let visible := st.defs ++ env.outer
    let pushed := match fallback with
      | some f => f :: env.partialBlocks
      | none => env.partialBlocks
    let (found, blocks) : Option (List Node) × List (List Node) :=
      if name == partialBlockName then
        match env.partialBlocks with
        | b :: rest => (some b, rest)
        | [] => (fallback, pushed)
      else
        match visible.find? (·.1 == name) with
        | some (_, b) => (some b, pushed)
        | none => (fallback, pushed)
    let some body := found
      | throw ⟨if name == partialBlockName then .partialBlockNotFound else .partialNotFound name,
          none⟩
    let inner : Env :=
      { env with scopes := partialScope env.innermost args opts :: env.scopes, outer := visible,
                 indent := indent.map (·.text), partialBlocks := blocks }
    let defs ← match fallback with
      | some f => runDecorators fuel inner [] f
      | none => pure []
    let (out, _) ← renderNodes fuel inner { defs := defs, lineStart := indent.any (·.firstLine) } body
    pure out

/-- `{{tag}}`: a bare name calls the helper of that name if there is one, and writes the value
of the path otherwise; a tag with arguments calls a helper. -/
def interpolate : Nat → Env → Flow → Tag → Except RenderError (String × Flow)
  | 0, _, _, _ => .error ⟨.unsupported, none⟩
  | fuel + 1, env, st, tag =>
    if tag.args.isEmpty && tag.options.isEmpty then do
      let name ← helperNameOf fuel env tag.head
      if helperNames.contains name then callHelper fuel env st tag none none
      else
        let v ← evalTerm fuel env tag.head
        let (out, ls) := emit env.indent st.lineStart (renderValue (v.getD .null))
        pure (out, { st with lineStart := ls })
    else callHelper fuel env st tag none none

/-- Calls the helper of a tag, with the block's body and inverse when it is a block. `if` and
`unless` render a branch in the current block; `each` and `with` render their body in a block
of their own, whose partials end with it (`with` keeps the loop variables around it, and binds a
block parameter only when it is given exactly one). A value
helper writes its value; as a block, a value that is a boolean chooses between the body and
the inverse instead. -/
def callHelper : Nat → Env → Flow → Tag → Option (List Node) → Option (List Node) →
    Except RenderError (String × Flow)
  | 0, _, _, _, _, _ => .error ⟨.unsupported, none⟩
  | fuel + 1, env, st, tag, body, inverse => do
    let name ← helperNameOf fuel env tag.head
    let args ← evalArgs fuel env tag.args
    let opts ← evalOptions fuel env tag.options
    let here (t : Option (List Node)) : Except RenderError (String × Flow) :=
      match t with
      | some ns => renderNodes fuel env st ns
      | none => .ok ("", st)
    let nested := { env with outer := st.defs ++ env.outer }
    let bare : Except RenderError (String × Flow) :=
      match bareOutput name args opts with
      | .ok s => .ok (s, st)
      | .error f => .error ⟨f, none⟩
    match body with
    | none =>
      if isValueHelper name then
        match valueHelper name args with
        | .ok v => pure (renderValue (v.getD .null), st)
        | .error f => throw ⟨f, none⟩
      else bare
    | some b =>
      match name with
      | "if" | "unless" =>
        match args with
        | [] => throw ⟨.missingArgument "if" 0, none⟩
        | v :: _ =>
          let includeZero := match opts.find? (·.1 == "includeZero") with
            | some (_, some (.bool z)) => z
            | _ => false
          let t := truthy includeZero (v.getD .null)
          if (if name == "unless" then !t else t) then here body else here inverse
      | "each" =>
        match args with
        | [] => throw ⟨.missingArgument "each" 0, none⟩
        | v :: _ =>
          match eachScopes tag.params (v.getD .null) with
          | none => here inverse
          | some [] => if inverse.isSome then here inverse else pure ("", st)
          | some scopes => do
            let (out, inner) ← List.foldlM (fun (acc, (inner : Flow)) s => do
              let (out, inner) ← renderNodes fuel (nested.push s) inner b
              pure (acc ++ out, inner)) ("", { lineStart := st.lineStart }) scopes
            pure (out, { st with lineStart := inner.lineStart })
      | "with" =>
        match args with
        | [] => throw ⟨.missingArgument "with" 0, none⟩
        | v :: _ =>
          let x := v.getD .null
          if truthy false x then do
            let params := match tag.params with
              | [p] => [(p, x)]
              | _ => []
            let scope := { env.innermost with base := x, params := params }
            let (out, inner) ← renderNodes fuel (nested.push scope) { lineStart := st.lineStart } b
            pure (out, { st with lineStart := inner.lineStart })
          else here inverse
      | "raw" => here body
      | _ =>
        if isValueHelper name then
          match valueHelper name args with
          | .ok (some (.bool t)) => if t then here body else here inverse
          | .ok v => pure (renderValue (v.getD .null), st)
          | .error f => throw ⟨f, none⟩
        else bare
end

end Blockwork.Template

namespace Blockwork

/-- Enough fuel to render a template against its data. Without partials every step goes one
tag deeper into the source; a partial that includes itself again goes one level deeper into the
data each time, so the source is walked at most once per level of the data. -/
def CodeTemplate.fuel (t : CodeTemplate) (data : Json) : Nat :=
  (t.source.length + 8) * (data.depth + 4)

/-- Renders a template against its data (an object of named values). -/
def CodeTemplate.render (t : CodeTemplate) (data : Json) : Except Template.RenderError String :=
  (Template.renderNodes (t.fuel data) ⟨data, [⟨data, [], []⟩], [], none, []⟩ {} t.nodes).map
    (·.1)

end Blockwork
