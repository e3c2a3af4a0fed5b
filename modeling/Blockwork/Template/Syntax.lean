import Blockwork.Json.Value

/-!
# Code templates: syntax

Code templates use the Handlebars language: text with `{{…}}` tags that interpolate values,
call helpers and open blocks. This module holds the syntax tree a template is read into; the
reader is `Template.parse` and the evaluator `Template.render`.

* A *path* names a value: `A`, `A.B`, `A.[0]`, `../A` (one block scope up), `@root.A`,
  `this` (the current scope), `@index` (a variable of the innermost loop).
* A *term* is a path, a literal (`"text"`, `1`, `true`, `null`), or a helper call in
  parentheses.
* A *tag* is a name with arguments, `name=value` options and optional block parameters.
* A *node* is text, a comment, an interpolation, a block with its inverse (`{{else}}`), a raw
  block whose body is kept as text, or a partial.

Every node that can fail when rendered carries its `Place` in the source, so that a failure can
say where it happened.
-/

namespace Blockwork.Template

/-- A place in template source: line and column, both counted in characters from 1. -/
structure Place where
  line : Nat
  column : Nat
  deriving BEq, Repr, Inhabited

/-- One step of a path. -/
inductive Step where
  /-- `..`: one block scope up. -/
  | up
  /-- `@root`: the data the template is rendered with. -/
  | root
  /-- A key of an object or an index of an array. -/
  | key (name : String)
  deriving BEq, Repr

/-- A path to a value. `localVar` paths name a variable of a loop (`@index`), `levels` block
scopes up. -/
inductive Path where
  | steps (raw : String) (steps : List Step)
  | localVar (raw : String) (levels : Nat) (name : String)
  deriving Repr

/-- The source text of a path. -/
def Path.raw : Path → String
  | .steps raw _ => raw
  | .localVar raw _ _ => raw

mutual
/-- A value in a tag: a path, a literal, a bare name, or a helper call. -/
inductive Term where
  | path (p : Path)
  | literal (value : Json)
  /-- A name in helper position, such as `foo` in `{{foo bar}}`. -/
  | name (s : String)
  | call (tag : Tag)

/-- A helper name with its arguments, options and block parameters. -/
inductive Tag where
  | mk (head : Term) (args : List Term) (options : List (String × Term)) (params : List String)
end

namespace Tag

def head : Tag → Term
  | .mk h _ _ _ => h

def args : Tag → List Term
  | .mk _ a _ _ => a

def options : Tag → List (String × Term)
  | .mk _ _ o _ => o

def params : Tag → List String
  | .mk _ _ _ p => p

end Tag

/-- The name a term stands for when it is called as a helper. -/
def Term.helperName : Term → String
  | .name s => s
  | .path p => p.raw
  | .literal _ => ""
  | .call _ => ""

/-- How a partial's output is indented: by the spaces and tabs before its tag, after every line
break inside the output, and before its first line too when the tag stood alone on its line
(the spaces and tabs were then taken out of the text before it). -/
structure Indent where
  text : String
  firstLine : Bool
  deriving Repr

/-- A node of a template. -/
inductive Node where
  | text (s : String)
  | comment
  /-- `{{tag}}` or `{{{tag}}}`. -/
  | interpolate (tag : Tag) (at_ : Place)
  /-- `{{#tag}}body{{else}}inverse{{/tag}}`; `{{else if …}}` chains nest in the inverse. -/
  | block (tag : Tag) (body : List Node) (inverse : Option (List Node)) (at_ : Place)
  /-- `{{{{tag}}}}body{{{{/tag}}}}`: the body is text. -/
  | raw (tag : Tag) (body : String) (at_ : Place)
  /-- `{{> name args}}`: the tag's head names the partial. -/
  | embed (tag : Tag) (indent : Option Indent) (at_ : Place)
  /-- `{{#> name args}}fallback{{/name}}`. -/
  | embedBlock (tag : Tag) (fallback : List Node) (indent : Option Indent) (at_ : Place)
  /-- `{{* tag}}`, and `{{#* tag}}body{{/tag}}` with its body: decorators. -/
  | decorator (tag : Tag) (body : Option (List Node)) (at_ : Place)

end Blockwork.Template

namespace Blockwork

/-- A parsed code template together with its source. -/
structure CodeTemplate where
  source : String
  nodes : List Template.Node

end Blockwork
