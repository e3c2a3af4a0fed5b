import Blockwork.Template.Render
import Blockwork.Code.Order
import Blockwork.Block.Input

/-!
# Code generators

A generator says how one block turns into code. The main kind is a code template, rendered
against the block's inputs and fields; it produces an atomic expression or statements, as its
shape says. The other kinds are small fixed recipes built from the same operations a template
has: write an operator between two operands, before one operand, a call over several, a fixed
text, a field's value, a statement body under a header, or fail with a message. A host may also
give a function of its own. It reads the block it is given, and reaches other blocks only by
asking the pass for the code plugged into that block's inputs, one at a time; a failure of what it
asked for ends it with that failure (`Steps`).

A generated piece of code is an expression tagged with the precedence of its outermost operator,
or complete statements.
-/

namespace Blockwork.Code

/-- Whether a template produces an expression or statements. -/
inductive Shape where
  | value
  | statement
  deriving BEq, DecidableEq, Repr

/-- The name of a shape. -/
def Shape.name : Shape → String
  | .value => "value"
  | .statement => "statement"

/-- Generated code: an expression and the precedence of its outermost operator, or statements. -/
inductive Fragment where
  | value (code : String) (order : Order)
  | statement (code : String)
  deriving BEq, Repr

/-- The text of generated code. -/
def Fragment.text : Fragment → String
  | .value code _ => code
  | .statement code => code

/-- Settings of a generation pass. -/
structure Config where
  /-- The prefix of every line of a nested statement body. -/
  indent : String := "  "
  /-- Whether a failing top block becomes comments instead of failing the pass. -/
  commentErrors : Bool := true

/-- A block as a generator written as a function reads it: its id and type, the arena indices of
the inputs on its line, in order, and its two arenas, the inputs and fields of hidden variants
included. -/
structure BlockView where
  id : Nat
  typeName : String
  line : List Nat
  inputArena : Array Input
  fieldArena : Array Field

/-- What a generator written as a function does. It asks the pass for the code plugged into an
input of the block it generates and goes on with the answer, until it gives the block's code or
fails with a message of its own. -/
inductive Steps where
  /-- The block's code. -/
  | done (code : Fragment)
  /-- A failure of the generator's own. -/
  | fail (message : String)
  /-- Asks for the code plugged into the value input `input`, parenthesized as the precedence
  `outer` needs and empty when nothing is plugged in. -/
  | value (input : String) (outer : Order) (next : String → Steps)
  /-- Asks for the indented chain plugged into the statement input `input`, empty when nothing is
  plugged in. -/
  | statement (input : String) (next : String → Steps)

/-- How a block turns into code. -/
inductive Generator where
  /-- A code template, producing code of the given shape. -/
  | template (t : CodeTemplate) (shape : Shape)
  /-- `left symbol right`, each operand parenthesized as `order` needs. -/
  | binary (symbol : String) (order : Order) (left right : String)
  /-- `opening operand`, the operand parenthesized as `order` needs. -/
  | unary (opening : String) (order : Order) (input : String)
  /-- `name(a, b, ...)` over value inputs. -/
  | call (name : String) (args : List String)
  /-- A fixed expression. -/
  | literal (text : String) (order : Order)
  /-- A field's value as an expression. -/
  | field (name : String) (order : Order)
  /-- `header {` and the indented statements of an input, then `}`. -/
  | body (input header : String)
  /-- Fixed statements. -/
  | statement (text : String)
  /-- Always fails with a message. -/
  | fail (text : String)
  /-- The number of blocks, the indent and whether failures become comments, as an expression. -/
  | settings
  /-- A function of the block and the pass's settings, run as the steps it gives. -/
  | function (steps : BlockView → Config → Steps)

/-- A template generator from source text. -/
def Generator.ofSource (source : String) (shape : Shape) :
    Except Template.SyntaxError Generator := do
  let t ← CodeTemplate.parse source
  pure (.template t shape)

end Blockwork.Code
