/-!
# Operator precedence of generated code

Generated expressions carry the precedence of their outermost operator, so that an expression
placed inside another is parenthesized exactly when needed. Precedences follow the usual table
of a C-like expression language (member access binds tightest after atoms, the comma loosest);
operators of one precedence class share the integer part of their precedence.

An inner expression needs parentheses inside an outer one unless the outer class binds less
tightly (a larger number), or both are atoms or both unordered (`none`), or the pair is one of
the associative combinations that read the same either way: calls and member accesses among
themselves, double logical negation, and chains of `*`, `+`, `&&` or `||`.
-/

namespace Blockwork.Code

/-- The precedence of an operator in generated code. -/
inductive Order where
  | atomic | new | member | functionCall | increment | decrement | bitwiseNot | unaryPlus
  | unaryNegation | logicalNot | typeof | void | delete | await | exponentiation
  | multiplication | division | modulus | subtraction | addition | bitwiseShift | relational
  | in | instanceof | equality | bitwiseAnd | bitwiseXor | bitwiseOr | logicalAnd | logicalOr
  | conditional | assignment | yield | comma | none
  deriving BEq, DecidableEq, Repr, Inhabited

namespace Order

/-- Every order, from the tightest to the loosest. -/
def all : List Order :=
  [.atomic, .new, .member, .functionCall, .increment, .decrement, .bitwiseNot, .unaryPlus,
   .unaryNegation, .logicalNot, .typeof, .void, .delete, .await, .exponentiation,
   .multiplication, .division, .modulus, .subtraction, .addition, .bitwiseShift, .relational,
   .in, .instanceof, .equality, .bitwiseAnd, .bitwiseXor, .bitwiseOr, .logicalAnd, .logicalOr,
   .conditional, .assignment, .yield, .comma, .none]

/-- The name of an order, as configuration writes it. -/
def name : Order → String
  | .atomic => "Atomic" | .new => "New" | .member => "Member" | .functionCall => "FunctionCall"
  | .increment => "Increment" | .decrement => "Decrement" | .bitwiseNot => "BitwiseNot"
  | .unaryPlus => "UnaryPlus" | .unaryNegation => "UnaryNegation" | .logicalNot => "LogicalNot"
  | .typeof => "Typeof" | .void => "Void" | .delete => "Delete" | .await => "Await"
  | .exponentiation => "Exponentiation" | .multiplication => "Multiplication"
  | .division => "Division" | .modulus => "Modulus" | .subtraction => "Subtraction"
  | .addition => "Addition" | .bitwiseShift => "BitwiseShift" | .relational => "Relational"
  | .in => "In" | .instanceof => "Instanceof" | .equality => "Equality"
  | .bitwiseAnd => "BitwiseAnd" | .bitwiseXor => "BitwiseXor" | .bitwiseOr => "BitwiseOr"
  | .logicalAnd => "LogicalAnd" | .logicalOr => "LogicalOr" | .conditional => "Conditional"
  | .assignment => "Assignment" | .yield => "Yield" | .comma => "Comma" | .none => "None"

/-- The order with a given name. -/
def ofName? (s : String) : Option Order :=
  all.find? (·.name == s)

/-- The precedence in tenths: `member` is `12`, that is 1.2. -/
def tenths : Order → Nat
  | .atomic => 0 | .new => 11 | .member => 12 | .functionCall => 20
  | .increment | .decrement => 30
  | .bitwiseNot => 41 | .unaryPlus => 42 | .unaryNegation => 43 | .logicalNot => 44
  | .typeof => 45 | .void => 46 | .delete => 47 | .await => 48
  | .exponentiation => 50 | .multiplication => 51 | .division => 52 | .modulus => 53
  | .subtraction => 61 | .addition => 62 | .bitwiseShift => 70
  | .relational | .in | .instanceof => 80
  | .equality => 90 | .bitwiseAnd => 100 | .bitwiseXor => 110 | .bitwiseOr => 120
  | .logicalAnd => 130 | .logicalOr => 140 | .conditional => 150 | .assignment => 160
  | .yield => 170 | .comma => 180 | .none => 990

/-- The precedence class: the integer part of the precedence. -/
def «class» (o : Order) : Nat := o.tenths / 10

/-- Pairs whose nesting reads the same with or without parentheses. -/
def associative : List (Order × Order) :=
  [(.functionCall, .member), (.functionCall, .functionCall), (.member, .member),
   (.member, .functionCall), (.logicalNot, .logicalNot), (.multiplication, .multiplication),
   (.addition, .addition), (.logicalAnd, .logicalAnd), (.logicalOr, .logicalOr)]

/-- Whether an expression of order `inner` needs parentheses inside one of order `outer`. -/
def needsParentheses (outer inner : Order) : Bool :=
  if outer.class > inner.class then false
  else if outer.class == inner.class && (outer.class == 0 || outer.class == 99) then false
  else !associative.contains (outer, inner)

end Order

end Blockwork.Code
