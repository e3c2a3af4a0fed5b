import Blockwork.Json.Value
import Blockwork.Text.Quoted

/-!
# Errors of reading JSON

Reading JSON into a value of the library fails for two kinds of reasons: the text is not JSON
(`Syntax`), or it is JSON of the wrong shape for what is read (`Mismatch`). A failure carries the
position where it was found, as a line (from 1) and a column (bytes since the line began), when
it is known; a mismatch found in a value that was already read completely has none until the
enclosing reader gives it the position it has reached.
-/

namespace Blockwork.Json

/-- A place in JSON text: the line counts from 1, the column counts bytes of the line before
the place. -/
structure Position where
  line : Nat
  column : Nat
  deriving BEq, Repr

/-- Why a text is not JSON. -/
inductive Syntax where
  | eofInList
  | eofInObject
  | eofInString
  | eofInValue
  | expectedColon
  | expectedCommaOrBracket
  | expectedCommaOrBrace
  | expectedIdent
  | expectedValue
  | invalidEscape
  | invalidNumber
  | numberOutOfRange
  | controlCharacter
  | keyNotString
  | loneSurrogate
  | unfinishedSurrogatePair
  | trailingComma
  | trailingCharacters
  | tooDeep
  deriving BEq, Repr

/-- The text of a syntax failure. -/
def Syntax.message : Syntax → String
  | .eofInList => "EOF while parsing a list"
  | .eofInObject => "EOF while parsing an object"
  | .eofInString => "EOF while parsing a string"
  | .eofInValue => "EOF while parsing a value"
  | .expectedColon => "expected `:`"
  | .expectedCommaOrBracket => "expected `,` or `]`"
  | .expectedCommaOrBrace => "expected `,` or `\x7d`"
  | .expectedIdent => "expected ident"
  | .expectedValue => "expected value"
  | .invalidEscape => "invalid escape"
  | .invalidNumber => "invalid number"
  | .numberOutOfRange => "number out of range"
  | .controlCharacter => "control character (\\u0000-\\u001F) found while parsing a string"
  | .keyNotString => "key must be a string"
  | .loneSurrogate => "lone leading surrogate in hex escape"
  | .unfinishedSurrogatePair => "unexpected end of hex escape"
  | .trailingComma => "trailing comma"
  | .trailingCharacters => "trailing characters"
  | .tooDeep => "recursion limit exceeded"

/-- What was found where something else was expected. -/
inductive Found where
  | null
  | bool (b : Bool)
  | unsigned (n : Nat)
  | signed (i : Int)
  | float (f : Float)
  | str (s : String)
  | seq
  | map

/-- How a value is described in a mismatch. -/
def Found.describe : Found → String
  | .null => "null"
  | .bool b => "boolean `" ++ (if b then "true" else "false") ++ "`"
  | .unsigned n => "integer `" ++ toString n ++ "`"
  | .signed i => "integer `" ++ toString i ++ "`"
  | .float f => "floating point `" ++ Decimal.jsonText f ++ "`"
  | .str s => "string " ++ Text.quoted s
  | .seq => "sequence"
  | .map => "map"

/-- What a JSON value is, as a mismatch describes it. -/
def Found.ofJson : Json → Found
  | .null => .null
  | .bool b => .bool b
  | .num (.int i) => if 0 ≤ i then .unsigned i.toNat else .signed i
  | .num (.float f) => .float f
  | .str s => .str s
  | .arr _ => .seq
  | .obj _ => .map

/-- The names of a closed list of choices, as a mismatch lists them. -/
def oneOf : List String → String
  | [] => "there are no variants"
  | [a] => "expected `" ++ a ++ "`"
  | [a, b] => "expected `" ++ a ++ "` or `" ++ b ++ "`"
  | names => "expected one of " ++ ", ".intercalate (names.map (fun n => "`" ++ n ++ "`"))

/-- Why well-formed JSON does not have the shape that is read. -/
inductive Mismatch where
  | invalidType (found : Found) (expected : String)
  | invalidValue (found : Found) (expected : String)
  | invalidLength (n : Nat) (expected : String)
  | missingField (name : String)
  | duplicateField (name : String)
  | unknownVariant (name : String) (choices : List String)
  | custom (text : String)

/-- The text of a mismatch. -/
def Mismatch.message : Mismatch → String
  | .invalidType found expected => "invalid type: " ++ found.describe ++ ", expected " ++ expected
  | .invalidValue found expected => "invalid value: " ++ found.describe ++ ", expected " ++ expected
  | .invalidLength n expected => "invalid length " ++ toString n ++ ", expected " ++ expected
  | .missingField name => "missing field `" ++ name ++ "`"
  | .duplicateField name => "duplicate field `" ++ name ++ "`"
  | .unknownVariant name choices =>
    match choices with
    | [] => "unknown variant `" ++ name ++ "`, there are no variants"
    | _ => "unknown variant `" ++ name ++ "`, " ++ oneOf choices
  | .custom text => text

/-- A failure of reading, with its position when known. -/
structure ReadError where
  cause : Syntax ⊕ Mismatch
  position : Option Position

/-- The text of a failure: the cause, then `at line L column C` when the position is known. -/
def ReadError.message (e : ReadError) : String :=
  let text := match e.cause with
    | .inl s => s.message
    | .inr m => m.message
  match e.position with
  | some p => text ++ " at line " ++ toString p.line ++ " column " ++ toString p.column
  | none => text

/-- A mismatch with no position yet. -/
def ReadError.ofMismatch (m : Mismatch) : ReadError := ⟨.inr m, none⟩

end Blockwork.Json
