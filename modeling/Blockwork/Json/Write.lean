import Blockwork.Json.Value

/-!
# Writing JSON

Two layouts of the same text: `compact` with no whitespace at all, and `pretty` with one entry
per line, two spaces of indentation per level, and `": "` between a key and its value. Empty
arrays and objects are written `[]` and `{}` in both.

Strings are escaped minimally: the quote, the backslash and the control characters below
U+0020; the five common controls use their short escapes, the others `\u00xx` with lowercase
hex digits. Every other character, including non-ASCII, is written as is.
-/

namespace Blockwork.Json

/-- Lowercase hexadecimal digit of a value below 16. -/
def hexDigit (n : Nat) : Char :=
  if n < 10 then Char.ofNat (48 + n) else Char.ofNat (87 + n)

/-- The escaped form of one character inside a JSON string. -/
def escapeChar (c : Char) : List Char :=
  if c = '"' then ['\\', '"']
  else if c = '\\' then ['\\', '\\']
  else if c = '\n' then ['\\', 'n']
  else if c = '\r' then ['\\', 'r']
  else if c = '\t' then ['\\', 't']
  else if c.toNat = 8 then ['\\', 'b']
  else if c.toNat = 12 then ['\\', 'f']
  else if c.toNat < 32 then ['\\', 'u', '0', '0', hexDigit (c.toNat / 16), hexDigit (c.toNat % 16)]
  else [c]

/-- A string literal in JSON. -/
def quote (s : String) : String :=
  String.ofList ('"' :: (s.toList.flatMap escapeChar ++ ['"']))

mutual
/-- Compact JSON text. -/
def compact : Json → String
  | .null => "null"
  | .bool b => if b then "true" else "false"
  | .num n => n.text
  | .str s => quote s
  | .arr items => "[" ++ compactItems items ++ "]"
  | .obj entries => "\x7b" ++ compactEntries entries ++ "\x7d"

def compactItems : List Json → String
  | [] => ""
  | [x] => compact x
  | x :: xs => compact x ++ "," ++ compactItems xs

def compactEntries : List (String × Json) → String
  | [] => ""
  | [(k, v)] => quote k ++ ":" ++ compact v
  | (k, v) :: es => quote k ++ ":" ++ compact v ++ "," ++ compactEntries es
end

/-- Two spaces per level. -/
def indentOf (level : Nat) : String :=
  String.ofList (List.replicate (2 * level) ' ')

mutual
/-- Pretty JSON text at nesting `level` (the first line is not indented). -/
def prettyAt (level : Nat) : Json → String
  | .arr [] => "[]"
  | .obj [] => "\x7b\x7d"
  | .arr items => "[\n" ++ prettyItems (level + 1) items ++ "\n" ++ indentOf level ++ "]"
  | .obj entries => "\x7b\n" ++ prettyEntries (level + 1) entries ++ "\n" ++ indentOf level ++ "\x7d"
  | j => compact j

def prettyItems (level : Nat) : List Json → String
  | [] => ""
  | [x] => indentOf level ++ prettyAt level x
  | x :: xs => indentOf level ++ prettyAt level x ++ ",\n" ++ prettyItems level xs

def prettyEntries (level : Nat) : List (String × Json) → String
  | [] => ""
  | [(k, v)] => indentOf level ++ quote k ++ ": " ++ prettyAt level v
  | (k, v) :: es => indentOf level ++ quote k ++ ": " ++ prettyAt level v ++ ",\n" ++ prettyEntries level es
end

/-- Pretty JSON text. -/
def pretty (j : Json) : String := prettyAt 0 j

end Blockwork.Json
