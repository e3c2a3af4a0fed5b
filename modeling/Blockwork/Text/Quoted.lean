import Blockwork.Text.Printable

/-!
# Quoted text for diagnostics

Diagnostics show names and type lists as quoted literals: `"A"`, `Some(["A", "B"])`, `None`.
Inside the quotes a backslash escapes the quote and the backslash, the tab, carriage return,
line feed and NUL have short escapes, and the characters that `writtenEscaped` picks out are
written `\u{hex}` with lowercase digits and no padding. All other characters stand for
themselves.
-/

namespace Blockwork.Text

/-- Hexadecimal digits of `n`, most significant first, with no padding. -/
def hexDigits (n : Nat) : List Char :=
  (Nat.toDigits 16 n)

/-- One character inside a quoted literal. -/
def quoteChar (c : Char) : List Char :=
  if c = '"' then ['\\', '"']
  else if c = '\\' then ['\\', '\\']
  else if c = '\n' then ['\\', 'n']
  else if c = '\r' then ['\\', 'r']
  else if c = '\t' then ['\\', 't']
  else if c.toNat = 0 then ['\\', '0']
  else if writtenEscaped c then ['\\', 'u', '\x7b'] ++ hexDigits c.toNat ++ ['\x7d']
  else [c]

/-- A string as a quoted literal. -/
def quoted (s : String) : String :=
  String.ofList ('"' :: (s.toList.flatMap quoteChar ++ ['"']))

/-- A list of strings as a bracketed list of quoted literals: `["A", "B"]`. -/
def quotedList (xs : List String) : String :=
  "[" ++ ", ".intercalate (xs.map quoted) ++ "]"

/-- An optional list of strings: `None` or `Some([...])`. -/
def quotedOptionList : Option (List String) → String
  | none => "None"
  | some xs => "Some(" ++ quotedList xs ++ ")"

end Blockwork.Text
