/-!
# Block messages and their tokens

A block message is the text a block shows, such as `roll %{DICE} and keep %{COUNT}`. Its tokens
are, in order, the runs of plain text, the line breaks and the `%{NAME}` references to the
block's inputs and fields.

Before scanning, every two-character sequence backslash-`n` becomes a line break, so messages
written in data files can break lines. The scan then takes, at each place, the first of:

* a reference: `%{`, one or more characters other than `}`, and `}`;
* a line break;
* a run of characters that are neither line breaks nor `%`.

It stops at the end of the message, or at a `%` that does not open a complete reference; the
rest of the message is then dropped.
-/

namespace Blockwork.Message

/-- A piece of a block message. -/
inductive Token where
  | text (s : String)
  | newline
  | param (name : String)
  deriving BEq, DecidableEq, Repr

namespace Token

/-- The token's value: the text, a line break, or the referenced name. -/
def value : Token → String
  | .text s => s
  | .newline => "\n"
  | .param name => name

/-- How the token is written in a message: the text, the two characters backslash-`n`, or
`%{NAME}`. -/
def display : Token → String
  | .text s => s
  | .newline => "\\n"
  | .param name => "%\x7b" ++ name ++ "\x7d"

end Token

/-- Replaces each backslash-`n` pair by a line break, left to right. -/
def unescapeNewlines : List Char → List Char
  | '\\' :: 'n' :: r => '\n' :: unescapeNewlines r
  | c :: r => c :: unescapeNewlines r
  | [] => []

/-- Characters that can stand in a run of plain text. -/
def isPlain (c : Char) : Bool := c != '\n' && c != '%'

/-- Characters that can stand in a reference name. -/
def isNameChar (c : Char) : Bool := c != '\x7d'

/-- Dropping a leading run never lengthens a list: this is what makes each step of the scan
shorten the text it still has to read. -/
theorem length_dropWhile_le (p : Char → Bool) (cs : List Char) :
    (cs.dropWhile p).length ≤ cs.length := by
  induction cs with
  | nil => simp
  | cons c r ih =>
    simp only [List.dropWhile]
    split
    · exact Nat.le_succ_of_le ih
    · exact Nat.le_refl _

/-- A leading run followed by one more character leaves a tail shorter than the text. -/
theorem length_lt_of_dropWhile_eq_cons {p : Char → Bool} {cs rest : List Char} {c : Char}
    (h : cs.dropWhile p = c :: rest) : rest.length < cs.length := by
  have := length_dropWhile_le p cs
  rw [h, List.length_cons] at this
  omega

/-- Scans unescaped message text into tokens; see the module comment. -/
def scan : List Char → List Token
  | [] => []
  | c :: r =>
    if c = '\n' then .newline :: scan r
    else if c = '%' then
      match r with
      | '\x7b' :: r' =>
        match h : r'.dropWhile isNameChar with
        | '\x7d' :: rest =>
          let name := r'.takeWhile isNameChar
          if name.isEmpty then []
          else
            have : rest.length < r'.length + 2 :=
              Nat.lt_of_lt_of_le (length_lt_of_dropWhile_eq_cons h) (Nat.le_add_right _ _)
            .param (String.ofList name) :: scan rest
        | _ => []
      | _ => []
    else
      have : (r.dropWhile isPlain).length < r.length + 1 :=
        Nat.lt_succ_of_le (length_dropWhile_le isPlain r)
      .text (String.ofList (c :: r.takeWhile isPlain)) :: scan (r.dropWhile isPlain)
termination_by cs => cs.length
decreasing_by all_goals simp only [List.length_cons]; omega

/-- The tokens of a block message. -/
def tokenize (message : String) : List Token :=
  scan (unescapeNewlines message.toList)

end Blockwork.Message
