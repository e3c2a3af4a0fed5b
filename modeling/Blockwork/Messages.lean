import Blockwork.Json.Value

/-!
# Message tables

A library's messages are a JSON tree of named texts: `{"sum": {"MESSAGE": "%{A} plus %{B}"}}`.
A key such as `sum.MESSAGE` is split at every dot and followed through nested objects; the text
found at the end is the message. A number found there stands for its text; any other value, or
a missing step, means the table has no message for the key.
-/

namespace Blockwork

/-- A table of localized texts. -/
structure Messages where
  tree : Json := .null

namespace Messages

/-- Follows a dotted key through nested objects. -/
def find? (m : Messages) (key : String) : Option Json :=
  (key.splitOn ".").foldlM (fun node part => node.get? part) m.tree

/-- The text stored under a dotted key. -/
def lookup (m : Messages) (key : String) : Option String :=
  match m.find? key with
  | some (.str s) => some s
  | some (.num n) => some n.text
  | _ => none

end Messages

end Blockwork
