import Blockwork.Field.Make

/-!
# Inputs and connections

A block is laid out as a line of inputs. An input is either a socket (a value or statement
input, with a `Connection` that another block plugs into) or a layout row (a dummy input, or an
end-of-row input) with no connection. Every input carries the row of fields shown before it,
given as indices into the block's field arena.

A connection may restrict what plugs into it: `check = none` accepts anything, `some types`
accepts a block whose own check shares one of the types (or accepts anything).
-/

namespace Blockwork

/-- The kind of an input, named as the registry names it. Kinds beyond the four built-in ones
are carried by name. -/
inductive InputKind where
  | value
  | statement
  | dummy
  | endRow
  | custom (name : String)
  deriving BEq, DecidableEq, Repr, Inhabited

/-- The registry key of an input kind. -/
def InputKind.registryName : InputKind → String
  | .value => "value"
  | .statement => "statement"
  | .dummy => "dummy"
  | .endRow => "end_row"
  | .custom name => name

/-- A typed connection point and the block on its other end. -/
structure Connection where
  check : Option (List String) := none
  target : Option Nat := none
  deriving BEq, Repr

/-- Two checks are compatible when either accepts anything or they share a type. -/
def Connection.compatible (a b : Connection) : Bool :=
  match a.check, b.check with
  | some ours, some theirs => ours.any (theirs.contains ·)
  | _, _ => true

/-- Disables a connection, or enables it with a new check, keeping the block it holds. -/
def Connection.toggle (existing : Option Connection) (enabled : Bool)
    (check : Option (List String)) : Option Connection :=
  if enabled then some { (existing.getD {}) with check := check } else none

/-- An input of a block. -/
structure Input where
  name : Option String
  kind : InputKind
  fieldRow : List Nat := []
  connection : Option Connection
  deriving Repr

/-- A fresh input of a kind: value and statement inputs have a connection, other kinds do not. -/
def Input.ofKind (name : Option String) (kind : InputKind) : Input :=
  { name := name, kind := kind,
    connection := match kind with
      | .value | .statement => some {}
      | _ => none }

/-- The block plugged into an input. -/
def Input.target (i : Input) : Option Nat := i.connection.bind (·.target)

end Blockwork
