import Blockwork.Plan.Block

/-!
# The host

The host holds what blocks are made from: the class registry, the block types defined by plans,
and the code generator of each type. A type's generator is normally the one each block carries
(the generator of its active variant); it can be replaced by one generator for every block of the
type, even for a type not yet defined.
-/

namespace Blockwork

/-- Why a host or workspace operation failed. -/
inductive HostError where
  | duplicateBlockType (type : String)
  | unknownBlockType (type : String)
  | noSuchBlock (id : Nat)
  | noSuchInput (type input : String)
  | noSuchField (type field : String)
  | connection (parentType childType message : String)
  | plan (e : PlanError)
  | field (e : FieldError)

/-- The text of a host error. -/
def HostError.message : HostError → String
  | .duplicateBlockType t => "Block type '" ++ t ++ "' is already defined"
  | .unknownBlockType t => "Block type '" ++ t ++ "' is not defined"
  | .noSuchBlock id => "Block " ++ toString id ++ " does not exist in this workspace"
  | .noSuchInput t i => "Block '" ++ t ++ "' has no input named '" ++ i ++ "'"
  | .noSuchField t f => "Block '" ++ t ++ "' has no field named '" ++ f ++ "'"
  | .connection p c m => "Cannot connect '" ++ c ++ "' to '" ++ p ++ "': " ++ m
  | .plan e => e.message
  | .field e => e.message

/-- How blocks of a type generate code. -/
inductive TypeGenerator where
  /-- Each block uses the generator it carries. -/
  | attached
  /-- Every block of the type uses this generator. -/
  | direct (g : Code.Generator)

/-- Block types and their generators over a class registry. -/
structure Host where
  classes : Registry := .builtin
  definitions : List (String × BlockPlan) := []
  generators : List (String × TypeGenerator) := []

namespace Host

/-- Defines a type, replacing any definition of the name; says whether one was replaced. The
type's generator becomes the blocks' own. -/
def redefine (h : Host) (p : BlockPlan) : Host × Bool :=
  ({ h with definitions := setKey h.definitions p.name p,
            generators := setKey h.generators p.name .attached },
   (h.definitions.lookup p.name).isSome)

/-- Defines a new type; a name already defined is refused. -/
def define (h : Host) (p : BlockPlan) : Except HostError Host :=
  if (h.definitions.lookup p.name).isSome then .error (.duplicateBlockType p.name)
  else .ok (h.redefine p).1

/-- Whether a type is defined. -/
def isDefined (h : Host) (name : String) : Bool := (h.definitions.lookup name).isSome

/-- The plan of a defined type. -/
def definition (h : Host) (name : String) : Except HostError BlockPlan :=
  match h.definitions.lookup name with
  | some p => .ok p
  | none => .error (.unknownBlockType name)

/-- Replaces the generator of every block of a type. -/
def setGenerator (h : Host) (name : String) (g : Code.Generator) : Host :=
  { h with generators := setKey h.generators name (.direct g) }

/-- The generator of a type. -/
def generator? (h : Host) (name : String) : Option TypeGenerator := h.generators.lookup name

end Host

end Blockwork
