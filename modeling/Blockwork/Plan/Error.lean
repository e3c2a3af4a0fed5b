import Blockwork.Block.Registry

/-!
# Errors of block plans

A block plan is checked when it is built (names, variant trees, templates) and again when a block
is made from it (the registry must know every input kind and field type, and every field must
accept its arguments and default). Switching a block's variant can fail as well.
-/

namespace Blockwork

/-- Why a block plan cannot be built, or cannot act on a block. -/
inductive PlanError where
  | emptyVariants (branch : String)
  | unknownParameter (variant name : String)
  | nameCollision (variant name : String)
  | duplicateName (variant name : String)
  | unknownVariant (branch variant : String)
  | unknownBranch (branch : String)
  | uninitialized
  /-- The code template of a variant does not parse. -/
  | template (variant : String)
  | registry (e : RegistryError)
  | field (e : FieldError)

/-- The text of a plan error. -/
def PlanError.message : PlanError → String
  | .emptyVariants b => "No variants found in branch plan '" ++ b ++ "'"
  | .unknownParameter v n => "Variant '" ++ v ++ "' has no such input or field: '" ++ n ++ "'"
  | .nameCollision v n => "Variant '" ++ v ++ "' declares '" ++ n ++ "' as both an input and a field"
  | .duplicateName v n => "Variant '" ++ v ++ "' declares '" ++ n ++ "' more than once"
  | .unknownVariant b v => "Branch '" ++ b ++ "' has no variant named '" ++ v ++ "'"
  | .unknownBranch b => "Block has no variant branch named '" ++ b ++ "'"
  | .uninitialized => "Block has not been initialized with a variant tree"
  | .template v => "Invalid template for '" ++ v ++ "'"
  | .registry e => e.message
  | .field e => e.message

end Blockwork
