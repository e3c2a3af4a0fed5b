import Blockwork.Decode.Palette
import Blockwork.Code.Generate

/-!
# Block libraries

A library is a named list of block declarations and the messages they are localized with.
Compiling it builds one plan per block, in order, stopping at the first that fails. Registering
it also defines every block type with a host and lists every block in a toolbox.
-/

namespace Blockwork

/-- Why a library could not be read or registered. -/
inductive LibraryError where
  | parse (e : Json.ReadError)
  | plan (e : PlanError)
  | host (e : HostError)

/-- The text of a library error. -/
def LibraryError.message : LibraryError → String
  | .parse e => "Failed to parse block library JSON: " ++ e.message
  | .plan e => e.message
  | .host e => e.message

/-- Lists a plan's block in each of its categories, creating the missing ones. -/
def BlockPlan.defineToolboxEntry (p : BlockPlan) (t : Toolbox) : Toolbox :=
  t.addBlock p.entryState p.categories

namespace LibraryData

/-- Reads a library from JSON text. -/
def parse (text : String) : Except LibraryError LibraryData :=
  (Decode.readLibrary text).mapError .parse

/-- Builds the plans of every block, localized with the library's messages. -/
def compile (lib : LibraryData) : Except PlanError (List BlockPlan) :=
  lib.blocks.mapM fun d => BlockPlan.build d ⟨lib.messages⟩ []

/-- Compiles the library, defines its block types with a host and lists its blocks in a
toolbox. -/
def register (lib : LibraryData) (host : Host) (toolbox : Toolbox) :
    Except LibraryError (Host × Toolbox) := do
  let plans ← lib.compile.mapError .plan
  plans.foldlM (fun (h, t) p => do
    let h ← (h.define p).mapError .host
    pure (h, p.defineToolboxEntry t)) (host, toolbox)

end LibraryData

end Blockwork
