import Blockwork.Cli.Run

/-!
# The command-line tool

The tool reads its files from the working directory, runs on its arguments and writes what the
run printed. A file that cannot be read is reported with the system's reason for it.
-/

namespace Blockwork.Cli

/-- The system's reason for a failed read, as the tool words it. -/
def ioReason : IO.Error → String
  | .noFileOrDirectory _ _ _ => "No such file or directory (os error 2)"
  | .permissionDenied _ _ _ => "Permission denied (os error 13)"
  | .inappropriateType _ 21 _ => "Is a directory (os error 21)"
  | .otherError 21 _ => "Is a directory (os error 21)"
  | e => toString e

/-- The files a command reads: the library, then the toolbox or the block states. -/
def Invocation.paths (i : Invocation) : List String :=
  match i.command with
  | .toolbox base => i.library :: base.toList
  | .generate path _ _ => [i.library, path]

/-- Reads files, keeping the reason for each one that cannot be read. -/
def readFiles (paths : List String) : IO (List (String × Except String String)) :=
  paths.mapM fun (p : String) => do
    try
      let text ← IO.FS.readFile p
      pure (p, .ok text)
    catch e =>
      pure (p, .error (ioReason e))

end Blockwork.Cli

/-- Runs the tool on the command line. -/
def main (args : List String) : IO UInt32 := do
  let o ← match Blockwork.Cli.parse args with
    | .answer o => pure o
    | .run i => do
      let files ← Blockwork.Cli.readFiles i.paths
      let read := fun (path : String) =>
        (files.lookup path).getD (.error "No such file or directory (os error 2)")
      pure (Blockwork.Cli.execute read i)
  IO.print o.stdout
  IO.eprint o.stderr
  pure o.status.toUInt32
