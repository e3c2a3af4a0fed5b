import Blockwork.Cli.Args
import Blockwork.Library

/-!
# Running the command line

The tool reads the library first, then carries out its command. A failure prints `Error:` and
its text on a line of its own after an empty line, on standard error, with status 1.

* `toolbox` reads the base toolbox if one is given, registers the library into it and prints it
  as indented JSON with a final newline.
* `generate` reads the block states (one state, or an array of them), registers the library,
  places every state in a new workspace and prints the workspace's code as it is; a block that
  cannot be generated becomes a comment, unless `--strict` makes it a failure.

Files are read through `read`, which gives a file's text or the system's reason for not giving
it.
-/

namespace Blockwork.Cli

/-- A failure of the tool. -/
def failure (message : String) : Outcome := { status := 1, stderr := "\nError: " ++ message ++ "\n" }

/-- The text of a library error as the tool reports it. -/
def registerMessage : LibraryError → String
  | .plan (.template v) => "Invalid template for '" ++ v ++ "'"
  | e => e.message

/-- Carries out a parsed command line. -/
def execute (read : String → Except String String) (i : Invocation) : Outcome :=
  match read i.library with
  | .error e => failure ("Failed to read library file '" ++ i.library ++ "': " ++ e)
  | .ok text =>
    match LibraryData.parse text with
    | .error e => failure e.message
    | .ok lib =>
      match i.command with
      | .toolbox base =>
        let start : Except Outcome Toolbox := match base with
          | none => .ok {}
          | some path =>
            match read path with
            | .error e => .error (failure ("Failed to read toolbox file '" ++ path ++ "': " ++ e))
            | .ok t =>
              match Decode.readToolbox t with
              | .ok tb => .ok tb
              | .error e => .error (failure ("Failed to parse toolbox: " ++ e.message))
        match start with
        | .error o => o
        | .ok tb =>
          match lib.register {} tb with
          | .error e => failure ("Failed to register library: " ++ registerMessage e)
          | .ok (_, tb) => { status := 0, stdout := Json.pretty tb.toJson ++ "\n" }
      | .generate path indent strict =>
        match read path with
        | .error e => failure ("Failed to read block state file '" ++ path ++ "': " ++ e)
        | .ok t =>
          match Json.parse t with
          | .error e => failure ("Failed to parse block state: " ++ e.message)
          | .ok v =>
            match Decode.statesOf v with
            | .error m => failure ("Invalid block state: " ++ m.message)
            | .ok states =>
              match lib.register {} {} with
              | .error e => failure ("Failed to register library: " ++ registerMessage e)
              | .ok (host, _) =>
                let placed := (states.forM fun s => do
                  let _ ← WorkspaceM.place host s
                  pure ()).run.run {}
                match placed with
                | (.error e, _) => failure ("Failed to place blocks: " ++ e.message)
                | (.ok (), ws) =>
                  let pass : Code.Pass := ⟨host, ws, { indent := indent, commentErrors := !strict }⟩
                  match pass.workspaceCode with
                  | .ok code => { status := 0, stdout := code }
                  | .error e => failure ("Code generation failed: " ++ e.message)

/-- Runs the tool on its arguments. -/
def run (read : String → Except String String) (args : List String) : Outcome :=
  match parse args with
  | .answer o => o
  | .run i => execute read i

end Blockwork.Cli
