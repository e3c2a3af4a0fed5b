import Blockwork.Decimal.Nearest

/-!
# The command line

The command-line tool takes the path of a block library and a command:

* `toolbox [-b|--base <BASE>]` prints the toolbox the library's blocks are listed in, extending
  the toolbox in `BASE` when given;
* `generate <STATE_PATH> [--indent <INDENT>] [--strict]` prints the code of the block trees in
  `STATE_PATH`;
* `help [COMMAND]...` prints help.

`-h`/`--help` prints help and `-V`/`--version` the version. Arguments are read the usual way:
a name that is a command starts it wherever it appears, `--` ends the options, an option's value
is the next argument or follows `=` (or, for a short option, follows the letter). A misspelt
command or option is answered with the closest names, by the Jaro similarity of the texts
(above 0.7).

`parse` turns the arguments into an `Invocation`, or into the text to print and the exit status
(0 for help and version, 2 for a usage error).
-/

namespace Blockwork.Cli

/-- What the tool prints and its exit status. -/
structure Outcome where
  status : Nat
  stdout : String := ""
  stderr : String := ""

/-- A command of the tool. -/
inductive Command where
  | toolbox (base : Option String)
  | generate (state : String) (indent : String) (strict : Bool)

/-- A parsed command line. -/
structure Invocation where
  library : String
  command : Command

/-- The result of parsing a command line. -/
inductive Parsed where
  | run (i : Invocation)
  | answer (o : Outcome)

/-! ### Texts -/

/-- The version line. -/
def versionText : String := "blockplan 0.1.0\n"

/-- The help of the tool. -/
def mainHelp : String :=
  "A declarative block-plan compiler for visual block-based programming editors\n\n" ++
  "Usage: blockplan-cli <LIBRARY_PATH> <COMMAND>\n\n" ++
  "Commands:\n" ++
  "  toolbox   Print the toolbox the library's blocks are listed in\n" ++
  "  generate  Generate code from a block state JSON file (a single block tree or an array of them)\n" ++
  "  help      Print this message or the help of the given subcommand(s)\n\n" ++
  "Arguments:\n" ++
  "  <LIBRARY_PATH>  Path to the block library JSON file\n\n" ++
  "Options:\n" ++
  "  -h, --help     Print help\n" ++
  "  -V, --version  Print version\n"

/-- The help of `toolbox`. -/
def toolboxHelp : String :=
  "Print the toolbox the library's blocks are listed in\n\n" ++
  "Usage: blockplan-cli <LIBRARY_PATH> toolbox [OPTIONS]\n\n" ++
  "Options:\n" ++
  "  -b, --base <BASE>  Optional toolbox JSON to extend instead of an empty one\n" ++
  "  -h, --help         Print help\n"

/-- The help of `generate`. -/
def generateHelp : String :=
  "Generate code from a block state JSON file (a single block tree or an array of them)\n\n" ++
  "Usage: blockplan-cli <LIBRARY_PATH> generate [OPTIONS] <STATE_PATH>\n\n" ++
  "Arguments:\n" ++
  "  <STATE_PATH>  \n\n" ++
  "Options:\n" ++
  "      --indent <INDENT>  Indent used for nested statements [default: \"  \"]\n" ++
  "      --strict           Fail instead of commenting out blocks that cannot be generated\n" ++
  "  -h, --help             Print help\n"

/-- The help of `help`. -/
def helpHelp : String :=
  "Print this message or the help of the given subcommand(s)\n\n" ++
  "Usage: blockplan-cli <LIBRARY_PATH> help [COMMAND]...\n\n" ++
  "Arguments:\n" ++
  "  [COMMAND]...  Print help for the subcommand(s)\n"

/-- A usage error: the message, tips, the usage line and the pointer to help. -/
def usageError (message : String) (tips : List String) (usage : String) : Outcome :=
  { status := 2,
    stderr := "error: " ++ message ++ "\n" ++
      (if tips.isEmpty then "" else "\n" ++ String.join (tips.map fun t => "  tip: " ++ t ++ "\n")) ++
      "\nUsage: " ++ usage ++ "\n\nFor more information, try '--help'.\n" }

/-- Help printed on request. -/
def shown (text : String) : Outcome := { status := 0, stdout := text }

/-! ### Similar names -/

/-- The Jaro similarity of two texts, from 0 (nothing in common) to 1 (equal). -/
def jaro (a b : List Char) : Float :=
  let la := a.length
  let lb := b.length
  if la == 0 && lb == 0 then 1.0
  else if la == 0 || lb == 0 then 0.0
  else
    let range := (max la lb) / 2 - 1
    -- match each character of `a` with the first free equal character of `b` in range
    let (aFlags, bFlags, hits) := (List.range la).zip a |>.foldl (fun (af, bf, m) (i, ch) =>
      let lo := i - range
      let hi := min lb (i + range + 1)
      match (List.range hi).find? fun j => lo ≤ j && b[j]? == some ch && !(bf[j]?.getD true) with
      | some j => (af ++ [true], bf.set j true, m + 1)
      | none => (af ++ [false], bf, m)) ([], List.replicate lb false, 0)
    if hits == 0 then 0.0
    else
      let fromA := (aFlags.zip a).filterMap fun (f, c) => if f then some c else none
      let fromB := (bFlags.zip b).filterMap fun (f, c) => if f then some c else none
      let t := ((fromA.zip fromB).filter fun (x, y) => x != y).length / 2
      let m := hits.toFloat
      (m / la.toFloat + m / lb.toFloat + (hits - t).toFloat / m) / 3.0

/-- The names similar to a text, least similar first. -/
def similar (text : String) (names : List String) : List String :=
  let scored := names.filterMap fun n =>
    let s := jaro text.toList n.toList
    if s > 0.7 then some (s, n) else none
  (scored.mergeSort fun x y => x.1 ≤ y.1).map (·.2)

/-- The tip naming similar names. -/
def similarTip (kind : String) (names : List String) : String :=
  match names with
  | [n] => "a similar " ++ kind ++ " exists: '" ++ n ++ "'"
  | _ => "some similar " ++ kind ++ "s exist: " ++ ", ".intercalate (names.map fun n => "'" ++ n ++ "'")

/-! ### Commands -/

/-- An option of a command: its long name, its letter, and the name of its value when it takes
one. `help` and `version` show a text instead of being recorded. -/
structure Flag where
  long : String
  letter : Option Char := none
  value : Option String := none

/-- How an option is named in messages: `--name`, or `--name <VALUE>` when it takes a value. -/
def Flag.display (f : Flag) : String :=
  match f.value with
  | some v => "--" ++ f.long ++ " <" ++ v ++ ">"
  | none => "--" ++ f.long

/-- What a command accepts: the words its usage starts with, its positional arguments (all
required, by value name), its options in the order they are declared, its help text, and the
names of the commands that may follow it. -/
structure Shape where
  usageName : String
  positionals : List String
  flags : List Flag
  help : String
  commands : List String := []

/-- The tool itself: the library path, then a command. -/
def mainShape : Shape :=
  { usageName := "blockplan-cli", positionals := ["LIBRARY_PATH"],
    flags := [{ long := "help", letter := some 'h' }, { long := "version", letter := some 'V' }],
    help := mainHelp, commands := ["toolbox", "generate", "help"] }

/-- `toolbox`: an optional base toolbox. -/
def toolboxShape : Shape :=
  { usageName := "blockplan-cli <LIBRARY_PATH> toolbox", positionals := [],
    flags := [{ long := "base", letter := some 'b', value := some "BASE" },
              { long := "help", letter := some 'h' }],
    help := toolboxHelp }

/-- `generate`: the block state file, an indent and a switch. -/
def generateShape : Shape :=
  { usageName := "blockplan-cli <LIBRARY_PATH> generate", positionals := ["STATE_PATH"],
    flags := [{ long := "indent", value := some "INDENT" }, { long := "strict" },
              { long := "help", letter := some 'h' }],
    help := generateHelp }

/-- The option of a command with a long name. -/
def Shape.flag? (s : Shape) (long : String) : Option Flag := s.flags.find? (·.long == long)

/-- How an argument is named in messages: an option by its display, a positional by `<NAME>`. -/
def Shape.display (s : Shape) (id : String) : String :=
  match s.flag? id with
  | some f => f.display
  | none => "<" ++ id ++ ">"

/-- The full usage line: `[OPTIONS]` when the command has options besides help and version. -/
def Shape.fullUsage (s : Shape) : String :=
  s.usageName ++
    (if s.flags.any (fun f => f.long != "help" && f.long != "version") then " [OPTIONS]" else "") ++
    String.join (s.positionals.map fun p => " <" ++ p ++ ">") ++
    (if s.commands.isEmpty then "" else " <COMMAND>")

/-- The usage line naming the options used, in the order first used, then every positional. -/
def Shape.usedUsage (s : Shape) (used : List String) : String :=
  let options := used.foldl (fun acc id =>
    if s.positionals.contains id || acc.contains id then acc else acc ++ [id]) []
  s.usageName ++ String.join (options.map fun id => " " ++ s.display id) ++
    String.join (s.positionals.map fun p => " <" ++ p ++ ">") ++
    (if s.commands.isEmpty then "" else " <COMMAND>")

/-- The usage line of an error: the full one when nothing was used yet. -/
def Shape.usage (s : Shape) (used : List String) : String :=
  if used.isEmpty then s.fullUsage else s.usedUsage used

/-! ### Reading arguments

Arguments are read one by one. A positional argument, and an option whose value is read, wait
until the next argument that is taken settles them; only then are they recorded, and an option
recorded twice is refused (and dropped). An option without its value waits for the next
argument. After `--` every argument is positional. -/

/-- What has been read of a command's arguments. -/
structure Reading where
  /-- The arguments recorded, in order, with their values (empty for a switch). -/
  taken : List (String × String) := []
  /-- The argument waiting to be recorded, and its value once read. -/
  pending : Option (String × Option String) := none
  /-- Whether `--` was seen. -/
  trailing : Bool := false
  /-- How many positional arguments were read. -/
  count : Nat := 0

/-- The names of the arguments recorded, in order. -/
def Reading.used (r : Reading) : List String := r.taken.map (·.1)

/-- The value recorded for an argument. -/
def Reading.value? (r : Reading) (id : String) : Option String := r.taken.lookup id

/-- The failure of an option given without its value. -/
def missingValue (option : String) : Outcome :=
  { status := 2,
    stderr := "error: a value is required for '" ++ option ++ "' but none was supplied\n\nFor more information, try '--help'.\n" }

/-- The failure of an option given twice. -/
def givenTwice (s : Shape) (id : String) : Outcome :=
  usageError ("the argument '" ++ s.display id ++ "' cannot be used multiple times") [] s.fullUsage

/-- Records an argument with its value; one recorded before is refused and dropped. -/
def record (s : Shape) (id value : String) (r : Reading) : Option Outcome × Reading :=
  if r.taken.any (·.1 == id) then (some (givenTwice s id), { r with taken := r.taken.filter (·.1 != id) })
  else (none, { r with taken := r.taken ++ [(id, value)] })

/-- Settles the waiting argument: records it with its value, or fails when it has none. -/
def settle (s : Shape) (r : Reading) : Option Outcome × Reading :=
  match r.pending with
  | none => (none, r)
  | some (id, none) => (some (missingValue (s.display id)), { r with pending := none })
  | some (id, some v) => record s id v { r with pending := none }

/-- Settles the waiting argument, stopping on a failure. -/
def settled (s : Shape) (r : Reading) : Except Outcome Reading :=
  match settle s r with
  | (some o, _) => .error o
  | (none, r) => .ok r

/-- Settles the waiting argument, then records an argument, stopping on a failure. -/
def take (s : Shape) (id value : String) (r : Reading) : Except Outcome Reading := do
  let r ← settled s r
  match record s id value r with
  | (some o, _) => throw o
  | (none, r) => pure r

/-- Settles the waiting argument, then shows a help or version text; an ordinary switch is
recorded instead. -/
def takeSwitch (s : Shape) (f : Flag) (r : Reading) : Except Outcome Reading := do
  if f.long == "help" then
    let _ ← settled s r
    throw (shown s.help)
  else if f.long == "version" then
    let _ ← settled s r
    throw (shown versionText)
  else take s f.long "" r

/-- Settles the waiting argument, then makes an option wait for its value. -/
def await (s : Shape) (f : Flag) (r : Reading) : Except Outcome Reading := do
  let r ← settled s r
  pure { r with pending := some (f.long, none) }

/-- The commands shapes of which a misspelt option may belong to. -/
def commandShapes : List (String × Shape) :=
  [("toolbox", toolboxShape), ("generate", generateShape)]

/-- A command named later on the line that has an option like `name`: the command nearest. -/
def laterOption (name : String) (later : List String) : Option (String × String) :=
  let found := commandShapes.filterMap fun (c, sh) =>
    match (similar name (sh.flags.map (·.long))).getLast?, later.idxOf? c with
    | some f, some i => some (i, c, f)
    | _, _ => none
  match found.foldl (fun best x =>
      match best with
      | some b => if x.1 < b.1 then some x else best
      | none => some x) none with
  | some (_, c, f) => some (c, f)
  | none => none

/-- An unknown long option: a similar option of the command, or one of a command named later,
or (for a command with positional arguments) how to pass it as a value. -/
def unknownLong (s : Shape) (name : String) (later : List String) (r : Reading) : Outcome :=
  let (_, r) := settle s r
  let message := "unexpected argument '--" ++ name ++ "' found"
  match (similar name (s.flags.map (·.long))).getLast? with
  | some f =>
    let r := if r.taken.any (·.1 == f) then r else { r with taken := r.taken ++ [(f, "")] }
    usageError message [similarTip "argument" ["--" ++ f]] (s.usage r.used)
  | none =>
    let other := if s.commands.isEmpty then none else laterOption name later
    let tips := match other with
      | some (c, f) => ["'" ++ c ++ " --" ++ f ++ "' exists"]
      | none =>
        if !r.trailing && !s.positionals.isEmpty then
          ["to pass '--" ++ name ++ "' as a value, use '-- --" ++ name ++ "'"]
        else []
    usageError message tips (s.usage r.used)

/-- A positional argument beyond those the command takes. -/
def surplus (s : Shape) (arg : String) (r : Reading) : Outcome :=
  if r.trailing && s.commands.contains arg then
    usageError ("unexpected argument '" ++ arg ++ "' found")
      ["subcommand '" ++ arg ++ "' exists; to use it, remove the '--' before it"] s.fullUsage
  else
    match (if s.commands.isEmpty then [] else similar arg s.commands) with
    | [] => usageError ("unexpected argument '" ++ arg ++ "' found") [] s.fullUsage
    | names => usageError ("unrecognized subcommand '" ++ arg ++ "'") [similarTip "subcommand" names] s.fullUsage

/-- Reads the letters of a short option group such as `-hb` or `-bvalue`. -/
def readLetters (s : Shape) : List Char → Reading → Except Outcome Reading
  | [], r => pure r
  | c :: cs, r =>
    match s.flags.find? (·.letter == some c) with
    | some f =>
      match f.value with
      | none => do readLetters s cs (← takeSwitch s f r)
      | some _ =>
        match cs with
        | [] => await s f r
        | '=' :: v => take s f.long (String.ofList v) r
        | v => take s f.long (String.ofList v) r
    | none =>
      let (_, r) := settle s r
      .error (usageError ("unexpected argument '-" ++ c.toString ++ "' found")
        (if !r.trailing && !s.positionals.isEmpty then
          ["to pass '-" ++ c.toString ++ "' as a value, use '-- -" ++ c.toString ++ "'"] else [])
        s.fullUsage)

/-- Reads one long option, `--name` or `--name=value`; `later` are the arguments after it. -/
def readLong (s : Shape) (body : String) (later : List String) (r : Reading) :
    Except Outcome Reading :=
  let (name, value) := match body.splitOn "=" with
    | n :: v :: more => (n, some ("=".intercalate (v :: more)))
    | _ => (body, none)
  match s.flag? name with
  | none => .error (unknownLong s name later r)
  | some f =>
    match f.value, value with
    | some _, some v => take s f.long v r
    | some _, none => await s f r
    | none, none => takeSwitch s f r
    | none, some v =>
      let used := (r.used.filter fun id => !s.positionals.contains id) ++ [f.long]
      .error (usageError ("unexpected value '" ++ v ++ "' for '" ++ f.display ++
        "' found; no more were expected") [] (s.usage used))

/-- Reads a positional argument, or refuses one too many. -/
def readPositional (s : Shape) (arg : String) (r : Reading) : Except Outcome Reading :=
  match s.positionals[r.count]? with
  | some p => do
    let r ← settled s r
    pure { r with pending := some (p, some arg), count := r.count + 1 }
  | none =>
    let (_, r) := settle s r
    .error (surplus s arg r)

/-- Whether the waiting argument is an option still without its value. -/
def Reading.awaiting (r : Reading) : Bool :=
  match r.pending with
  | some (_, none) => true
  | _ => false

/-- Reads one argument that is not a command name; `later` are the arguments after it. -/
def readOne (s : Shape) (arg : String) (later : List String) (r : Reading) :
    Except Outcome Reading :=
  if r.trailing then readPositional s arg r
  else if arg == "--" then do
    let r ← settled s r
    pure { r with trailing := true }
  else if arg.startsWith "--" then readLong s (arg.drop 2).toString later r
  else if arg.startsWith "-" && arg.length > 1 then readLetters s (arg.toList.drop 1) r
  else if r.awaiting then pure { r with pending := r.pending.map fun (id, _) => (id, some arg) }
  else readPositional s arg r

/-- Reads all arguments of a command without commands of its own, then checks that every
positional argument was given. -/
def readAll (s : Shape) : List String → Reading → Except Outcome Reading
  | [], r => do
    let r ← settled s r
    let missing := s.positionals.filter fun p => (r.value? p).isNone
    if missing.isEmpty then pure r
    else throw (usageError ("the following required arguments were not provided:" ++
      String.join (missing.map fun p => "\n  <" ++ p ++ ">")) [] (s.usage (r.used ++ missing)))
  | arg :: rest, r => do readAll s rest (← readOne s arg rest r)

/-- Help for a path of command names, or the error for an unknown one. -/
def helpFor : List String → Outcome
  | [] => shown mainHelp
  | "toolbox" :: [] => shown toolboxHelp
  | "generate" :: [] => shown generateHelp
  | "help" :: [] => shown helpHelp
  | "toolbox" :: n :: _ => usageError ("unrecognized subcommand '" ++ n ++ "'") [] toolboxShape.fullUsage
  | "generate" :: n :: _ => usageError ("unrecognized subcommand '" ++ n ++ "'") [] generateShape.fullUsage
  | "help" :: n :: _ =>
    usageError ("unrecognized subcommand '" ++ n ++ "'") [] "blockplan-cli <LIBRARY_PATH> help [COMMAND]..."
  | n :: _ => usageError ("unrecognized subcommand '" ++ n ++ "'") [] mainShape.fullUsage

/-- Finishes the tool's own arguments once a command has been read: the library path must have
been given. -/
def withLibrary (r : Reading) (command : Command) : Parsed :=
  match settled mainShape r with
  | .error o => .answer o
  | .ok r =>
    match r.value? "LIBRARY_PATH" with
    | some l => .run ⟨l, command⟩
    | none =>
      .answer (usageError "the following required arguments were not provided:\n  <LIBRARY_PATH>" []
        (mainShape.usage (r.used ++ ["LIBRARY_PATH"])))

/-- Reads the arguments of a command and builds it. -/
def readCommand (name : String) (args : List String) (r : Reading) : Parsed :=
  if name == "toolbox" then
    match readAll toolboxShape args {} with
    | .error o => .answer o
    | .ok t => withLibrary r (.toolbox (t.value? "base"))
  else
    match readAll generateShape args {} with
    | .error o => .answer o
    | .ok g =>
      withLibrary r (.generate ((g.value? "STATE_PATH").getD "") ((g.value? "indent").getD "  ")
        (g.value? "strict").isSome)

/-- Reads the tool's arguments up to its command. -/
def parseMain : List String → Reading → Parsed
  | [], r =>
    match settled mainShape r with
    | .error o => .answer o
    | .ok r =>
      if r.taken.isEmpty then .answer { status := 2, stderr := mainHelp }
      else .answer (usageError ("'blockplan-cli' requires a subcommand but one was not provided\n" ++
        "  [subcommands: toolbox, generate, help]") [] mainShape.fullUsage)
  | arg :: rest, r =>
    if !r.trailing && arg == "help" then .answer (helpFor rest)
    else if !r.trailing && (arg == "toolbox" || arg == "generate") then readCommand arg rest r
    else
      match readOne mainShape arg rest r with
      | .error o => .answer o
      | .ok r => parseMain rest r

/-- Reads a command line. -/
def parse (args : List String) : Parsed := parseMain args {}

end Blockwork.Cli
