import Blockwork.Template.Syntax
import Blockwork.Json.Read
import Blockwork.Decimal.Parse

/-!
# Code templates: reading

`Template.parse` reads Handlebars source into nodes, or fails when the source is not a
template (an unclosed tag or block, a close tag that names another block, an `{{else}}`
outside a block, a malformed literal).

Text between tags is kept as written, except for three rules of the language:

* **Escapes.** A backslash before `{{` makes the tag text (`\{{A}}` is the text `{{A}}`), and a
  run of backslashes before a tag loses its first backslash.
* **Whitespace control.** `{{~` removes the white space at the end of the text before the tag,
  `~}}` the white space at the start of the text after it; comments in between do not stop it.
  A comment opens with `{{!` exactly, and its own `~` does nothing. A comment whose `{{!` is
  followed by `--` (white space may stand between) runs to the next `--}}` if there is one, and
  to the next `}}` otherwise.
* **Standalone lines.** A block tag, `{{else}}`, a comment, a partial or a decorator that is
  alone on its line (only spaces and tabs before it from the start of the line, and a line
  break or the end of the source after it) takes its line with it: the spaces and tabs before
  it are removed, and so are the spaces, tabs and the line break after it.
* **Partial indentation.** A partial right after text that ends in a line break and spaces or
  tabs, or after text of spaces and tabs only, remembers those spaces and tabs. A standalone
  partial indents every line of its output with them; any other only the lines after the first.

A raw block `{{{{name}}}}…{{{{/name}}}}` keeps its body as text, apart from leading white space.
-/

namespace Blockwork.Template

/-- Characters skipped between the tokens of a tag. -/
def isGap (c : Char) : Bool := c == ' ' || c == '\t' || c == '\n' || c == '\r'

/-- Characters of names: letters, digits, `-`, `_`, `$`, `:` and every character beyond ASCII. -/
def isNameChar (c : Char) : Bool :=
  c.isAlphanum || c == '-' || c == '_' || c == '$' || c == ':' || c.toNat ≥ 0x80

/-- Characters of partial names: those of names but `$` and `:`, and also `/`, `.` and `@`. -/
def isPartialNameChar (c : Char) : Bool :=
  c.isAlphanum || c == '-' || c == '_' || c.toNat ≥ 0x80 || c == '/' || c == '.' || c == '@'

/-- A reader of tag contents: the value read and the characters after it. -/
abbrev Scan (α : Type) := List Char → Option (α × List Char)

/-- Skips the gaps between tokens. -/
def skipGap (cs : List Char) : List Char := cs.dropWhile isGap

/-- Consumes a literal token. -/
def token (t : List Char) (cs : List Char) : Option (List Char) :=
  if t.isPrefixOf cs then some (cs.drop t.length) else none

/-- A name: one or more name characters. -/
def name : Scan String := fun cs =>
  let n := cs.takeWhile isNameChar
  if n.isEmpty then none else some (String.ofList n, cs.drop n.length)

/-- Whether `cs` starts with a name character. -/
def startsWithNameChar (cs : List Char) : Bool :=
  match cs with
  | c :: _ => isNameChar c
  | [] => false

/-- An optional `~`. -/
def tilde (cs : List Char) : Bool × List Char :=
  match cs with
  | '~' :: r => (true, r)
  | r => (false, r)

/-! ### Paths -/

/-- A path separator. -/
def sep? (cs : List Char) : Option (List Char) :=
  match cs with
  | '/' :: r => some r
  | '.' :: r => some r
  | _ => none

/-- One item of a path: a name, or any text in square brackets. -/
def pathItem : Scan String := fun cs =>
  match cs with
  | '[' :: r =>
    let inner := r.takeWhile (· != ']')
    match r.drop inner.length with
    | ']' :: rest => some (String.ofList inner, rest)
    | _ => none
  | _ => name cs

/-- Further items, each after a separator. -/
def pathItems : Nat → List Char → List String × List Char
  | 0, cs => ([], cs)
  | fuel + 1, cs =>
    match sep? cs with
    | some r =>
      match pathItem r with
      | some (item, rest) =>
        let (more, rest') := pathItems fuel rest
        (item :: more, rest')
      | none => ([], cs)
    | none => ([], cs)

/-- Leading `..` steps, each followed by a separator. -/
def upSteps : Nat → List Char → Nat × List Char
  | 0, cs => (0, cs)
  | fuel + 1, cs =>
    match cs with
    | '.' :: '.' :: r =>
      match sep? r with
      | some rest => let (n, rest') := upSteps fuel rest; (n + 1, rest')
      | none => (0, cs)
    | _ => (0, cs)

/-- A path: `this.` or `./`, then `@root.`, then `@`, then `../` steps, then items joined by
separators. The item `this` names the current scope and adds no step. -/
def path : Scan Path := fun cs =>
  let start := cs
  let cs := match cs with
    | 't' :: 'h' :: 'i' :: 's' :: r => (sep? r).getD cs
    | '.' :: '/' :: r => r
    | _ => cs
  let (root, cs) := match cs with
    | '@' :: 'r' :: 'o' :: 'o' :: 't' :: r =>
      match sep? r with
      | some rest => (true, rest)
      | none => (false, cs)
    | _ => (false, cs)
  let (isLocal, cs) := match cs with
    | '@' :: r => (true, r)
    | _ => (false, cs)
  let (ups, cs) := upSteps cs.length cs
  match pathItem cs with
  | none => none
  | some (first, rest) =>
    let (more, rest) := pathItems rest.length rest
    let raw := String.ofList (start.take (start.length - rest.length))
    let keys := (first :: more).filter (· != "this")
    if isLocal then
      match keys with
      | k :: _ => some (.localVar raw ups k, rest)
      | [] => some (.steps raw [], rest)
    else
      let steps := (if root then [Step.root] else []) ++ List.replicate ups Step.up ++ keys.map .key
      some (.steps raw steps, rest)

/-! ### Literals -/

/-- Hex digits. -/
def isHex (c : Char) : Bool :=
  c.isDigit || ('a' ≤ c && c ≤ 'f') || ('A' ≤ c && c ≤ 'F')

/-- The body of a quoted string up to its closing quote, which is consumed. -/
def quotedBody (quote : Char) : Nat → List Char → Option (List Char × List Char)
  | 0, _ => none
  | fuel + 1, cs =>
    match cs with
    | [] => none
    | c :: r =>
      if c == quote then some ([], r)
      else if c == '\\' then
        match r with
        | 'u' :: a :: b :: d :: e :: rest =>
          if isHex a && isHex b && isHex d && isHex e then
            (quotedBody quote fuel rest).map fun (body, rest') => (['\\', 'u', a, b, d, e] ++ body, rest')
          else none
        | x :: rest =>
          if x == quote || x == '\\' || x == '/' || x == 'b' || x == 'f' || x == 'n' || x == 'r' ||
              x == 't' then
            (quotedBody quote fuel rest).map fun (body, rest') => (['\\', x] ++ body, rest')
          else none
        | [] => none
      else (quotedBody quote fuel r).map fun (body, rest') => (c :: body, rest')

/-- Replaces every occurrence of a pattern. -/
def replaceAll (pat rep : List Char) : Nat → List Char → List Char
  | 0, cs => cs
  | fuel + 1, cs =>
    match cs with
    | [] => []
    | c :: r =>
      if !pat.isEmpty && pat.isPrefixOf cs then rep ++ replaceAll pat rep fuel (cs.drop pat.length)
      else c :: replaceAll pat rep fuel r

/-- A string literal in double or single quotes, as the text of a JSON string. -/
def stringLiteral : Scan (List Char) := fun cs =>
  match cs with
  | '"' :: r =>
    (quotedBody '"' (r.length + 1) r).map fun (body, rest) => ('"' :: body ++ ['"'], rest)
  | '\'' :: r =>
    (quotedBody '\'' (r.length + 1) r).map fun (body, rest) =>
      let body := replaceAll ['\\', '\''] ['\''] (body.length + 1) body
      let body := replaceAll ['"'] ['\\', '"'] (body.length + 1) body
      ('"' :: body ++ ['"'], rest)
  | _ => none

/-- A number literal: optional minus, digits, an optional point with digits, an optional
exponent marked by a capital `E`; not followed by a name character. A small `e` is a name
character, so `1e2` is a path, not a number. -/
def numberLiteral : Scan (List Char) := fun cs =>
  let (neg, r) := match cs with
    | '-' :: r => (['-'], r)
    | r => ([], r)
  let int := r.takeWhile Char.isDigit
  if int.isEmpty then none else
  let r := r.drop int.length
  let (point, r) := match r with
    | '.' :: r' => (['.'], r')
    | _ => ([], r)
  let frac := r.takeWhile Char.isDigit
  let r := r.drop frac.length
  let (expo, r) := match r with
    | e :: r' =>
      if e == 'E' then
        let (eneg, r'') := match r' with
          | '-' :: t => (['-'], t)
          | t => ([], t)
        let ds := r''.takeWhile Char.isDigit
        if ds.isEmpty then ([], r) else (e :: eneg ++ ds, r''.drop ds.length)
      else ([], r)
    | [] => ([], r)
  if startsWithNameChar r then none
  else some (neg ++ int ++ point ++ frac ++ expo, r)

/-- A word literal (`null`, `true`, `false`) not followed by a name character. -/
def wordLiteral (w : List Char) : Scan (List Char) := fun cs =>
  match token w cs with
  | some r => if startsWithNameChar r then none else some (w, r)
  | none => none

mutual
/-- A literal, as its source text; arrays and objects are kept as written. -/
def literalText : Nat → Scan (List Char)
  | 0, _ => none
  | fuel + 1, cs =>
    match stringLiteral cs with
    | some x => some x
    | none =>
    match arrayLiteral fuel cs with
    | some x => some x
    | none =>
    match objectLiteral fuel cs with
    | some x => some x
    | none =>
    match numberLiteral cs with
    | some x => some x
    | none =>
    match wordLiteral "null".toList cs with
    | some x => some x
    | none =>
    match wordLiteral "true".toList cs with
    | some x => some x
    | none => wordLiteral "false".toList cs

/-- `[` literals separated by commas `]`. -/
def arrayLiteral : Nat → Scan (List Char)
  | 0, _ => none
  | fuel + 1, cs =>
    match cs with
    | '[' :: r =>
      let r := skipGap r
      let (first, r) := match literalText fuel r with
        | some (t, r') => (t, r')
        | none => ([], r)
      match arrayRest fuel (skipGap r) with
      | some (more, r') => some ('[' :: first ++ more, r')
      | none => none
    | _ => none

/-- The rest of an array literal: `, literal` repeated, then `]`. -/
def arrayRest : Nat → Scan (List Char)
  | 0, _ => none
  | fuel + 1, cs =>
    match cs with
    | ']' :: r => some ([']'], r)
    | ',' :: r =>
      match literalText fuel (skipGap r) with
      | some (t, r') =>
        (arrayRest fuel (skipGap r')).map fun (more, r'') => (',' :: t ++ more, r'')
      | none => none
    | _ => none

/-- `{` string `:` literal pairs separated by commas `}`. -/
def objectLiteral : Nat → Scan (List Char)
  | 0, _ => none
  | fuel + 1, cs =>
    match cs with
    | '\x7b' :: r =>
      let r := skipGap r
      match stringLiteral r with
      | some (k, r1) =>
        match token [':'] (skipGap r1) with
        | some r2 =>
          match literalText fuel (skipGap r2) with
          | some (v, r3) =>
            (objectRest fuel (skipGap r3)).map fun (more, r4) => ('\x7b' :: k ++ [':'] ++ v ++ more, r4)
          | none => none
        | none => none
      | none => (objectRest fuel r).map fun (more, r4) => ('\x7b' :: more, r4)
    | _ => none

/-- The rest of an object literal: `, "key": literal` repeated, then `}`. -/
def objectRest : Nat → Scan (List Char)
  | 0, _ => none
  | fuel + 1, cs =>
    match cs with
    | '\x7d' :: r => some (['\x7d'], r)
    | ',' :: r =>
      match stringLiteral (skipGap r) with
      | some (k, r1) =>
        match token [':'] (skipGap r1) with
        | some r2 =>
          match literalText fuel (skipGap r2) with
          | some (v, r3) =>
            (objectRest fuel (skipGap r3)).map fun (more, r4) => (',' :: k ++ [':'] ++ v ++ more, r4)
          | none => none
        | none => none
      | none => none
    | _ => none
end

/-- Failure of reading a tag: either the text is not a tag of this kind (another reading may
apply), or it is one with an invalid literal (the template is refused). -/
inductive Miss where
  | noMatch
  | badLiteral

/-- A literal term: its text read as JSON. -/
def literal (fuel : Nat) (cs : List Char) : Except Miss (Term × List Char) :=
  match literalText fuel cs with
  | some (text, rest) =>
    match Json.parse (String.ofList text) with
    | .ok v => .ok (.literal v, rest)
    | .error _ => .error .badLiteral
  | none => .error .noMatch

/-- Whether a reserved word (`as`, `else`) stands at the front. -/
def reservedAhead (cs : List Char) : Bool :=
  match token "as".toList cs with
  | some r => !startsWithNameChar r
  | none =>
    match token "else".toList cs with
    | some r => !startsWithNameChar r
    | none => false

mutual
/-- An argument: a literal, a path or a helper call in parentheses; never a reserved word. -/
def term : Nat → List Char → Except Miss (Term × List Char)
  | 0, _ => .error .noMatch
  | fuel + 1, cs =>
    if reservedAhead cs then .error .noMatch else
    match literal fuel cs with
    | .ok x => .ok x
    | .error .badLiteral => .error .badLiteral
    | .error .noMatch =>
      match path cs with
      | some (p, rest) => .ok (.path p, rest)
      | none => subexpression fuel cs

/-- `( name arguments )` or `( path )`. -/
def subexpression : Nat → List Char → Except Miss (Term × List Char)
  | 0, _ => .error .noMatch
  | fuel + 1, cs =>
    match cs with
    | '(' :: r =>
      let r := skipGap r
      let called : Except Miss (Tag × List Char) :=
        match name r with
        | some (n, r1) =>
          match arguments fuel r1 with
          | .ok (args, opts, r2) =>
            if args.isEmpty && opts.isEmpty then .error .noMatch
            else .ok (.mk (.name n) args opts [], r2)
          | .error e => .error e
        | none => .error .noMatch
      let called : Except Miss (Tag × List Char) := match called with
        | .error .noMatch =>
          match path r with
          | some (p, r2) => .ok (.mk (.path p) [] [] [], r2)
          | none => .error .noMatch
        | other => other
      match called with
      | .ok (tag, r2) =>
        match skipGap r2 with
        | ')' :: r3 => .ok (.call tag, r3)
        | _ => .error .noMatch
      | .error e => .error e
    | _ => .error .noMatch

/-- Arguments and `name=value` options, each after a gap, as many as there are. -/
def arguments : Nat → List Char → Except Miss (List Term × List (String × Term) × List Char)
  | 0, cs => .ok ([], [], cs)
  | fuel + 1, cs =>
    let r := skipGap cs
    -- an option: name = term
    let asOption : Except Miss (String × Term × List Char) :=
      match name r with
      | some (n, r1) =>
        match skipGap r1 with
        | '=' :: r2 =>
          match term fuel (skipGap r2) with
          | .ok (t, r3) => .ok (n, t, r3)
          | .error e => .error e
        | _ => .error .noMatch
      | none => .error .noMatch
    match asOption with
    | .ok (n, t, r3) =>
      match arguments fuel r3 with
      | .ok (args, opts, r4) => .ok (args, (n, t) :: opts, r4)
      | .error e => .error e
    | .error .badLiteral => .error .badLiteral
    | .error .noMatch =>
      match term fuel r with
      | .ok (t, r3) =>
        match arguments fuel r3 with
        | .ok (args, opts, r4) => .ok (t :: args, opts, r4)
        | .error e => .error e
      | .error .badLiteral => .error .badLiteral
      | .error .noMatch => .ok ([], [], cs)
end

/-- Block parameters: `as |x|` or `as |x y|`. -/
def blockParams (cs : List Char) : Option (List String × List Char) := do
  let r ← token "as".toList (skipGap cs)
  let r ← token ['|'] (skipGap r)
  let (x, r) ← name (skipGap r)
  match name (skipGap r) with
  | some (y, r') =>
    let r'' ← token ['|'] (skipGap r')
    pure ([x, y], r'')
  | none =>
    let r' ← token ['|'] (skipGap r)
    pure ([x], r')

/-- The line of a block tag: a helper name, arguments, options and block parameters. -/
def expressionLine (fuel : Nat) (cs : List Char) : Except Miss (Tag × List Char) :=
  match name cs with
  | some (n, r) =>
    match arguments fuel r with
    | .ok (args, opts, r2) =>
      match blockParams r2 with
      | some (ps, r3) => .ok (.mk (.name n) args opts ps, r3)
      | none => .ok (.mk (.name n) args opts [], r2)
    | .error e => .error e
  | none => .error .noMatch

/-- The contents of an interpolation: a helper with at least one argument, or a path or a
helper call alone. -/
def interpolation (fuel : Nat) (cs : List Char) : Except Miss (Tag × List Char) :=
  let withArgs : Except Miss (Tag × List Char) :=
    match name cs with
    | some (n, r) =>
      match arguments fuel r with
      | .ok (args, opts, r2) =>
        if args.isEmpty && opts.isEmpty then .error .noMatch
        else .ok (.mk (.name n) args opts [], r2)
      | .error e => .error e
    | none => .error .noMatch
  match withArgs with
  | .error .noMatch =>
    match subexpression fuel cs with
    | .ok (t, r) => .ok (.mk t [] [] [], r)
    | .error .badLiteral => .error .badLiteral
    | .error .noMatch =>
      match path cs with
      | some (p, r) => .ok (.mk (.path p) [] [] [], r)
      | none => .error .noMatch
  | other => other

/-- A partial name in single quotes, kept with its quotes; a backslash before a quote keeps the
quote inside the name. -/
def quotedPartialName : Nat → List Char → Option (List Char × List Char)
  | 0, _ => none
  | fuel + 1, cs =>
    match cs with
    | '\\' :: '\'' :: r => (quotedPartialName fuel r).map fun (n, rest) => ('\\' :: '\'' :: n, rest)
    | '\'' :: r => some (['\''], r)
    | c :: r => (quotedPartialName fuel r).map fun (n, rest) => (c :: n, rest)
    | [] => none

/-- A partial's name: partial name characters, a name in single quotes (quotes included), or a
path or call. -/
def partialLine (fuel : Nat) (cs : List Char) : Except Miss (Tag × List Char) :=
  let n := cs.takeWhile isPartialNameChar
  let quoted : Option (List Char × List Char) := match cs with
    | '\'' :: c :: r =>
      if c == '\'' then none
      else (quotedPartialName (r.length + 2) (c :: r)).map fun (body, rest) => ('\'' :: body, rest)
    | _ => none
  let head : Except Miss (Term × List Char) :=
    if !n.isEmpty then .ok (.name (String.ofList n), cs.drop n.length)
    else if let some (q, rest) := quoted then .ok (.name (String.ofList q), rest)
    else match subexpression fuel cs with
      | .ok x => .ok x
      | .error .badLiteral => .error .badLiteral
      | .error .noMatch =>
        match path cs with
        | some (p, r) => .ok (.path p, r)
        | none => .error .noMatch
  match head with
  | .ok (t, r) =>
    match arguments fuel r with
    | .ok (args, opts, r2) => .ok (.mk t args opts [], r2)
    | .error e => .error e
  | .error e => .error e

/-! ### Tags -/

/-- What a tag is. -/
inductive TagKind where
  | comment
  | interpolate (tag : Tag)
  | openBlock (tag : Tag)
  | openRaw (tag : Tag)
  | closeRaw (name : String)
  | openEmbed (tag : Tag)
  | openDecorator (tag : Tag)
  | close (name : String)
  | inverse
  | chain (tag : Tag)
  | embed (tag : Tag)
  | decorator (tag : Tag)

/-- A tag read from the source: its kind, whitespace control marks and the characters after
it. -/
structure TagRead where
  kind : TagKind
  trimBefore : Bool
  trimAfter : Bool
  rest : List Char

/-- Reads the end of a tag: a gap, an optional `~`, a gap and the closing braces. -/
def tagEnd (closing : List Char) (cs : List Char) : Option (Bool × List Char) :=
  let (t, r) := tilde (skipGap cs)
  (token closing (skipGap r)).map fun rest => (t, rest)

/-- Finds the end of a `{{!-- … --}}` comment: `--`, then an optional `~`, then `}}`. -/
def longCommentEnd : Nat → List Char → Option (Bool × List Char)
  | 0, _ => none
  | fuel + 1, cs =>
    match cs with
    | [] => none
    | '-' :: '-' :: r =>
      match tagEnd ['\x7d', '\x7d'] r with
      | some x => some x
      | none => longCommentEnd fuel (cs.drop 1)
    | _ :: r => longCommentEnd fuel r

/-- Finds the end of a `{{! … }}` comment: an optional `~`, then `}}`. -/
def shortCommentEnd : Nat → List Char → Option (Bool × List Char)
  | 0, _ => none
  | fuel + 1, cs =>
    match cs with
    | [] => none
    | '\x7d' :: '\x7d' :: r => some (false, r)
    | '~' :: r =>
      match token ['\x7d', '\x7d'] (skipGap r) with
      | some rest => some (true, rest)
      | none => shortCommentEnd fuel r
    | _ :: r => shortCommentEnd fuel r

/-- Turns a reading into a tag with its closing braces. -/
def finishTag (pre : Bool) (closing : List Char) (mk : α → TagKind)
    (x : Except Miss (α × List Char)) : Except Miss TagRead :=
  match x with
  | .ok (a, r) =>
    match tagEnd closing r with
    | some (post, rest) => .ok ⟨mk a, pre, post, rest⟩
    | none => .error .noMatch
  | .error e => .error e

/-- Reads the `else` of an inverse or chained tag, if it stands here. -/
def inverseTag (fuel : Nat) (pre : Bool) (cs : List Char) : Option (Except Miss TagRead) :=
  let kw := match token "else".toList cs with
    | some r => some r
    | none => token ['^'] cs
  match kw with
  | none => none
  | some r =>
    match tagEnd ['\x7d', '\x7d'] r with
    | some (post, rest) => some (.ok ⟨.inverse, pre, post, rest⟩)
    | none =>
      match finishTag pre ['\x7d', '\x7d'] TagKind.chain (expressionLine fuel (skipGap r)) with
      | .ok t => some (.ok t)
      | .error .badLiteral => some (.error .badLiteral)
      | .error .noMatch => none

/-- Reads a tag at the front of `cs`, which starts with `{{`. -/
def readTag (cs : List Char) : Except Miss TagRead :=
  let fuel := cs.length + 1
  match cs with
  | '\x7b' :: '\x7b' :: '\x7b' :: '\x7b' :: r =>
    let (pre, r) := tilde (skipGap r)
    let r := skipGap r
    match r with
    | '/' :: r' =>
      finishTag pre ['\x7d', '\x7d', '\x7d', '\x7d'] TagKind.closeRaw
        (match name (skipGap r') with
         | some x => .ok x
         | none => .error .noMatch)
    | _ => finishTag pre ['\x7d', '\x7d', '\x7d', '\x7d'] TagKind.openRaw (expressionLine fuel r)
  | '\x7b' :: '\x7b' :: '\x7b' :: r =>
    -- {{{ tag }}}, or {{{ tag } }}
    let (pre, r1) := tilde (skipGap r)
    let inner := interpolation fuel (skipGap r1)
    match finishTag pre ['\x7d', '\x7d', '\x7d'] TagKind.interpolate inner with
    | .ok t => .ok t
    | .error .badLiteral => .error .badLiteral
    | .error .noMatch =>
      match interpolation fuel (skipGap r) with
      | .ok (tag, r2) =>
        match token ['\x7d'] (skipGap r2) with
        | some r3 => finishTag false ['\x7d', '\x7d'] TagKind.interpolate (.ok (tag, r3))
        | none => .error .noMatch
      | .error e => .error e
  | '\x7b' :: '\x7b' :: '!' :: body =>
    let long := match skipGap body with
      | '-' :: '-' :: r => longCommentEnd (r.length + 1) r
      | _ => none
    match long with
    | some (_, rest) => .ok ⟨.comment, false, false, rest⟩
    | none =>
      match shortCommentEnd (body.length + 1) body with
      | some (_, rest) => .ok ⟨.comment, false, false, rest⟩
      | none => .error .noMatch
  | '\x7b' :: '\x7b' :: r =>
    let (pre, r) := tilde (skipGap r)
    let r := skipGap r
    match r with
    | '!' :: _ => .error .noMatch
    | '#' :: '>' :: r' => finishTag pre ['\x7d', '\x7d'] TagKind.openEmbed (partialLine fuel (skipGap r'))
    | '#' :: '*' :: r' =>
      finishTag pre ['\x7d', '\x7d'] TagKind.openDecorator (expressionLine fuel (skipGap r'))
    | '#' :: r' => finishTag pre ['\x7d', '\x7d'] TagKind.openBlock (expressionLine fuel (skipGap r'))
    | '/' :: r' =>
      let r' := skipGap r'
      let n := r'.takeWhile isPartialNameChar
      let named := r'.takeWhile isNameChar
      let pick := if named.length == n.length then named else n
      finishTag pre ['\x7d', '\x7d'] TagKind.close (.ok (String.ofList pick, r'.drop pick.length))
    | '>' :: r' => finishTag pre ['\x7d', '\x7d'] TagKind.embed (partialLine fuel (skipGap r'))
    | '*' :: r' => finishTag pre ['\x7d', '\x7d'] TagKind.decorator (expressionLine fuel (skipGap r'))
    | '&' :: r' =>
      let inner : Except Miss (Tag × List Char) :=
        match subexpression fuel (skipGap r') with
        | .ok (t, r2) => .ok (.mk t [] [] [], r2)
        | .error .badLiteral => .error .badLiteral
        | .error .noMatch =>
          match path (skipGap r') with
          | some (p, r2) => .ok (.mk (.path p) [] [] [], r2)
          | none => .error .noMatch
      finishTag pre ['\x7d', '\x7d'] TagKind.interpolate inner
    | '\x7b' :: r' =>
      match interpolation fuel (skipGap r') with
      | .ok (tag, r2) =>
        match token ['\x7d'] (skipGap r2) with
        | some r3 => finishTag pre ['\x7d', '\x7d'] TagKind.interpolate (.ok (tag, r3))
        | none => .error .noMatch
      | .error e => .error e
    | _ =>
      match inverseTag fuel pre r with
      | some result => result
      | none => finishTag pre ['\x7d', '\x7d'] TagKind.interpolate (interpolation fuel r)
  | _ => .error .noMatch

/-! ### Text -/

/-- Scans plain text up to the next tag. Returns the text with escapes resolved and the rest,
which is empty or starts with an unescaped `{{`. -/
def scanText : Nat → List Char → List Char × List Char
  | 0, cs => ([], cs)
  | fuel + 1, cs =>
    match cs with
    | [] => ([], [])
    | '\x7b' :: '\x7b' :: _ => ([], cs)
    | '\\' :: '\x7b' :: '\x7b' :: '\x7b' :: '\x7b' :: r =>
      let (t, rest) := scanText fuel r
      (['\x7b', '\x7b', '\x7b', '\x7b'] ++ t, rest)
    | '\\' :: '\x7b' :: '\x7b' :: r =>
      let (t, rest) := scanText fuel r
      (['\x7b', '\x7b'] ++ t, rest)
    | '\\' :: r =>
      -- a run of backslashes right before a tag loses its first backslash
      let run := r.takeWhile (· == '\\')
      let after := r.drop run.length
      if !run.isEmpty && ['\x7b', '\x7b'].isPrefixOf after then
        let (t, rest) := scanText fuel after
        (run ++ t, rest)
      else
        let (t, rest) := scanText fuel r
        ('\\' :: t, rest)
    | c :: r =>
      let (t, rest) := scanText fuel r
      (c :: t, rest)

/-- Scans the body of a raw block up to `{{{{`. -/
def scanRaw : Nat → List Char → List Char × List Char
  | 0, cs => ([], cs)
  | fuel + 1, cs =>
    match cs with
    | [] => ([], [])
    | '\x7b' :: '\x7b' :: '\x7b' :: '\x7b' :: _ => ([], cs)
    | '\\' :: '\x7b' :: '\x7b' :: '\x7b' :: '\x7b' :: r =>
      let (t, rest) := scanRaw fuel r
      (['\x7b', '\x7b', '\x7b', '\x7b'] ++ t, rest)
    | '\\' :: '\x7b' :: '\x7b' :: r =>
      let (t, rest) := scanRaw fuel r
      (['\x7b', '\x7b'] ++ t, rest)
    | c :: r =>
      let (t, rest) := scanRaw fuel r
      (c :: t, rest)

/-- White space as text trimming knows it (Unicode white space). -/
def isWhite (c : Char) : Bool := Decimal.isWhite c

/-- Spaces and tabs. -/
def isSpaceOrTab (c : Char) : Bool := c == ' ' || c == '\t'

/-- Removes spaces and tabs, then one line break, from the front. -/
def trimLineStart (cs : List Char) : List Char :=
  match cs.dropWhile isSpaceOrTab with
  | '\r' :: '\n' :: r => r
  | '\n' :: r => r
  | r => r

/-- Removes trailing characters satisfying `p`. -/
def dropEnd (p : Char → Bool) (cs : List Char) : List Char :=
  (cs.reverse.dropWhile p).reverse

/-! ### Building the tree -/

/-- The reading state: where the reader is (`consumed` characters of the source so far), and
the pending whitespace rules for the next text. -/
structure Cursor where
  rest : List Char
  consumed : Nat
  trimNext : Bool := false
  lineNext : Bool := false

/-- How a sequence of nodes ended. -/
inductive Stop where
  | atEnd
  | close (name : String)
  | inverse
  | chain (tag : Tag)
  | closeRaw (name : String)

/-- The place of a character index in the source: lines counted at line feeds (a carriage
return before a line feed belongs to the break), columns in characters. -/
def placeOf (src : List Char) (i : Nat) : Place :=
  let rec go : List Char → Nat → Nat → Nat → Place
    | [], _, l, c => ⟨l, c⟩
    | _, 0, l, c => ⟨l, c⟩
    | '\r' :: '\n' :: r, n + 1, l, c =>
      if n = 0 then ⟨l, c + 1⟩ else go r (n - 1) (l + 1) 1
    | '\n' :: r, n + 1, l, _ => go r n (l + 1) 1
    | _ :: r, n + 1, l, c => go r n l (c + 1)
  go src i 1 1

/-- Whether only spaces and tabs stand between the start of the line (or of the source) and
index `i`. -/
def lineStartsBefore (src : List Char) (i : Nat) : Bool :=
  match ((src.take i).reverse.dropWhile isSpaceOrTab) with
  | [] => true
  | c :: _ => c == '\n' || c == '\r'

/-- Whether only spaces and tabs stand between `rest` and a line break. -/
def lineEndsAfter (rest : List Char) : Bool :=
  match rest.dropWhile isSpaceOrTab with
  | c :: _ => c == '\n' || c == '\r'
  | [] => false

/-- Applies `~` before a tag: white space at the end of the last text is removed. -/
def trimLast (nodes : Array Node) : Array Node :=
  match nodes.back? with
  | some (.text s) => nodes.pop.push (.text (String.ofList (dropEnd isWhite s.toList)))
  | _ => nodes

/-- Removes spaces and tabs at the end of the last text. -/
def trimLastIndent (nodes : Array Node) : Array Node :=
  match nodes.back? with
  | some (.text s) => nodes.pop.push (.text (String.ofList (dropEnd isSpaceOrTab s.toList)))
  | _ => nodes

/-- Adds the text before a tag (or at the end), with the pending whitespace rules. -/
def pushText (nodes : Array Node) (cur : Cursor) (raw : List Char) (text : List Char) :
    Array Node × Cursor :=
  if raw.isEmpty then (nodes, cur)
  else if raw.all isGap && cur.trimNext then (nodes, cur)
  else
    let t := if cur.trimNext then text.dropWhile isWhite
      else if cur.lineNext then trimLineStart text
      else text
    (nodes.push (.text (String.ofList t)), { cur with lineNext := false })

/-- Applies the standalone rule to a tag starting at `start` and followed by `rest`: when only
spaces and tabs stand between it and the start of its line (or of the source) and between it
and the end of its line (or of the source), the spaces and tabs before it are removed and the
line break after it is marked for removal. Returns whether the rule applied. -/
def standalone (src : List Char) (start : Nat) (rest : List Char) (nodes : Array Node) :
    Array Node × Bool :=
  if (lineEndsAfter rest || rest.isEmpty) && lineStartsBefore src start then
    (trimLastIndent nodes, true)
  else (nodes, false)

/-- The indentation a partial tag takes from the text right before it: the spaces and tabs
after the text's last line break, when nothing else follows that break (or when the whole text
is spaces and tabs). -/
def indentBefore (nodes : Array Node) : Option String :=
  match nodes.back? with
  | some (.text s) =>
    let cs := s.toList
    let body := dropEnd isSpaceOrTab cs
    match body.getLast? with
    | none => some s
    | some c => if c == '\n' || c == '\r' then some (String.ofList (cs.drop body.length)) else none
  | _ => none

/-- A failure of reading: the source is not a template. -/
structure SyntaxError where
  deriving Repr

mutual
/-- Reads nodes until the end of the source or a tag that ends the current block. -/
def nodes (src : List Char) : Nat → Cursor → Array Node → Except SyntaxError (Array Node × Cursor × Stop)
  | 0, _, _ => .error {}
  | fuel + 1, cur, acc => do
    let (text, afterText) := scanText (cur.rest.length + 1) cur.rest
    let rawLen := cur.rest.length - afterText.length
    let raw := cur.rest.take rawLen
    let (acc, cur) := pushText acc cur raw text
    let cur := { cur with rest := afterText, consumed := cur.consumed + rawLen }
    if afterText.isEmpty then return (acc, cur, .atEnd)
    let start := cur.consumed
    let at_ := placeOf src start
    let t ← match readTag afterText with
      | .ok t => pure t
      | .error _ => throw {}
    let len := afterText.length - t.rest.length
    let acc := if t.trimBefore then trimLast acc else acc
    -- a comment leaves a pending `~` in force for the texts after it
    let trimNext := match t.kind with
      | .comment => cur.trimNext
      | _ => t.trimAfter
    let cur : Cursor := { cur with rest := t.rest, consumed := start + len, trimNext := trimNext }
    match t.kind with
    | .comment =>
      let (acc, line) := standalone src start t.rest acc
      let cur := if line then { cur with lineNext := true } else cur
      nodes src fuel cur (acc.push .comment)
    | .interpolate tag => nodes src fuel cur (acc.push (.interpolate tag at_))
    | .embed n =>
      let indent := indentBefore acc
      let (acc, line) := standalone src start t.rest acc
      let cur := if line then { cur with lineNext := true } else cur
      nodes src fuel cur (acc.push (.embed n (indent.map (⟨·, line⟩)) at_))
    | .decorator tag =>
      let (acc, line) := standalone src start t.rest acc
      let cur := if line then { cur with lineNext := true } else cur
      nodes src fuel cur (acc.push (.decorator tag none at_))
    | .close n =>
      let (acc, line) := standalone src start t.rest acc
      return (acc, { cur with lineNext := line }, .close n)
    | .closeRaw n => return (acc, cur, .closeRaw n)
    | .inverse =>
      let (acc, line) := standalone src start t.rest acc
      let cur := { cur with lineNext := line }
      return (acc, cur, .inverse)
    | .chain tag =>
      let (acc, line) := standalone src start t.rest acc
      let cur := { cur with lineNext := line }
      return (acc, cur, .chain tag)
    | .openBlock tag =>
      let (acc, line) := standalone src start t.rest acc
      let cur := { cur with lineNext := line }
      let (node, cur) ← block src fuel cur tag at_ (tag.head.helperName)
      nodes src fuel cur (acc.push node)
    | .openDecorator tag =>
      -- the body of a decorator block has no inverse, and its close tag may name anything
      let (acc, line) := standalone src start t.rest acc
      let cur := { cur with lineNext := line }
      let (body, cur, stop) ← nodes src fuel cur #[]
      match stop with
      | .close _ => nodes src fuel cur (acc.push (.decorator tag (some body.toList) at_))
      | _ => throw {}
    | .openEmbed n =>
      -- so is the fallback of a partial block
      let indent := indentBefore acc
      let (acc, line) := standalone src start t.rest acc
      let cur := { cur with lineNext := line }
      let (body, cur, stop) ← nodes src fuel cur #[]
      match stop with
      | .close _ =>
        nodes src fuel cur (acc.push (.embedBlock n body.toList (indent.map (⟨·, line⟩)) at_))
      | _ => throw {}
    | .openRaw tag =>
      let (acc, line) := standalone src start t.rest acc
      let cur := { cur with lineNext := line }
      -- the body of a raw block, apart from leading white space, is text
      let bodyStart := cur.rest.dropWhile isGap
      let skipped := cur.rest.length - bodyStart.length
      let (text, afterBody) := scanRaw (bodyStart.length + 1) bodyStart
      let t0 := if cur.trimNext then text.dropWhile isWhite
        else if cur.lineNext then trimLineStart text else text
      let cur := { cur with rest := afterBody,
                            consumed := cur.consumed + skipped + (bodyStart.length - afterBody.length),
                            lineNext := false }
      let closeStart := cur.consumed
      let ct ← match readTag afterBody with
        | .ok ct => pure ct
        | .error _ => throw {}
      match ct.kind with
      | .closeRaw closing =>
        let body := if ct.trimBefore then String.ofList (dropEnd isWhite t0) else String.ofList t0
        let bodyNodes : Array Node := #[.text body]
        let (bodyNodes, line) := standalone src closeStart ct.rest bodyNodes
        let body := match bodyNodes.back? with
          | some (.text s) => s
          | _ => body
        let cur : Cursor := { rest := ct.rest,
                              consumed := closeStart + (afterBody.length - ct.rest.length),
                              trimNext := ct.trimAfter, lineNext := line }
        if closing != tag.head.helperName then throw {}
        nodes src fuel cur (acc.push (.raw tag body at_))
      | _ => throw {}

/-- Reads the rest of a block opened by `tag`: its body, `{{else}}` or `{{else …}}` parts,
and the close tag, which must name `opener`. -/
def block (src : List Char) : Nat → Cursor → Tag → Place → String → Except SyntaxError (Node × Cursor)
  | 0, _, _, _, _ => .error {}
  | fuel + 1, cur, tag, at_, opener => do
    let (body, cur, stop) ← nodes src fuel cur #[]
    match stop with
    | .close closing =>
      if closing != opener then throw {}
      return (.block tag body.toList none at_, cur)
    | .inverse =>
      let (inv, cur, stop) ← nodes src fuel cur #[]
      match stop with
      | .close closing =>
        if closing != opener then throw {}
        return (.block tag body.toList (some inv.toList) at_, cur)
      | _ => throw {}
    | .chain next =>
      -- `{{else next}}` opens a block that ends where this one ends; its failures are reported
      -- at the place of the block that opened the chain
      let (inner, cur) ← block src fuel cur next at_ opener
      return (.block tag body.toList (some [inner]) at_, cur)
    | _ => throw {}

end

end Blockwork.Template

namespace Blockwork

/-- Reads a code template; see `Template.nodes` for the rules. -/
def CodeTemplate.parse (source : String) : Except Template.SyntaxError CodeTemplate :=
  let src := source.toList
  match Template.nodes src (src.length + 2) { rest := src, consumed := 0 } #[] with
  | .ok (ns, _, .atEnd) => .ok ⟨source, ns.toList⟩
  | _ => .error {}

end Blockwork
