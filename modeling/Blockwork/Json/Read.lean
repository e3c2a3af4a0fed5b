import Blockwork.Json.Error

/-!
# Reading JSON text

A `Cursor` walks JSON text one character at a time and knows its line and column. `Reader` is
the reading monad: a step over the cursor that may fail with a positioned `ReadError`. The
primitives here read the tokens of JSON (literals, numbers, strings) and whole values; the
typed readers of the library are built from them.

Positions follow one rule: a failure found on a character not yet consumed, or on one just
consumed and refused, is reported one byte into that character (`column` is then one past the
bytes before it), any other failure at the place the cursor has reached.

Numbers are read the way the format's readers classify them: an integer literal is kept exactly
when it fits 64 bits (`-0` is the double `-0.0`); any other literal is a double, computed as its
decimal significand (the first 19 or 20 digits) times a power of ten, each step rounded to
double. A literal whose value overflows is refused.

Nesting deeper than 127 arrays or objects is refused.
-/

namespace Blockwork.Json

/-- A place in JSON text and what remains after it. -/
structure Cursor where
  rest : List Char
  line : Nat := 1
  column : Nat := 0
  /-- How many more arrays and objects may open around the cursor. -/
  room : Nat := 128

namespace Cursor

/-- A cursor at the start of a text. -/
def ofString (s : String) : Cursor := { rest := s.toList }

/-- The position of the cursor. -/
def here (c : Cursor) : Position := ⟨c.line, c.column⟩

/-- The position of the next character: one past the cursor, or the cursor itself at the end. -/
def ahead (c : Cursor) : Position :=
  match c.rest with
  | [] => c.here
  | '\n' :: _ => ⟨c.line + 1, 0⟩
  | _ :: _ => ⟨c.line, c.column + 1⟩

/-- Moves past one character. -/
def bump (c : Cursor) : Cursor :=
  match c.rest with
  | [] => c
  | '\n' :: r => { c with rest := r, line := c.line + 1, column := 0 }
  | ch :: r => { c with rest := r, column := c.column + ch.utf8Size }

end Cursor

/-- The reading monad: a failure keeps the cursor where it stopped, so that a reader that gives
failures their position can see how far reading got. -/
abbrev Reader := ExceptT ReadError (StateM Cursor)

namespace Reader

/-- Fails with `s` at the cursor. -/
def failHere {α : Type} (s : Syntax) : Reader α := do
  let c ← get
  throw ⟨.inl s, some c.here⟩

/-- Fails with `s` at the next character. -/
def failAhead {α : Type} (s : Syntax) : Reader α := do
  let c ← get
  throw ⟨.inl s, some c.ahead⟩

/-- Fails with `s` inside the character `ch` just consumed. Text is read byte by byte, so a
refused character is reported one byte into it; a refused newline, on the next line. -/
def failInside {α : Type} (ch : Char) (s : Syntax) : Reader α := do
  let c ← get
  let column := if ch == '\n' then c.column else c.column + 1 - ch.utf8Size
  throw ⟨.inl s, some ⟨c.line, column⟩⟩

/-- The next character, not consumed. -/
def peek : Reader (Option Char) := do
  return (← get).rest.head?

/-- Consumes one character. -/
def bump : Reader Unit := modify Cursor.bump

/-- Consumes and returns the next character. -/
def next : Reader (Option Char) := do
  let c ← peek
  bump
  return c

/-- JSON whitespace. -/
def isBlank (c : Char) : Bool := c == ' ' || c == '\n' || c == '\t' || c == '\r'

/-- Skips whitespace and returns the next character. -/
def skipBlank : Reader (Option Char) := do
  let c ← get
  let rec go (cur : Cursor) (rest : List Char) : Cursor :=
    match rest with
    | ch :: r => if isBlank ch then go cur.bump r else cur
    | [] => cur
  let c' := go c c.rest
  set c'
  return c'.rest.head?

/-- Consumes the remaining letters of a literal (`ull` after `n`). -/
def expectWord : List Char → Reader Unit
  | [] => pure ()
  | w :: ws => do
    match ← next with
    | none => failHere .eofInValue
    | some ch => if ch == w then expectWord ws else failInside ch .expectedIdent

/-! ### Numbers -/

/-- `2^64 - 1`, the largest significand kept exactly. -/
def maxWord : Nat := 18446744073709551615

/-- Whether `acc * 10 + d` would exceed `maxWord`. -/
def overflows (acc d : Nat) : Bool :=
  acc ≥ maxWord / 10 && (acc > maxWord / 10 || d > maxWord % 10)

/-- The decimal digit of a character. -/
def digit? (c : Char) : Option Nat :=
  if c.isDigit then some (c.toNat - 48) else none

/-- The powers of ten up to `10^308`, each the nearest double. -/
def pow10 (k : Nat) : Float := Decimal.ofDecimal false 1 k

/-- `±significand · 10^exponent`, as the stepwise double computation gives it: the significand
rounded to double, then multiplied or divided by one power of ten, or, for exponents below
`-308`, first divided by `10^308` until the rest is in range. A product that overflows is
refused. -/
def fromParts (positive : Bool) (significand : Nat) (exponent : Int) : Reader Float := do
  let rec go : Nat → Float → Int → Reader Float
    | 0, f, _ => pure f
    | fuel + 1, f, e =>
      if e.natAbs ≤ 308 then
        if 0 ≤ e then
          let g := f * pow10 e.natAbs
          if g.isInf then failHere .numberOutOfRange else pure g
        else pure (f / pow10 e.natAbs)
      else if f == 0 then pure f
      else if 0 ≤ e then failHere .numberOutOfRange
      else go fuel (f / pow10 308) (e + 308)
  let f ← go 8 (Decimal.nearest false significand 1) exponent
  return if positive then f else -f

/-- Skips digits. -/
def skipDigits : Reader Unit := do
  let c ← get
  let rec go (cur : Cursor) (rest : List Char) : Cursor :=
    match rest with
    | ch :: r => if ch.isDigit then go cur.bump r else cur
    | [] => cur
  set (go c c.rest)

/-- Clamps to the range of a 32-bit signed word. -/
def saturate (x : Int) : Int := max (-2147483648) (min 2147483647 x)

/-- Reads an exponent (`e` is next) and finishes the double. -/
def exponentPart (positive : Bool) (significand : Nat) (start : Int) : Reader Float := do
  bump
  let positiveExp ← do
    match ← peek with
    | some '+' => bump; pure true
    | some '-' => bump; pure false
    | _ => pure true
  let first ← match ← next with
    | none => failHere .eofInValue
    | some ch => match digit? ch with
      | some d => pure d
      | none => failInside ch .invalidNumber
  -- accumulate while the exponent fits a 32-bit word
  let c ← get
  let rec go : List Char → Cursor → Nat → Cursor × Option Nat
    | ch :: r, cur, acc =>
      match digit? ch with
      | some d =>
        let cur := cur.bump
        if acc ≥ 214748364 && (acc > 214748364 || d > 7) then (cur, none)
        else go r cur (acc * 10 + d)
      | none => (cur, some acc)
    | [], cur, acc => (cur, some acc)
  let (c', acc?) := go c.rest c first
  set c'
  match acc? with
  | some e =>
    let total := if positiveExp then saturate (start + e) else saturate (start - e)
    fromParts positive significand total
  | none =>
    if significand != 0 && positiveExp then failHere .numberOutOfRange
    else
      skipDigits
      return if positive then 0.0 else -0.0

/-- Reads a fraction (`.` is next) and finishes the double. -/
def fractionPart (positive : Bool) (significand : Nat) (before : Int) : Reader Float := do
  bump
  let c ← get
  -- digits until the significand would overflow; the rest only move the cursor
  let rec go : List Char → Cursor → Nat → Int → Cursor × Nat × Int × Bool
    | ch :: r, cur, acc, after =>
      match digit? ch with
      | some d =>
        if overflows acc d then (cur, acc, after, true)
        else go r cur.bump (acc * 10 + d) (after - 1)
      | none => (cur, acc, after, false)
    | [], cur, acc, after => (cur, acc, after, false)
  let (c', acc, after, overflowed) := go c.rest c significand 0
  set c'
  if overflowed then
    skipDigits
    match ← peek with
    | some 'e' | some 'E' => exponentPart positive acc (before + after)
    | _ => fromParts positive acc (before + after)
  else
    if after == 0 then
      match ← peek with
      | some _ => failAhead .invalidNumber
      | none => failAhead .eofInValue
    match ← peek with
    | some 'e' | some 'E' => exponentPart positive acc (before + after)
    | _ => fromParts positive acc (before + after)

/-- What follows an integer part: a fraction, an exponent, or the end of the literal. -/
def integerTail (positive : Bool) (significand : Nat) : Reader Num := do
  match ← peek with
  | some '.' => return .float (← fractionPart positive significand 0)
  | some 'e' | some 'E' => return .float (← exponentPart positive significand 0)
  | _ =>
    if positive then return .int significand
    else if significand = 0 then return .float (-0.0)
    else if significand > Nat.pow 2 63 then return .float (Decimal.nearest true significand 1)
    else return .int (-(significand : Int))

/-- An integer part too long for 64 bits: the extra digits only scale the double. -/
def longInteger (positive : Bool) (significand : Nat) : Reader Num := do
  let c ← get
  let rec go : List Char → Cursor → Nat → Cursor × Nat
    | ch :: r, cur, n => if ch.isDigit then go r cur.bump (n + 1) else (cur, n)
    | [], cur, n => (cur, n)
  let (c', extra) := go c.rest c 0
  set c'
  match ← peek with
  | some '.' => return .float (← fractionPart positive significand extra)
  | some 'e' | some 'E' => return .float (← exponentPart positive significand extra)
  | _ => return .float (← fromParts positive significand extra)

/-- Reads a number literal; a leading `-` has already been consumed when `positive` is false. -/
def number (positive : Bool) : Reader Num := do
  match ← next with
  | none => failHere .eofInValue
  | some '0' =>
    match ← peek with
    | some ch => if ch.isDigit then failAhead .invalidNumber else integerTail positive 0
    | none => integerTail positive 0
  | some ch =>
    match digit? ch with
    | none => failInside ch .invalidNumber
    | some d =>
      let c ← get
      let rec go : List Char → Cursor → Nat → Cursor × Nat × Bool
        | ch :: r, cur, acc =>
          match digit? ch with
          | some d => if overflows acc d then (cur, acc, true) else go r cur.bump (acc * 10 + d)
          | none => (cur, acc, false)
        | [], cur, acc => (cur, acc, false)
      let (c', acc, overflowed) := go c.rest c d
      set c'
      if overflowed then longInteger positive acc else integerTail positive acc

/-! ### Strings -/

/-- Moves the cursor four bytes on, for a failed escape; a character is counted byte by byte. -/
def skipFourBytes (c : Cursor) : Cursor :=
  let rec go : Nat → Nat → Cursor → Cursor
    | 0, _, cur => cur
    | fuel + 1, left, cur =>
      if left = 0 then cur else
      match cur.rest with
      | [] => cur
      | ch :: r =>
        if ch.utf8Size ≤ left then go fuel (left - ch.utf8Size) cur.bump
        else { rest := r, line := cur.line, column := cur.column + left }
  go 4 4 c

/-- The value of a hexadecimal digit. -/
def hexValue? (c : Char) : Option Nat :=
  if c.isDigit then some (c.toNat - 48)
  else if 'a' ≤ c ∧ c ≤ 'f' then some (c.toNat - 87)
  else if 'A' ≤ c ∧ c ≤ 'F' then some (c.toNat - 55)
  else none

/-- Reads the four hex digits of a `\u` escape. -/
def hexQuad : Reader Nat := do
  let c ← get
  let bytes := (c.rest.take 4).foldl (fun n ch => n + ch.utf8Size) 0
  if bytes < 4 && c.rest.length < 4 then
    -- fewer than four bytes are left
    let rec toEnd : Nat → Cursor → Cursor
      | 0, cur => cur
      | n + 1, cur => if cur.rest.isEmpty then cur else toEnd n cur.bump
    set (toEnd c.rest.length c)
    failHere .eofInString
  else
    match c.rest with
    | a :: b :: d :: e :: _ =>
      match hexValue? a, hexValue? b, hexValue? d, hexValue? e with
      | some x1, some x2, some x3, some x4 =>
        set (c.bump.bump.bump.bump)
        return ((x1 * 16 + x2) * 16 + x3) * 16 + x4
      | _, _, _, _ =>
        set (skipFourBytes c)
        failHere .invalidEscape
    | _ =>
      set (skipFourBytes c)
      failHere .invalidEscape

/-- Reads the rest of a `\u` escape (the `u` is consumed) and returns its character. -/
def unicodeEscape : Reader Char := do
  let n ← hexQuad
  if 0xDC00 ≤ n && n ≤ 0xDFFF then failHere .loneSurrogate
  if n < 0xD800 || n > 0xDBFF then return Char.ofNat n
  -- a leading surrogate must be followed by an escaped trailing one
  match ← peek with
  | none => failHere .eofInString
  | some '\\' => bump
  | some ch => bump; failInside ch .unfinishedSurrogatePair
  match ← peek with
  | none => failHere .eofInString
  | some 'u' => bump
  | some ch => bump; failInside ch .unfinishedSurrogatePair
  let n2 ← hexQuad
  if n2 < 0xDC00 || n2 > 0xDFFF then failHere .loneSurrogate
  return Char.ofNat ((((n - 0xD800) * 1024) ||| (n2 - 0xDC00)) + 0x10000)

/-- Reads the rest of an escape (the backslash is consumed). -/
def escape : Reader Char := do
  match ← next with
  | none => failHere .eofInString
  | some '"' => pure '"'
  | some '\\' => pure '\\'
  | some '/' => pure '/'
  | some 'b' => pure (Char.ofNat 8)
  | some 'f' => pure (Char.ofNat 12)
  | some 'n' => pure '\n'
  | some 'r' => pure '\r'
  | some 't' => pure '\t'
  | some 'u' => unicodeEscape
  | some ch => failInside ch .invalidEscape

/-- Reads the rest of a string literal (the opening quote is consumed). -/
def stringBody : Reader String := do
  let c ← get
  let rec go : Nat → Array Char → Reader String
    | 0, acc => pure (String.ofList acc.toList)
    | fuel + 1, acc => do
      match ← peek with
      | none => failHere .eofInString
      | some '"' => bump; pure (String.ofList acc.toList)
      | some '\\' => bump; let ch ← escape; go fuel (acc.push ch)
      | some ch =>
        if ch.toNat < 32 then bump; failHere .controlCharacter
        else bump; go fuel (acc.push ch)
  go (c.rest.length + 1) #[]

/-! ### Values -/

/-- Consumes the colon between a key and its value. -/
def colon : Reader Unit := do
  match ← skipBlank with
  | some ':' => bump
  | some _ => failAhead .expectedColon
  | none => failAhead .eofInObject


mutual
/-- Reads one value. With `keepRepeats`, an object keeps every entry as written; otherwise a
repeated key keeps its first place and takes its last value. -/
def value (keepRepeats : Bool) : Nat → Nat → Reader Json
  | 0, _ => failHere .eofInValue
  | fuel + 1, depth => do
    match ← skipBlank with
    | none => failAhead .eofInValue
    | some 'n' => bump; expectWord ['u', 'l', 'l']; pure .null
    | some 't' => bump; expectWord ['r', 'u', 'e']; pure (.bool true)
    | some 'f' => bump; expectWord ['a', 'l', 's', 'e']; pure (.bool false)
    | some '-' => bump; pure (.num (← number false))
    | some '"' => bump; pure (.str (← stringBody))
    | some '[' =>
      if depth ≤ 1 then failAhead .tooDeep
      bump
      let items ← items keepRepeats fuel (depth - 1) true #[]
      bump
      pure (.arr items)
    | some '\x7b' =>
      if depth ≤ 1 then failAhead .tooDeep
      bump
      let entries ← entries keepRepeats fuel (depth - 1) true #[]
      bump
      pure (.obj (if keepRepeats then entries else dedup entries))
    | some ch => if ch.isDigit then pure (.num (← number true)) else failAhead .expectedValue

/-- Reads the items of an array up to (not past) its closing bracket. -/
def items (keepRepeats : Bool) : Nat → Nat → Bool → Array Json → Reader (List Json)
  | 0, _, _, _ => failHere .eofInList
  | fuel + 1, depth, first, acc => do
    let next? ← skipBlank
    let start ← match next? with
      | some ']' => return acc.toList
      | some ',' => if first then failAhead .expectedCommaOrBracket else bump; skipBlank
      | some ch => if first then pure (some ch) else failAhead .expectedCommaOrBracket
      | none => failAhead .eofInList
    match start with
    | some ']' => failAhead .trailingComma
    | some _ =>
      let v ← value keepRepeats fuel depth
      items keepRepeats fuel depth false (acc.push v)
    | none => failAhead .eofInValue

/-- Reads the entries of an object up to (not past) its closing brace. -/
def entries (keepRepeats : Bool) : Nat → Nat → Bool → Array (String × Json) →
    Reader (List (String × Json))
  | 0, _, _, _ => failHere .eofInObject
  | fuel + 1, depth, first, acc => do
    let next? ← skipBlank
    let start ← match next? with
      | some '\x7d' => return acc.toList
      | some ',' => if first then failAhead .expectedCommaOrBrace else bump; skipBlank
      | some ch => if first then pure (some ch) else failAhead .expectedCommaOrBrace
      | none => failAhead .eofInObject
    match start with
    | some '"' =>
      bump
      let key ← stringBody
      colon
      let v ← value keepRepeats fuel depth
      entries keepRepeats fuel depth false (acc.push (key, v))
    | some '\x7d' => failAhead .trailingComma
    | some _ => failAhead .keyNotString
    | none => failAhead .eofInValue
end

/-- Fails unless only whitespace is left. -/
def finish : Reader Unit := do
  match ← skipBlank with
  | some _ => failAhead .trailingCharacters
  | none => pure ()

/-- Enough fuel to read the rest of the text. -/
def fuelFor (c : Cursor) : Nat := 2 * c.rest.length + 2

/-- Reads one value from the cursor. -/
def anyValue (keepRepeats : Bool) : Reader Json := do
  let c ← get
  value keepRepeats (fuelFor c) c.room

/-! ### Skipping values

A value that nothing will read (the value of an unknown field) is passed over without being
built. Only its form is checked: a `\u` escape takes any four hex digits, lone surrogates
included; a number may be out of range; nesting is not limited. The failures differ in kind and
place from those of a value that is read: a trailing comma is reported as the missing value or
key, a number cut short as an invalid number, and a control character in a string at the
character itself. -/

/-- Skips the rest of a string (the opening quote is consumed). -/
def skipString : Reader Unit := do
  let c ← get
  let rec go : Nat → Reader Unit
    | 0 => pure ()
    | fuel + 1 => do
      match ← peek with
      | none => failHere .eofInString
      | some '"' => bump
      | some '\\' =>
        bump
        match ← next with
        | none => failHere .eofInString
        | some 'u' => let _ ← hexQuad; go fuel
        | some ch =>
          if ['"', '\\', '/', 'b', 'f', 'n', 'r', 't'].contains ch then go fuel
          else failInside ch .invalidEscape
      | some ch => if ch.toNat < 32 then failHere .controlCharacter else bump; go fuel
  go (c.rest.length + 1)

/-- Skips an exponent (`e` is next). -/
def skipExponent : Reader Unit := do
  bump
  match ← peek with
  | some '+' | some '-' => bump
  | _ => pure ()
  match ← next with
  | none => failHere .invalidNumber
  | some ch => if ch.isDigit then skipDigits else failInside ch .invalidNumber

/-- Skips a fraction (`.` is next) and the exponent after it. -/
def skipFraction : Reader Unit := do
  bump
  match ← peek with
  | some ch => if ch.isDigit then skipDigits else failAhead .invalidNumber
  | none => failAhead .invalidNumber
  match ← peek with
  | some 'e' | some 'E' => skipExponent
  | _ => pure ()

/-- Skips a number; a leading `-` has already been consumed. -/
def skipNumber : Reader Unit := do
  match ← next with
  | none => failHere .invalidNumber
  | some '0' =>
    match ← peek with
    | some ch => if ch.isDigit then failAhead .invalidNumber
    | none => pure ()
  | some ch => if ch.isDigit then skipDigits else failInside ch .invalidNumber
  match ← peek with
  | some '.' => skipFraction
  | some 'e' | some 'E' => skipExponent
  | _ => pure ()

/-- Where skipping stands: before a value, or inside an array or object (its opening bracket)
before its first item or after an item (`started`). Both carry the brackets still open around,
innermost first. -/
inductive Skip where
  | value (around : List Char)
  | inside (started : Bool) (bracket : Char) (around : List Char)

/-- Skips values step by step; each step consumes a character or moves from an array or object
to its next item. -/
def skipSteps : Nat → Skip → Reader Unit
  | 0, _ => pure ()
  | fuel + 1, .value around => do
    let opened : Option Char ← match ← skipBlank with
      | none => failAhead .eofInValue
      | some 'n' => bump; expectWord ['u', 'l', 'l']; pure none
      | some 't' => bump; expectWord ['r', 'u', 'e']; pure none
      | some 'f' => bump; expectWord ['a', 'l', 's', 'e']; pure none
      | some '-' => bump; skipNumber; pure none
      | some '"' => bump; skipString; pure none
      | some '[' => bump; pure (some '[')
      | some '\x7b' => bump; pure (some '\x7b')
      | some ch => if ch.isDigit then do skipNumber; pure none else failAhead .expectedValue
    match opened, around with
    | some b, _ => skipSteps fuel (.inside false b around)
    | none, b :: rest => skipSteps fuel (.inside true b rest)
    | none, [] => pure ()
  | fuel + 1, .inside started bracket around => do
    let isArray := bracket == '['
    let closer := if isArray then ']' else '\x7d'
    let item : Reader Unit := do
      if !isArray then do
        match ← skipBlank with
        | some '"' => bump; skipString
        | some _ => failAhead .keyNotString
        | none => failAhead .eofInObject
        colon
      skipSteps fuel (.value (bracket :: around))
    match ← skipBlank with
    | none => failAhead (if isArray then .eofInList else .eofInObject)
    | some ch =>
      if started && ch == ',' then do bump; item
      else if ch == closer then do
        bump
        match around with
        | [] => pure ()
        | b :: rest => skipSteps fuel (.inside true b rest)
      else if started then
        failAhead (if isArray then .expectedCommaOrBracket else .expectedCommaOrBrace)
      else item

/-- Skips one value; see the section comment. -/
def skipValue : Reader Unit := do
  let c ← get
  skipSteps (2 * fuelFor c) (.value [])

end Reader

/-- Runs a reader over a whole text: the value must be followed by whitespace only. -/
def Reader.readAll {α : Type} (r : Reader α) (s : String) : Except ReadError α :=
  (Id.run ((do let a ← r; Reader.finish; pure a : Reader α).run.run (Cursor.ofString s))).1

/-- Parses JSON text into a value. -/
def parse (s : String) : Except ReadError Json :=
  Reader.readAll (Reader.anyValue false) s

end Blockwork.Json
