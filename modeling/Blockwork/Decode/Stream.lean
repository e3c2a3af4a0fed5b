import Blockwork.Decode.Source

/-!
# Decoding JSON text

`Decode.stream` reads typed data straight from JSON text, so a failure can say where it was
found:

* a syntax failure, at the character that broke the syntax;
* a value of the wrong type or out of range, just after that value (just before it, for an array
  or object);
* an unknown variant name, just after the string;
* a failure found only after a value was read whole — a missing field, a repeated key, a shape
  that fits none of the choices — at the place the enclosing array or object reaches when it
  tries to close: past the blanks that follow, and past the closing bracket if one follows.

Arrays and objects nest at most 127 deep, counting the records and lists around them. The value
of an unknown field is skipped rather than read (`Reader.skipValue`): it is checked only for its
form, at any depth.
-/

namespace Blockwork.Decode

open Json Reader

/-- Fails with a mismatch at the cursor. -/
def mismatchHere {α : Type} (m : Mismatch) : Reader α := do
  throw ⟨.inr m, some (← get).here⟩

/-- Fails with a mismatch whose position the enclosing array or object decides. -/
def mismatchLater {α : Type} (m : Mismatch) : Reader α := throw ⟨.inr m, none⟩

/-- Gives a failure without a position the cursor's position. -/
def fixPosition {α : Type} (e : ReadError) : Reader α := do
  match e.position with
  | some _ => throw e
  | none => throw { e with position := some (← get).here }

/-- Closes an object. -/
def closeMap : Reader Unit := do
  match ← skipBlank with
  | some '\x7d' => bump
  | some ',' => failAhead .trailingComma
  | some _ => failAhead .trailingCharacters
  | none => failAhead .eofInObject

/-- Closes an array. -/
def closeSeq : Reader Unit := do
  match ← skipBlank with
  | some ']' => bump
  | some ',' =>
    bump
    match ← skipBlank with
    | some ']' => failAhead .trailingComma
    | _ => failAhead .trailingCharacters
  | some _ => failAhead .trailingCharacters
  | none => failAhead .eofInList

/-- Reads the inside of an array or object whose opening character is next, then closes it. A
failure inside without a position gets the place where the closing stopped. -/
def nested {α : Type} (body : Reader α) (close : Reader Unit) : Reader α := do
  let c ← get
  if c.room ≤ 1 then failAhead .tooDeep
  set { c with room := c.room - 1 }
  bump
  let r ← tryCatch (Except.ok <$> body) (fun e => pure (.error e))
  modify fun c => { c with room := c.room + 1 }
  match r with
  | .ok a => close; pure a
  | .error e =>
    tryCatch close (fun _ => pure ())
    fixPosition e

/-- Reads the value at the cursor only to report it as of the wrong type. -/
def invalidType {α : Type} (expected : String) : Reader α := do
  match ← peek with
  | some 'n' => bump; expectWord ['u', 'l', 'l']; mismatchHere (.invalidType .null expected)
  | some 't' => bump; expectWord ['r', 'u', 'e']; mismatchHere (.invalidType (.bool true) expected)
  | some 'f' =>
    bump; expectWord ['a', 'l', 's', 'e']; mismatchHere (.invalidType (.bool false) expected)
  | some '-' =>
    bump
    let n ← number false
    mismatchHere (.invalidType (Found.ofJson (.num n)) expected)
  | some '"' =>
    bump
    let s ← stringBody
    mismatchHere (.invalidType (.str s) expected)
  | some '[' => mismatchHere (.invalidType .seq expected)
  | some '\x7b' => mismatchHere (.invalidType .map expected)
  | some c =>
    if c.isDigit then
      let n ← number true
      mismatchHere (.invalidType (Found.ofJson (.num n)) expected)
    else failAhead .expectedValue
  | none => failAhead .expectedValue

/-- A string. -/
def readStr : Reader String := do
  match ← skipBlank with
  | none => failAhead .eofInValue
  | some '"' => bump; stringBody
  | some _ => invalidType "a string"

/-- A name among `names`, given as a string. -/
def readIdentifier (names : List String) : Reader String := do
  match ← skipBlank with
  | none => failAhead .eofInValue
  | some '"' =>
    bump
    let s ← stringBody
    if names.contains s then pure s else mismatchHere (.unknownVariant s names)
  | some _ => invalidType "variant identifier"

/-- Checks that a number is an unsigned 16-bit integer. -/
def checkU16 : Num → Reader Nat
  | .int i =>
    if i < 0 then mismatchHere (.invalidValue (.signed i) "u16")
    else if i < 65536 then pure i.toNat
    else mismatchHere (.invalidValue (.unsigned i.toNat) "u16")
  | .float f => mismatchHere (.invalidType (.float f) "u16")

/-- An unsigned 16-bit integer. -/
def readU16 : Reader Nat := do
  match ← skipBlank with
  | none => failAhead .eofInValue
  | some '-' => bump; checkU16 (← number false)
  | some c => if c.isDigit then checkU16 (← number true) else invalidType "u16"

/-- Null, or the inner value. -/
def readOption {α : Type} (inner : Reader α) : Reader (Option α) := do
  match ← skipBlank with
  | some 'n' => bump; expectWord ['u', 'l', 'l']; pure none
  | _ => some <$> inner

/-- Whether an array has another item; moves past the comma before it. -/
def hasNext (first : Bool) : Reader Bool := do
  match ← skipBlank with
  | none => failAhead .eofInList
  | some ']' => pure false
  | some c =>
    if first then pure true
    else if c == ',' then
      bump
      match ← skipBlank with
      | some ']' => failAhead .trailingComma
      | some _ => pure true
      | none => failAhead .eofInValue
    else failAhead .expectedCommaOrBracket

/-- The items of an array, up to its closing bracket. -/
def readItems {α : Type} (inner : Reader α) : Nat → Bool → Array α → Reader (List α)
  | 0, _, acc => pure acc.toList
  | fuel + 1, first, acc => do
    if ← hasNext first then
      let x ← inner
      readItems inner fuel false (acc.push x)
    else pure acc.toList

/-- An array of items. -/
def readSeq {α : Type} (inner : Reader α) : Reader (List α) := do
  match ← skipBlank with
  | none => failAhead .eofInValue
  | some '[' => nested (do readItems inner (fuelFor (← get)) true #[]) closeSeq
  | some _ => invalidType "a sequence"

/-- The next key of an object, or `none` at its closing brace. -/
def nextKey (first : Bool) : Reader (Option String) := do
  let start ← match ← skipBlank with
    | some '\x7d' => return none
    | some ',' => if first then pure (some ',') else do bump; skipBlank
    | some c => if first then pure (some c) else failAhead .expectedCommaOrBrace
    | none => failAhead .eofInObject
  match start with
  | some '"' => bump; some <$> stringBody
  | some '\x7d' => failAhead .trailingComma
  | some _ => failAhead .keyNotString
  | none => failAhead .eofInValue

/-- Reads record fields from an object's entries; unknown entries are skipped (their values
only checked for form, see `Reader.skipValue`), or read and kept when `keepRest`. -/
def readFields {σ : Type} (rules : List (Rule Reader σ)) (keepRest : Bool) :
    Nat → Bool → σ → List String → List (String × Json) →
    Reader (σ × List String × List (String × Json))
  | 0, _, s, seen, rest => pure (s, seen, rest)
  | fuel + 1, first, s, seen, rest => do
    match ← nextKey first with
    | none => pure (s, seen, rest)
    | some k =>
      match ruleFor? rules k with
      | some r =>
        if seen.contains r.name then mismatchLater (.duplicateField r.name)
        else
          colon
          let s ← r.read s
          readFields rules keepRest fuel false s (r.name :: seen) rest
      | none =>
        colon
        if keepRest then
          let v ← anyValue true
          readFields rules keepRest fuel false s seen (rest ++ [(k, v)])
        else
          skipValue
          readFields rules keepRest fuel false s seen rest

/-- Reads record fields from an array's items, in declaration order. -/
def readFieldItems {σ : Type} (arity : String) :
    List (Rule Reader σ) → Nat → Bool → σ → Reader σ
  | [], _, _, s => pure s
  | r :: rs, i, first, s => do
    if ← hasNext first then
      let s ← r.read s
      readFieldItems arity rs (i + 1) false s
    else if r.required then mismatchLater (.invalidLength i arity)
    else readFieldItems arity rs (i + 1) false s

/-- The entries of an object that names its variant under `tag`. -/
def readTagged (tag : String) (names : List String) :
    Nat → Bool → Option String → List (String × Json) → Reader (String × Json)
  | 0, _, _, _ => mismatchLater (.missingField tag)
  | fuel + 1, first, found, rest => do
    match ← nextKey first with
    | none =>
      match found with
      | some t => pure (t, .obj rest)
      | none => mismatchLater (.missingField tag)
    | some k =>
      if k == tag then
        if found.isSome then mismatchLater (.duplicateField tag)
        else
          colon
          let t ← readIdentifier names
          readTagged tag names fuel false (some t) rest
      else
        colon
        let v ← anyValue true
        readTagged tag names fuel false found (rest ++ [(k, v)])

/-- The source of typed data over JSON text. -/
def stream : Source Reader where
  lift := fun
    | .ok a => pure a
    | .error m => mismatchLater m
  str := readStr
  u16 := readU16
  option := readOption
  seq := readSeq
  record := fun name rules init finish => do
    match ← skipBlank with
    | none => failAhead .eofInValue
    | some '\x7b' =>
      nested (do
        let (s, seen, _) ← readFields rules false (fuelFor (← get)) true init [] []
        match missing? rules seen with
        | some n => mismatchLater (.missingField n)
        | none => pure (finish s)) closeMap
    | some '[' =>
      nested (do
        let s ← readFieldItems (recordArity name rules.length) rules 0 true init
        pure (finish s)) closeSeq
    | some _ => invalidType ("struct " ++ name)
  entries := fun name rules init finish => do
    match ← skipBlank with
    | none => failAhead .eofInValue
    | some '\x7b' =>
      nested (do
        let (s, seen, rest) ← readFields rules true (fuelFor (← get)) true init [] []
        match missing? rules seen with
        | some n => mismatchLater (.missingField n)
        | none =>
          match finish s rest with
          | .ok a => pure a
          | .error m => mismatchLater m) closeMap
    | some _ => invalidType ("struct " ++ name)
  value := anyValue false
  content := anyValue true
  unitVariant := fun names => do
    match ← skipBlank with
    | none => failAhead .eofInValue
    | some '"' => readIdentifier names
    | some '\x7b' =>
      let c ← get
      if c.room ≤ 1 then failAhead .tooDeep
      set { c with room := c.room - 1 }
      bump
      let v ← readIdentifier names
      colon
      match ← skipBlank with
      | some 'n' => bump; expectWord ['u', 'l', 'l']
      | none => failAhead .eofInValue
      | some _ => invalidType "unit"
      modify fun c => { c with room := c.room + 1 }
      match ← skipBlank with
      | some '\x7d' => bump; pure v
      | some _ => failHere .expectedValue
      | none => failHere .eofInObject
    | some _ => failAhead .expectedValue
  tagged := fun tag expecting names => do
    match ← skipBlank with
    | none => failAhead .eofInValue
    | some '\x7b' => nested (do readTagged tag names (fuelFor (← get)) true none []) closeMap
    | some '[' =>
      nested (do
        if ← hasNext true then
          let t ← readIdentifier names
          let rest ← readItems (anyValue true) (fuelFor (← get)) false #[]
          pure (t, .arr rest)
        else mismatchLater (.missingField tag)) closeSeq
    | some _ => invalidType expecting

end Blockwork.Decode
