import Blockwork.Decode.Source

/-!
# Decoding JSON values in memory

`Decode.tree` reads typed data from a JSON value already in memory. Failures carry no position.
A record given as an array must not have more items than fields: the value form reports the
extra items as "fewer elements in array", the exact form (which keeps repeated keys) as the
number of items it expected.
-/

namespace Blockwork.Decode

open Json

/-- Decoding from a value in memory. -/
abbrev Tree := ReaderT Json (Except Mismatch)

/-- Runs a tree decoder on a value. -/
def Tree.on {α : Type} (d : Tree α) (j : Json) : Except Mismatch α := d.run j

/-- Fails with a mismatch. -/
def Tree.fail {α : Type} (m : Mismatch) : Tree α := fun _ => .error m

mutual
/-- A value with every repeated key merged: first place, last value. -/
def dedupDeep : Json → Json
  | .arr xs => .arr (dedupItems xs)
  | .obj es => .obj (Json.dedup (dedupEntries es))
  | j => j

def dedupItems : List Json → List Json
  | [] => []
  | x :: xs => dedupDeep x :: dedupItems xs

def dedupEntries : List (String × Json) → List (String × Json)
  | [] => []
  | (k, v) :: es => (k, dedupDeep v) :: dedupEntries es
end

/-- An identifier among `names`: a name, or (from the exact form) an index. -/
def identifier (names : List String) : Json → Except Mismatch String
  | .str s => if names.contains s then .ok s else .error (.unknownVariant s names)
  | .num (.int i) =>
    if 0 ≤ i then
      match names[i.toNat]? with
      | some n => .ok n
      | none => .error (.invalidValue (.unsigned i.toNat)
          ("variant index 0 <= i < " ++ toString names.length))
    else .error (.invalidType (.signed i) "variant identifier")
  | j => .error (.invalidType (Found.ofJson j) "variant identifier")

/-- Reads record fields from object entries, in order. -/
def readFieldEntries {σ : Type} (rules : List (Rule Tree σ)) (keepRest : Bool) :
    List (String × Json) → σ → List String → List (String × Json) →
    Except Mismatch (σ × List String × List (String × Json))
  | [], s, seen, rest => .ok (s, seen, rest)
  | (k, v) :: es, s, seen, rest =>
    match ruleFor? rules k with
    | some r =>
      if seen.contains r.name then .error (.duplicateField r.name)
      else do
        let s ← (r.read s).run v
        readFieldEntries rules keepRest es s (r.name :: seen) rest
    | none => readFieldEntries rules keepRest es s seen (if keepRest then rest ++ [(k, v)] else rest)

/-- Reads record fields from array items, in declaration order. -/
def readFieldValues {σ : Type} (arity : String) :
    List (Rule Tree σ) → Nat → List Json → σ → Except Mismatch (σ × List Json)
  | [], _, items, s => .ok (s, items)
  | r :: rs, i, [], s =>
    if r.required then .error (.invalidLength i arity) else readFieldValues arity rs (i + 1) [] s
  | r :: rs, i, x :: xs, s => do
    let s ← (r.read s).run x
    readFieldValues arity rs (i + 1) xs s

/-- The source of typed data over a value in memory; `exact` is the form that keeps repeated
keys. -/
def tree (exact : Bool) : Source Tree where
  lift := fun r _ => r
  str := fun
    | .str s => .ok s
    | j => .error (.invalidType (Found.ofJson j) "a string")
  u16 := fun
    | .num (.int i) =>
      if i < 0 then .error (.invalidValue (.signed i) "u16")
      else if i < 65536 then .ok i.toNat
      else .error (.invalidValue (.unsigned i.toNat) "u16")
    | j => .error (.invalidType (Found.ofJson j) "u16")
  option := fun inner j => match j with
    | .null => .ok none
    | _ => (some <$> inner).run j
  seq := fun inner j => match j with
    | .arr xs => xs.mapM inner.run
    | _ => .error (.invalidType (Found.ofJson j) "a sequence")
  record := fun name rules init finish j => match j with
    | .obj es => do
      let (s, seen, _) ← readFieldEntries rules false es init [] []
      match missing? rules seen with
      | some n => .error (.missingField n)
      | none => .ok (finish s)
    | .arr xs => do
      let (s, extra) ← readFieldValues (recordArity name rules.length) rules 0 xs init
      if extra.isEmpty then .ok (finish s)
      else if exact then
        let used := xs.length - extra.length
        .error (.invalidLength xs.length
          (toString used ++ (if used == 1 then " element in sequence" else " elements in sequence")))
      else .error (.invalidLength xs.length "fewer elements in array")
    | _ => .error (.invalidType (Found.ofJson j) ("struct " ++ name))
  entries := fun name rules init finish j => match j with
    | .obj es => do
      let (s, seen, rest) ← readFieldEntries rules true es init [] []
      match missing? rules seen with
      | some n => .error (.missingField n)
      | none => finish s rest
    | _ => .error (.invalidType (Found.ofJson j) ("struct " ++ name))
  value := fun j => .ok (dedupDeep j)
  content := fun j => .ok j
  unitVariant := fun names j => match j with
    | .str s => if names.contains s then .ok s else .error (.unknownVariant s names)
    | .obj [(k, v)] =>
      if names.contains k then
        match v with
        | .null => .ok k
        | _ => .error (.invalidType (Found.ofJson v) "unit")
      else .error (.unknownVariant k names)
    | .obj _ => .error (.invalidValue .map "map with a single key")
    | _ => .error (.invalidType (Found.ofJson j) "string or map")
  tagged := fun tag expecting names j => match j with
    | .obj es => do
      let (found, rest) ← es.foldlM (fun (found, rest) (k, v) =>
        if k == tag then
          match found with
          | some _ => .error (.duplicateField tag)
          | none => do pure (some (← identifier names v), rest)
        else .ok (found, rest ++ [(k, v)])) (none, [])
      match found with
      | some t => .ok (t, .obj rest)
      | none => .error (.missingField tag)
    | .arr (x :: xs) => do pure (← identifier names x, .arr xs)
    | .arr [] => .error (.invalidLength 0 expecting)
    | _ => .error (.invalidType (Found.ofJson j) expecting)

end Blockwork.Decode
