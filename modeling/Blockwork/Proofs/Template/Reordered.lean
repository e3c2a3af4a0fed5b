import Mathlib.Data.List.Forall2
import Mathlib.Data.List.Perm.Basic
import Blockwork.Template.Render

/-!
# Templates that name what they read do not see the order of their data

A template is rendered against an object whose entries come in some order. The order shows in
three places only: `{{#each}}` visits an object's entries in order, `@first`, `@index` and
`@key` tell where the visit stands, and an object written out as JSON lists its entries in
order. Each of them needs the object itself as a value; a template reaches the data as a value
only through a path that reads no key (`this`, `..`, `@root`). A template whose every path
reads a key (`Node.named`) therefore renders the same against two orders of the same entries
(`CodeTemplate.render_reordered`).

The proof relates two environments that differ only in the order of the entries of the data and
of the scopes' values (`Env.Reordered`). Every lookup of a named path gives the same value in
both (`Env.Reordered.lookup`), so every term evaluates the same (`evalsAlike`), and, by
induction on the fuel, every node renders the same (`rendersAlike`). Partials are rendered in
copies of the current scope, whose values are again reordered, and their bodies come from the
template, so they are named too: the induction carries that every partial in reach is named.
-/

namespace Blockwork

namespace Json

/-- Two values that are one object with its entries, of distinct keys, in two orders, or one
value. -/
inductive Reordered : Json → Json → Prop
  | refl (v : Json) : Reordered v v
  | obj {es es' : List (String × Json)} : es.Perm es' → (es.map Prod.fst).Nodup →
      Reordered (.obj es) (.obj es')

/-- Among entries of distinct keys the entry of a key is the same in every order. -/
theorem find?_key_perm {α : Type} {es es' : List (String × α)} (h : es.Perm es')
    (hnd : (es.map Prod.fst).Nodup) (k : String) :
    es.find? (·.1 == k) = es'.find? (·.1 == k) := by
  induction h with
  | nil => rfl
  | cons x _ ih =>
    rw [List.map_cons, List.nodup_cons] at hnd
    simp only [List.find?_cons, ih hnd.2]
  | swap x y l =>
    rw [List.map_cons, List.map_cons, List.nodup_cons, List.mem_cons] at hnd
    -- two entries of distinct keys cannot both have the key `k`
    have hxy : y.1 ≠ x.1 := fun he => hnd.1 (.inl he)
    simp only [List.find?_cons]
    cases hy : y.1 == k <;> cases hx : x.1 == k
    · rfl
    · rfl
    · rfl
    · exact absurd ((beq_iff_eq.mp hy).trans (beq_iff_eq.mp hx).symm) hxy
  | trans h₁ _ ih₁ ih₂ =>
    rw [ih₁ hnd, ih₂ ((h₁.map Prod.fst).nodup_iff.mp hnd)]

/-- An object's deepest entry is the same in every order. -/
theorem depthEntries_perm {es es' : List (String × Json)} (h : es.Perm es') :
    depth.depthEntries es = depth.depthEntries es' := by
  induction h with
  | nil => rfl
  | cons x _ ih => simp only [depth.depthEntries, ih]
  | swap x y l => simp only [depth.depthEntries, Nat.max_left_comm]
  | trans _ _ ih₁ ih₂ => exact ih₁.trans ih₂

/-- The keys of the entries after setting a key: the same keys, and the key at the end when it
is new. -/
theorem keys_setEntry (es : List (String × Json)) (k : String) (v : Json) :
    (setEntry es k v).map Prod.fst =
      if es.any (·.1 == k) then es.map Prod.fst else es.map Prod.fst ++ [k] := by
  unfold setEntry
  split
  · rw [List.map_map]
    refine List.map_congr_left fun e _ => ?_
    by_cases he : e.1 = k <;> simp [he]
  · simp

theorem setEntry_nodup {es : List (String × Json)} (hnd : (es.map Prod.fst).Nodup) (k : String)
    (v : Json) : ((setEntry es k v).map Prod.fst).Nodup := by
  rw [keys_setEntry]
  split
  · exact hnd
  · rename_i hk
    refine List.nodup_append.mpr ⟨hnd, List.nodup_cons.mpr ⟨List.not_mem_nil, List.nodup_nil⟩, ?_⟩
    simp only [List.mem_singleton, List.mem_map]
    rintro _ ⟨e, he, rfl⟩ _ rfl hek
    exact hk (List.any_eq_true.mpr ⟨e, he, beq_iff_eq.mpr hek⟩)

theorem setEntry_perm {es es' : List (String × Json)} (h : es.Perm es') (k : String) (v : Json) :
    (setEntry es k v).Perm (setEntry es' k v) := by
  unfold setEntry
  rw [h.any_eq]
  split
  · exact h.map _
  · exact h.append_right _

namespace Reordered

variable {v v' : Json}

theorem depth_eq (h : Reordered v v') : v.depth = v'.depth := by
  cases h with
  | refl => rfl
  | obj hp _ =>
    show depth.depthEntries _ + 1 = depth.depthEntries _ + 1
    rw [depthEntries_perm hp]

/-- Setting keys, one after another, keeps two orders of one object two orders of one object. -/
theorem setEntries {es es' : List (String × Json)} (hp : es.Perm es')
    (hnd : (es.map Prod.fst).Nodup) {g : List (String × Json) → String × Json → List (String × Json)}
    (hg : ∀ acc kv, g acc kv = setEntry acc kv.1 kv.2) (kvs : List (String × Json)) :
    Reordered (.obj (kvs.foldl g es)) (.obj (kvs.foldl g es')) := by
  induction kvs generalizing es es' with
  | nil => exact .obj hp hnd
  | cons kv kvs ih =>
    simp only [List.foldl_cons, hg]
    exact ih (setEntry_perm hp kv.1 kv.2) (setEntry_nodup hnd kv.1 kv.2)

/-- Looking a key up in two orders of one object finds the same. -/
theorem child (h : Reordered v v') (k : String) : Template.child v k = Template.child v' k := by
  cases h with
  | refl => rfl
  | obj hp hnd => simp only [Template.child, find?_key_perm hp hnd k]

/-- Following at least one key from two orders of one object finds the same. -/
theorem descend (h : Reordered v v') {keys : List String} (hk : keys ≠ []) :
    Template.descend (some v) keys = Template.descend (some v') keys := by
  cases keys with
  | nil => exact absurd rfl hk
  | cons k ks => simp only [Template.descend, h.child k]

/-- Setting keys over a value's entries keeps two orders of one object two orders of one
object. -/
theorem setEntriesOf (h : Reordered v v')
    {g : List (String × Json) → String × Json → List (String × Json)}
    (hg : ∀ acc kv, g acc kv = setEntry acc kv.1 kv.2) (kvs : List (String × Json)) :
    Reordered (.obj (kvs.foldl g (Template.entriesOf v)))
      (.obj (kvs.foldl g (Template.entriesOf v'))) := by
  cases h with
  | refl => exact .refl _
  | obj hp hnd => exact setEntries hp hnd hg kvs

end Reordered

end Json

namespace Template

open Json (Reordered)

/-! ### Scopes and environments that differ in the order of entries -/

/-- Two scopes that differ at most in the order of their value's entries. -/
structure Scope.Reordered (s s' : Scope) : Prop where
  base : Json.Reordered s.base s'.base
  locals : s.locals = s'.locals
  params : s.params = s'.params

theorem Scope.Reordered.refl (s : Scope) : s.Reordered s := ⟨.refl _, rfl, rfl⟩

/-- Two environments that differ at most in the order of the entries of the data and of the
scopes' values. -/
structure Env.Reordered (env env' : Env) : Prop where
  root : Json.Reordered env.root env'.root
  scopes : List.Forall₂ Scope.Reordered env.scopes env'.scopes
  outer : env.outer = env'.outer
  indent : env.indent = env'.indent
  partialBlocks : env.partialBlocks = env'.partialBlocks

/-- Reading the same function of related items at one index of two related lists. -/
theorem forall₂_getElem?_bind {α β : Type} {R : α → α → Prop} {l l' : List α}
    (h : List.Forall₂ R l l') {f : α → Option β} (hf : ∀ a a', R a a' → f a = f a') :
    ∀ i : Nat, l[i]?.bind f = l'[i]?.bind f := by
  induction h with
  | nil => intro; rfl
  | cons hab _ ih =>
    intro i
    cases i with
    | zero => exact hf _ _ hab
    | succ i => exact ih i

/-- The first of related lists' items that a function reads something from, read through related
items. -/
theorem forall₂_findSome? {α β : Type} {R : α → α → Prop} {l l' : List α}
    (h : List.Forall₂ R l l') {f : α → Option β} (hf : ∀ a a', R a a' → f a = f a') :
    l.findSome? f = l'.findSome? f := by
  induction h with
  | nil => rfl
  | cons hab _ ih => simp only [List.findSome?_cons, hf _ _ hab, ih]

/-- The item at an index of two related lists, or two related defaults, are related. -/
theorem forall₂_getElem?_getD {α : Type} {R : α → α → Prop} {l l' : List α}
    (h : List.Forall₂ R l l') {d d' : α} (hd : R d d') : ∀ i : Nat, R (l[i]?.getD d) (l'[i]?.getD d') := by
  induction h with
  | nil => intro; exact hd
  | cons hab _ ih =>
    intro i
    cases i with
    | zero => exact hab
    | succ i => exact ih i

/-- A partial renders in a copy of the current scope, which keeps the order of entries apart. -/
theorem Scope.Reordered.partialScope {s s' : Scope} (hs : s.Reordered s')
    (args : List (Option Json)) (opts : List (String × Option Json)) :
    (Template.partialScope s args opts).Reordered (Template.partialScope s' args opts) := by
  dsimp only [Template.partialScope]
  cases args with
  | cons v _ =>
    split
    · exact ⟨.refl _, hs.locals, hs.params⟩
    · exact ⟨.refl _, hs.locals, hs.params⟩
  | nil =>
    split
    · exact hs
    · exact ⟨hs.base.setEntriesOf (fun _ _ => rfl) _, hs.locals, hs.params⟩

namespace Env.Reordered

variable {env env' : Env}

theorem innermost (h : env.Reordered env') : env.innermost.Reordered env'.innermost := by
  have h0 := forall₂_getElem?_getD h.scopes
    (show Scope.Reordered ⟨env.root, [], []⟩ ⟨env'.root, [], []⟩ from ⟨h.root, rfl, rfl⟩) 0
  simpa only [Env.innermost, List.headD_eq_head?_getD, List.head?_eq_getElem?] using h0

theorem param? (h : env.Reordered env') (n : String) : env.param? n = env'.param? n :=
  forall₂_findSome? h.scopes fun s s' hs => by rw [hs.params]

theorem push (h : env.Reordered env') {s s' : Scope} (hs : s.Reordered s') :
    (env.push s).Reordered (env'.push s') :=
  ⟨h.root, .cons hs h.scopes, h.outer, h.indent, h.partialBlocks⟩

end Env.Reordered

/-! ### Paths that name what they read -/

/-- Whether a step reads a key. -/
def Step.isKey : Step → Bool
  | .key _ => true
  | _ => false

/-- A path *names* what it reads when it is a loop variable or reads some key; such a path
never stands for a whole scope or for the data. -/
def Path.named : Path → Bool
  | .steps _ ss => ss.any Step.isKey
  | .localVar .. => true

theorem Path.exists_key {raw : String} {steps : List Step} (h : (Path.steps raw steps).named) :
    ∃ k, Step.key k ∈ steps := by
  obtain ⟨s, hs, hk⟩ := List.any_eq_true.mp h
  cases s with
  | key k => exact ⟨k, hs⟩
  | up | root => cases hk

/-- A list of steps with a key in it has a key to follow. -/
theorem filterMap_ne_nil_of_key {f : Step → Option String} {steps : List Step} {k : String}
    (hk : Step.key k ∈ steps) (hf : f (.key k) = some k) : steps.filterMap f ≠ [] := by
  intro h0
  have := List.filterMap_eq_nil_iff.mp h0 _ hk
  rw [hf] at this
  cases this

/-- **A named path reads the same in two environments that differ in the order of entries.** -/
theorem Env.Reordered.lookup {env env' : Env} (h : env.Reordered env') {p : Path}
    (hp : p.named) : env.lookup p = env'.lookup p := by
  cases p with
  | localVar raw levels n =>
    simp only [Env.lookup]
    rw [forall₂_getElem?_bind h.scopes (fun s s' hs => by rw [hs.locals])]
  | steps raw steps =>
    obtain ⟨k, hk⟩ := Path.exists_key hp
    simp only [Env.lookup]
    split
    · -- from the data: the key is past `@root`
      rename_i rest
      have hk' : Step.key k ∈ rest := by
        rcases List.mem_cons.mp hk with he | he
        · cases he
        · exact he
      exact h.root.descend (filterMap_ne_nil_of_key hk' rfl)
    · split
      · rename_i k' more hkeys
        rw [h.param? k']
        split
        · rfl
        · rw [hkeys]
          have hs := forall₂_getElem?_getD h.scopes h.innermost
            (List.takeWhile (· == Step.up) steps).length
          exact hs.base.descend (List.cons_ne_nil _ _)
      · rename_i hkeys
        exact absurd hkeys (filterMap_ne_nil_of_key hk rfl)

mutual
/-- Every path in a term names what it reads. -/
def Term.named : Term → Bool
  | .path p => p.named
  | .literal _ => true
  | .name _ => true
  | .call tag => tag.named

/-- Every path in a tag's head, arguments and options names what it reads. -/
def Tag.named : Tag → Bool
  | .mk head args options _ => head.named && Term.allNamed args && Term.optionsNamed options

/-- Every path in a list of terms names what it reads. -/
def Term.allNamed : List Term → Bool
  | [] => true
  | t :: ts => t.named && Term.allNamed ts

/-- Every path in a list of options names what it reads. -/
def Term.optionsNamed : List (String × Term) → Bool
  | [] => true
  | (_, t) :: ts => t.named && Term.optionsNamed ts
end

mutual
/-- Every path in a node, and in the nodes inside it, names what it reads. -/
def Node.named : Node → Bool
  | .text _ => true
  | .comment => true
  | .interpolate tag _ => tag.named
  | .block tag body inverse _ => tag.named && Node.allNamed body && Node.someNamed inverse
  | .raw tag _ _ => tag.named
  | .embed tag _ _ => tag.named
  | .embedBlock tag fallback _ _ => tag.named && Node.allNamed fallback
  | .decorator tag body _ => tag.named && Node.someNamed body

/-- Every path in a list of nodes names what it reads. -/
def Node.allNamed : List Node → Bool
  | [] => true
  | n :: ns => n.named && Node.allNamed ns

/-- Every path in the nodes of a block that may be absent names what it reads. -/
def Node.someNamed : Option (List Node) → Bool
  | none => true
  | some ns => Node.allNamed ns
end

theorem Tag.named_iff {tag : Tag} :
    tag.named ↔ tag.head.named ∧ Term.allNamed tag.args ∧ Term.optionsNamed tag.options := by
  cases tag
  simp [Tag.named, Tag.head, Tag.args, Tag.options, and_assoc]

/-! ### Terms -/

/-- Evaluation with `fuel` gives the same in two environments that differ in the order of
entries, for terms whose paths name what they read. -/
structure EvalsAlike (fuel : Nat) (env env' : Env) : Prop where
  term : ∀ t, t.named → evalTerm fuel env t = evalTerm fuel env' t
  call : ∀ tag, tag.named → evalCall fuel env tag = evalCall fuel env' tag
  helperName : ∀ t, t.named → helperNameOf fuel env t = helperNameOf fuel env' t
  args : ∀ ts, Term.allNamed ts → evalArgs fuel env ts = evalArgs fuel env' ts
  options : ∀ os, Term.optionsNamed os → evalOptions fuel env os = evalOptions fuel env' os

section Evals

variable {env env' : Env} {fuel : Nat}

theorem evalsAlike_zero : EvalsAlike 0 env env' :=
  ⟨fun _ _ => rfl, fun _ _ => rfl, fun _ _ => rfl, fun _ _ => rfl, fun _ _ => rfl⟩

variable (ih : EvalsAlike fuel env env')
include ih

theorem evalTerm_succ_alike (h : env.Reordered env') (t : Term) (ht : t.named) :
    evalTerm (fuel + 1) env t = evalTerm (fuel + 1) env' t := by
  cases t with
  | path p => simp only [evalTerm, h.lookup ht]
  | literal | name => rfl
  | call tag => simp only [evalTerm, ih.call tag ht]

theorem evalCall_succ_alike (tag : Tag) (ht : tag.named) :
    evalCall (fuel + 1) env tag = evalCall (fuel + 1) env' tag := by
  obtain ⟨hh, ha, ho⟩ := Tag.named_iff.mp ht
  simp only [evalCall, ih.helperName _ hh, ih.args _ ha, ih.options _ ho]

theorem helperNameOf_succ_alike (t : Term) (ht : t.named) :
    helperNameOf (fuel + 1) env t = helperNameOf (fuel + 1) env' t := by
  cases t with
  | path | literal | name => rfl
  | call tag => simp only [helperNameOf, ih.call tag ht]

theorem evalArgs_succ_alike (ts : List Term) (ht : Term.allNamed ts) :
    evalArgs (fuel + 1) env ts = evalArgs (fuel + 1) env' ts := by
  cases ts with
  | nil => rfl
  | cons t ts =>
    simp only [Term.allNamed, Bool.and_eq_true] at ht
    simp only [evalArgs, ih.term t ht.1, ih.args ts ht.2]

theorem evalOptions_succ_alike (os : List (String × Term)) (ho : Term.optionsNamed os) :
    evalOptions (fuel + 1) env os = evalOptions (fuel + 1) env' os := by
  cases os with
  | nil => rfl
  | cons o os =>
    obtain ⟨n, t⟩ := o
    simp only [Term.optionsNamed, Bool.and_eq_true] at ho
    simp only [evalOptions, ih.term t ho.1, ih.options os ho.2]

end Evals

/-- **Named terms evaluate the same in environments that differ in the order of entries**, by
induction on the fuel. -/
theorem evalsAlike {env env' : Env} (h : env.Reordered env') : ∀ fuel, EvalsAlike fuel env env'
  | 0 => evalsAlike_zero
  | fuel + 1 =>
    have ih := evalsAlike h fuel
    ⟨evalTerm_succ_alike ih h, evalCall_succ_alike ih, helperNameOf_succ_alike ih,
      evalArgs_succ_alike ih, evalOptions_succ_alike ih⟩

/-! ### Partials in reach -/

/-- Every partial an environment can render is named. -/
structure Env.Named (env : Env) : Prop where
  outer : ∀ p ∈ env.outer, Node.allNamed p.2
  partialBlocks : ∀ b ∈ env.partialBlocks, Node.allNamed b

/-- Every partial a flow has defined is named. -/
def Flow.Named (st : Flow) : Prop := ∀ p ∈ st.defs, Node.allNamed p.2

/-- A rendering result that, when it succeeds, leaves only named partials defined. -/
def LeavesNamed (r : Except RenderError (String × Flow)) : Prop :=
  ∀ out st, r = .ok (out, st) → st.Named

/-- Two rendering results that are one, which leaves only named partials defined. -/
def Agree (r r' : Except RenderError (String × Flow)) : Prop := r = r' ∧ LeavesNamed r

/-- Two environments that differ in the order of entries, in which every partial, and every
partial the flow has defined, is named. -/
structure Alike (env env' : Env) (st : Flow) : Prop where
  reordered : env.Reordered env'
  named : env.Named
  flow : st.Named

theorem LeavesNamed.ok {out : String} {st : Flow} (h : st.Named) : LeavesNamed (.ok (out, st)) := by
  rintro _ _ he
  cases he
  exact h

theorem LeavesNamed.error (e : RenderError) : LeavesNamed (.error e) := by
  rintro _ _ he
  cases he

theorem LeavesNamed.bind {α : Type} (x : Except RenderError α)
    {k : α → Except RenderError (String × Flow)} (hk : ∀ a, x = .ok a → LeavesNamed (k a)) :
    LeavesNamed (x >>= k) := by
  cases x with
  | error e => exact .error e
  | ok a => exact hk a rfl

theorem LeavesNamed.atPlace {r : Except RenderError (String × Flow)} (h : LeavesNamed r)
    (p : Place) : LeavesNamed (Template.atPlace p r) := by
  cases r with
  | error e => exact .error _
  | ok a => exact h

/-- A computation that does not depend on the environment, followed by rendering that agrees. -/
theorem agree_bind {α : Type} (x : Except RenderError α)
    {k k' : α → Except RenderError (String × Flow)} (hk : ∀ a, x = .ok a → Agree (k a) (k' a)) :
    Agree (x >>= k) (x >>= k') := by
  cases x with
  | error e => exact ⟨rfl, .error e⟩
  | ok a => exact hk a rfl

theorem Agree.atPlace {r r' : Except RenderError (String × Flow)} (h : Agree r r') (p : Place) :
    Agree (Template.atPlace p r) (Template.atPlace p r') :=
  ⟨by rw [h.1], h.2.atPlace p⟩

theorem Alike.withFlow {env env' : Env} {st : Flow} (h : Alike env env' st) {st' : Flow}
    (hst : st'.Named) : Alike env env' st' :=
  ⟨h.reordered, h.named, hst⟩

/-- The environments a partial renders in: the current scope copied, the partials the flow has
defined in reach, and named fallbacks. -/
theorem Alike.inPartial {env env' : Env} {st : Flow} (h : Alike env env' st)
    (args : List (Option Json)) (opts : List (String × Option Json)) (indent : Option String)
    {blocks : List (List Node)} (hblocks : ∀ b ∈ blocks, Node.allNamed b) (st' : Flow)
    (hst : st'.Named) :
    Alike { root := env.root, scopes := partialScope env.innermost args opts :: env.scopes,
            outer := st.defs ++ env'.outer, indent := indent, partialBlocks := blocks }
      { root := env'.root, scopes := partialScope env'.innermost args opts :: env'.scopes,
        outer := st.defs ++ env'.outer, indent := indent, partialBlocks := blocks } st' := by
  refine ⟨⟨h.reordered.root, .cons (h.reordered.innermost.partialScope args opts)
    h.reordered.scopes, rfl, rfl, rfl⟩, ⟨?_, hblocks⟩, hst⟩
  intro p hp
  rcases List.mem_append.mp hp with hp | hp
  · exact h.flow p hp
  · exact h.named.outer p (h.reordered.outer ▸ hp)

/-- By induction on the list: two folds whose steps agree wherever an invariant holds, and keep
it, agree. -/
theorem foldlM_congr_of_inv {ε σ α : Type} {f g : σ → α → Except ε σ} {I : σ → Prop}
    (h : ∀ a x, I a → f a x = g a x ∧ ∀ a', f a x = .ok a' → I a') :
    ∀ (xs : List α) (init : σ), I init → xs.foldlM f init = xs.foldlM g init
  | [], _, _ => rfl
  | x :: xs, init, hI => by
    rw [List.foldlM_cons, List.foldlM_cons, ← (h init x hI).1]
    cases hx : f init x with
    | error e => rfl
    | ok a' => exact foldlM_congr_of_inv h xs a' ((h init x hI).2 a' hx)

/-- A step that passes on failures, followed by steps that agree wherever it succeeds. -/
theorem bind_congr_ok {ε α β : Type} {x : Except ε α} {f g : α → Except ε β}
    (h : ∀ a, x = .ok a → f a = g a) : x >>= f = x >>= g := by
  cases x with
  | error e => rfl
  | ok a => exact h a rfl

/-- A decorator defines its body, which must be there, under a name; nothing else. -/
theorem decorate_ok {fuel : Nat} {env : Env} {ps ps' : Partials} {tag : Tag}
    {body : Option (List Node)} (h : decorate fuel env ps tag body = .ok ps') :
    ∃ n b, body = some b ∧ ps' = (n, b) :: ps := by
  unfold decorate at h
  rcases hn : helperNameOf fuel env tag.head with _ | name <;> rw [hn] at h
  · cases h
  rcases ha : evalArgs fuel env tag.args with _ | args <;> rw [ha] at h
  · cases h
  rcases ho : evalOptions fuel env tag.options with _ | opts <;> rw [ho] at h
  · cases h
  simp only [bind, Except.bind] at h
  split at h
  · cases h
  · split at h
    · cases h
    · split at h
      · cases h
        exact ⟨_, _, rfl, rfl⟩
      · cases h
    · cases h

/-- Decorators read only named terms, so they define the same in both environments. -/
theorem decorate_alike {fuel : Nat} {env env' : Env} (E : EvalsAlike fuel env env') (ps : Partials)
    {tag : Tag} (ht : tag.named) (body : Option (List Node)) :
    decorate fuel env ps tag body = decorate fuel env' ps tag body := by
  obtain ⟨hh, ha, ho⟩ := Tag.named_iff.mp ht
  simp only [decorate, E.helperName _ hh, E.args _ ha, E.options _ ho]

theorem runDecorators_alike {fuel : Nat} {env env' : Env} (E : EvalsAlike fuel env env') :
    ∀ (ns : List Node) (ps : Partials), Node.allNamed ns →
      runDecorators fuel env ps ns = runDecorators fuel env' ps ns
  | [], _, _ => rfl
  | n :: ns, ps, h => by
    simp only [Node.allNamed, Bool.and_eq_true] at h
    cases n with
    | decorator tag body at_ =>
      simp only [Node.named, Bool.and_eq_true] at h
      simp only [runDecorators, decorate_alike E ps h.1.1 body]
      exact bind_congr fun ps' => runDecorators_alike E ns ps' h.2
    | text | comment | interpolate | block | raw | embed | embedBlock =>
      simp only [runDecorators]
      exact runDecorators_alike E ns ps h.2

/-- Decorators of named nodes define named partials only. -/
theorem runDecorators_named {fuel : Nat} {env : Env} :
    ∀ (ns : List Node) {ps ps' : Partials}, runDecorators fuel env ps ns = .ok ps' →
      (∀ p ∈ ps, Node.allNamed p.2) → Node.allNamed ns → ∀ p ∈ ps', Node.allNamed p.2
  | [], _, _, h, hps, _ => by
    cases h
    exact hps
  | n :: ns, ps, ps', h, hps, hns => by
    simp only [Node.allNamed, Bool.and_eq_true] at hns
    cases n with
    | decorator tag body at_ =>
      simp only [Node.named, Bool.and_eq_true] at hns
      simp only [runDecorators] at h
      rcases hd : decorate fuel env ps tag body with e | ps₁ <;> rw [hd] at h
      · cases h
      obtain ⟨n, b, rfl, rfl⟩ := decorate_ok hd
      refine runDecorators_named ns h ?_ hns.2
      rintro p (_ | ⟨_, hp⟩)
      · exact hns.1.2
      · exact hps p hp
    | text | comment | interpolate | block | raw | embed | embedBlock =>
      simp only [runDecorators] at h
      exact runDecorators_named ns h hps hns.2

/-! ### Nodes -/

/-- Rendering with `fuel` gives the same in two environments that differ in the order of
entries, for named nodes with named partials in reach, and leaves named partials only. -/
structure RendersAlike (fuel : Nat) : Prop where
  nodes : ∀ {env env' st}, Alike env env' st → ∀ ns, Node.allNamed ns →
    Agree (renderNodes fuel env st ns) (renderNodes fuel env' st ns)
  node : ∀ {env env' st}, Alike env env' st → ∀ n, n.named →
    Agree (renderNode fuel env st n) (renderNode fuel env' st n)
  embed : ∀ {env env' st}, Alike env env' st → ∀ tag fallback indent, tag.named →
    Node.someNamed fallback → embed fuel env st tag fallback indent = embed fuel env' st tag fallback indent
  interpolate : ∀ {env env' st}, Alike env env' st → ∀ tag, tag.named →
    Agree (interpolate fuel env st tag) (interpolate fuel env' st tag)
  callHelper : ∀ {env env' st}, Alike env env' st → ∀ tag body inverse, tag.named →
    Node.someNamed body → Node.someNamed inverse →
      Agree (callHelper fuel env st tag body inverse) (callHelper fuel env' st tag body inverse)

section Renders

variable {fuel : Nat} {env env' : Env} {st : Flow}

theorem rendersAlike_zero : RendersAlike 0 :=
  ⟨fun _ _ _ => ⟨rfl, .error _⟩, fun _ _ _ => ⟨rfl, .error _⟩, fun _ _ _ _ _ _ => rfl,
    fun _ _ _ => ⟨rfl, .error _⟩, fun _ _ _ _ _ _ _ => ⟨rfl, .error _⟩⟩

/-- A partial with a named fallback renders alike: the fallback's decorators define the same
named partials in both environments, and the body renders alike with them. -/
theorem fallback_alike (ih : RendersAlike fuel) {inner inner' : Env} {st₀ : Flow}
    (hI : Alike inner inner' st₀) {f body : List Node} (hf : Node.allNamed f)
    (hbody : Node.allNamed body) (ls : Bool) :
    (do
      let defs ← runDecorators fuel inner [] f
      let out ← renderNodes fuel inner { defs := defs, lineStart := ls } body
      pure out.1) =
    (do
      let defs ← runDecorators fuel inner' [] f
      let out ← renderNodes fuel inner' { defs := defs, lineStart := ls } body
      pure out.1) := by
  rw [runDecorators_alike (evalsAlike hI.reordered fuel) f [] hf]
  refine bind_congr_ok fun defs hd => ?_
  have hdefs : Flow.Named { defs := defs, lineStart := ls } :=
    runDecorators_named f hd (fun _ h => by cases h) hf
  rw [(ih.nodes (hI.withFlow hdefs) body hbody).1]

variable (ih : RendersAlike fuel) (hA : Alike env env' st)
include ih hA

theorem renderNodes_succ_alike (ns : List Node) (hns : Node.allNamed ns) :
    Agree (renderNodes (fuel + 1) env st ns) (renderNodes (fuel + 1) env' st ns) := by
  cases ns with
  | nil => exact ⟨rfl, .ok hA.flow⟩
  | cons n ns =>
    simp only [Node.allNamed, Bool.and_eq_true] at hns
    obtain ⟨hn, hnl⟩ := ih.node hA n hns.1
    simp only [renderNodes]
    rw [← hn]
    refine agree_bind _ fun ⟨a, st₁⟩ h₁ => ?_
    obtain ⟨hr, hrl⟩ := ih.nodes (hA.withFlow (hnl a st₁ h₁)) ns hns.2
    rw [← hr]
    exact agree_bind _ fun ⟨b, st₂⟩ h₂ => ⟨rfl, .ok (hrl b st₂ h₂)⟩

theorem interpolate_succ_alike (tag : Tag) (ht : tag.named) :
    Agree (interpolate (fuel + 1) env st tag) (interpolate (fuel + 1) env' st tag) := by
  obtain ⟨hh, -, -⟩ := Tag.named_iff.mp ht
  have E := evalsAlike hA.reordered fuel
  have hcall := ih.callHelper hA tag none none ht rfl rfl
  simp only [interpolate, E.helperName _ hh, E.term _ hh, hA.reordered.indent]
  split
  · refine agree_bind _ fun name _ => ?_
    split
    · exact hcall
    · exact agree_bind _ fun v _ => ⟨rfl, .ok hA.flow⟩
  · exact hcall

theorem renderNode_succ_alike (n : Node) (hn : n.named) :
    Agree (renderNode (fuel + 1) env st n) (renderNode (fuel + 1) env' st n) := by
  have E := evalsAlike hA.reordered fuel
  cases n with
  | text s =>
    simp only [renderNode, hA.reordered.indent]
    exact ⟨rfl, .ok hA.flow⟩
  | comment => exact ⟨rfl, .ok hA.flow⟩
  | interpolate tag at_ => exact (ih.interpolate hA tag hn).atPlace at_
  | block tag body inverse at_ =>
    simp only [Node.named, Bool.and_eq_true] at hn
    exact (ih.callHelper hA tag (some body) inverse hn.1.1 hn.1.2 hn.2).atPlace at_
  | raw tag body at_ => exact (ih.callHelper hA tag (some [.text body]) none hn rfl rfl).atPlace at_
  | embed tag indent at_ =>
    simp only [renderNode, ih.embed hA tag none indent hn rfl]
    exact (agree_bind _ fun out _ => ⟨rfl, .ok hA.flow⟩).atPlace at_
  | embedBlock tag fallback indent at_ =>
    simp only [Node.named, Bool.and_eq_true] at hn
    simp only [renderNode, ih.embed hA tag (some fallback) indent hn.1 hn.2]
    exact (agree_bind _ fun out _ => ⟨rfl, .ok hA.flow⟩).atPlace at_
  | decorator tag body at_ =>
    simp only [Node.named, Bool.and_eq_true] at hn
    simp only [renderNode, decorate_alike E st.defs hn.1 body]
    -- the decorator's body joins the partials the flow has defined
    refine (agree_bind _ fun defs hd => ⟨rfl, .ok ?_⟩).atPlace at_
    obtain ⟨n, b, rfl, rfl⟩ := decorate_ok hd
    rintro p (_ | ⟨_, hp⟩)
    · exact hn.2
    · exact hA.flow p hp

theorem embed_succ_alike (tag : Tag) (fallback : Option (List Node)) (indent : Option Indent)
    (ht : tag.named) (hf : Node.someNamed fallback) :
    embed (fuel + 1) env st tag fallback indent = embed (fuel + 1) env' st tag fallback indent := by
  obtain ⟨hh, ha, ho⟩ := Tag.named_iff.mp ht
  have E := evalsAlike hA.reordered fuel
  simp only [embed, E.helperName _ hh, E.args _ ha, E.options _ ho, hA.reordered.outer,
    hA.reordered.partialBlocks]
  refine bind_congr fun name => bind_congr fun args => bind_congr fun opts => ?_
  split
  · rfl
  -- every partial in reach, and so the one found, is named
  have hblocks : ∀ b ∈ env'.partialBlocks, Node.allNamed b :=
    fun b hb => hA.named.partialBlocks b (hA.reordered.partialBlocks ▸ hb)
  have hvisible : ∀ p ∈ st.defs ++ env'.outer, Node.allNamed p.2 := by
    intro p hp
    rcases List.mem_append.mp hp with hp | hp
    · exact hA.flow p hp
    · exact hA.named.outer p (hA.reordered.outer ▸ hp)
  cases fallback with
  | none =>
    -- without a fallback the body renders with no partials defined yet
    have hrender := fun (blocks : List (List Node)) (hb : ∀ b ∈ blocks, Node.allNamed b)
        (body : List Node) (hbody : Node.allNamed body) (ls : Bool) =>
      (ih.nodes (hA.inPartial args opts (indent.map (·.text)) hb ⟨[], ls⟩
        (fun _ h => by cases h)) body hbody).1
    by_cases hp : (name == partialBlockName) = true
    · rcases hbl : env'.partialBlocks with _ | ⟨b, rest⟩
      · simp only [hp, if_true]
      · simp only [hp, if_true, pure_bind]
        rw [hrender rest (fun b' hb' => hblocks b' (by simp [hbl, hb'])) b
          (hblocks b (by simp [hbl]))]
    · rcases hfd : List.find? (fun x => x.fst == name) (st.defs ++ env'.outer) with _ | ⟨k, b⟩
      · simp only [hp, hfd, Bool.false_eq_true, ↓reduceIte]
      · simp only [hp, hfd, Bool.false_eq_true, ↓reduceIte, pure_bind]
        rw [hrender env'.partialBlocks hblocks b (hvisible _ (List.mem_of_find?_eq_some hfd))]
  | some f =>
    -- the fallback's decorators run first, in the partial's environment
    have hclose := fun (blocks : List (List Node)) (hb : ∀ b ∈ blocks, Node.allNamed b)
        (body : List Node) (hbody : Node.allNamed body) =>
      fallback_alike ih (hA.inPartial args opts (indent.map (·.text)) hb ⟨[], false⟩
        (fun _ h => by cases h)) hf hbody (indent.any (·.firstLine))
    have hpushed : ∀ b ∈ f :: env'.partialBlocks, Node.allNamed b := by
      rintro b (_ | ⟨_, hb⟩)
      · exact hf
      · exact hblocks b hb
    by_cases hp : (name == partialBlockName) = true
    · rcases hbl : env'.partialBlocks with _ | ⟨b, rest⟩
      · simp only [hp, if_true]
        exact hclose _ (hbl ▸ hpushed) f hf
      · simp only [hp, if_true]
        exact hclose rest (fun b' hb' => hblocks b' (by simp [hbl, hb'])) b (hblocks b (by simp [hbl]))
    · rcases hfd : List.find? (fun x => x.fst == name) (st.defs ++ env'.outer) with _ | ⟨k, b⟩
      · simp only [hp, hfd, Bool.false_eq_true, ↓reduceIte]
        exact hclose _ hpushed f hf
      · simp only [hp, hfd, Bool.false_eq_true, ↓reduceIte]
        exact hclose _ hpushed b (hvisible _ (List.mem_of_find?_eq_some hfd))

theorem callHelper_succ_alike (tag : Tag) (body inverse : Option (List Node)) (ht : tag.named)
    (hb : Node.someNamed body) (hi : Node.someNamed inverse) :
    Agree (callHelper (fuel + 1) env st tag body inverse)
      (callHelper (fuel + 1) env' st tag body inverse) := by
  obtain ⟨hh, ha, ho⟩ := Tag.named_iff.mp ht
  have E := evalsAlike hA.reordered fuel
  simp only [callHelper, E.helperName _ hh, E.args _ ha, E.options _ ho, hA.reordered.outer]
  refine agree_bind _ fun name _ => agree_bind _ fun args _ => agree_bind _ fun opts _ => ?_
  have hnodes : ∀ ns, Node.allNamed ns → Agree (renderNodes fuel env st ns) (renderNodes fuel env' st ns) :=
    ih.nodes hA
  cases body with
  | none =>
    -- without a block nothing renders below: a value helper's value or the bare output, or a
    -- failure
    refine ⟨rfl, ?_⟩
    dsimp only
    split
    · split
      · exact .ok hA.flow
      · exact .error _
    · split
      · exact .ok hA.flow
      · exact .error _
  | some b =>
    have hb : Node.allNamed b := hb
    -- a block helper's body renders in a scope of its own, with no partials defined yet
    have hbody : ∀ (sc : Scope) (inner : Flow), inner.Named →
        Agree (renderNodes fuel ({ env with outer := st.defs ++ env'.outer }.push sc) inner b)
          (renderNodes fuel ({ env' with outer := st.defs ++ env'.outer }.push sc) inner b) := by
      intro sc inner hinner
      refine ih.nodes ⟨(?_ : Env.Reordered _ _).push (Scope.Reordered.refl sc), ?_, hinner⟩ b hb
      · exact ⟨hA.reordered.root, hA.reordered.scopes, rfl, hA.reordered.indent,
          hA.reordered.partialBlocks⟩
      · refine ⟨fun p hp => ?_, hA.named.partialBlocks⟩
        rcases List.mem_append.mp hp with hp | hp
        · exact hA.flow p hp
        · exact hA.named.outer p (hA.reordered.outer ▸ hp)
    -- `each` renders the body once a visited entry, passing the partials it defines along
    have heach : ∀ scopes : List Scope,
        List.foldlM (fun x sc => renderNodes fuel ({ env with outer := st.defs ++ env'.outer }.push sc)
            x.2 b >>= fun r => pure (x.1 ++ r.1, r.2)) ("", { lineStart := st.lineStart }) scopes =
          List.foldlM (fun x sc => renderNodes fuel
            ({ env' with outer := st.defs ++ env'.outer }.push sc) x.2 b >>= fun r =>
              pure (x.1 ++ r.1, r.2)) ("", { lineStart := st.lineStart }) scopes := by
      refine fun scopes => foldlM_congr_of_inv (I := fun x => x.2.Named) (fun a sc hI => ?_) scopes _
        (fun _ h => by cases h)
      obtain ⟨heq, hleaves⟩ := hbody sc a.2 hI
      refine ⟨by rw [heq], fun a' ha' => ?_⟩
      rcases hr : renderNodes fuel ({ env with outer := st.defs ++ env'.outer }.push sc) a.2 b
        with e | ⟨out, inner⟩ <;> rw [hr] at ha'
      · cases ha'
      · cases ha'
        exact hleaves out inner hr
    -- `with` renders the body once, in a scope that keeps the loop variables around it
    have hwith : ∀ (base : Json) (params : List (String × Json)),
        renderNodes fuel ({ env with outer := st.defs ++ env'.outer }.push
            { base := base, locals := env.innermost.locals, params := params })
            { lineStart := st.lineStart } b =
          renderNodes fuel ({ env' with outer := st.defs ++ env'.outer }.push
            { base := base, locals := env'.innermost.locals, params := params })
            { lineStart := st.lineStart } b := by
      intro base params
      rw [← hA.reordered.innermost.locals]
      exact (hbody _ _ (fun _ h => by cases h)).1
    cases inverse with
    | none =>
      refine ⟨by simp only [(hnodes b hb).1, heach, hwith], ?_⟩
      dsimp only
      repeat' split
      all_goals first
        | exact .ok hA.flow
        | exact .error _
        | exact (hnodes b hb).2
        | exact LeavesNamed.bind _ fun _ _ => .ok hA.flow
    | some ns =>
      have hns : Node.allNamed ns := hi
      refine ⟨by simp only [(hnodes b hb).1, (hnodes ns hns).1, heach, hwith], ?_⟩
      dsimp only
      repeat' split
      all_goals first
        | exact .ok hA.flow
        | exact .error _
        | exact (hnodes b hb).2
        | exact (hnodes ns hns).2
        | exact LeavesNamed.bind _ fun _ _ => .ok hA.flow

end Renders

/-- **Named nodes render the same in environments that differ in the order of entries**, by
induction on the fuel. -/
theorem rendersAlike : ∀ fuel, RendersAlike fuel
  | 0 => rendersAlike_zero
  | fuel + 1 =>
    have ih := rendersAlike fuel
    ⟨fun hA => renderNodes_succ_alike ih hA, fun hA => renderNode_succ_alike ih hA,
      fun hA => embed_succ_alike ih hA, fun hA => interpolate_succ_alike ih hA,
      fun hA => callHelper_succ_alike ih hA⟩

end Template

/-- Every path of a template names what it reads. -/
def CodeTemplate.named (t : CodeTemplate) : Bool := Template.Node.allNamed t.nodes

/-- **Templates that name what they read do not see the order of their data.** Rendering a
template whose every path reads a key against two orders of the same entries, of distinct keys,
gives the same text or the same failure. -/
theorem CodeTemplate.render_reordered (t : CodeTemplate) (ht : t.named) {v v' : Json}
    (h : Json.Reordered v v') : t.render v = t.render v' := by
  unfold CodeTemplate.render CodeTemplate.fuel
  rw [h.depth_eq]
  have hA : Template.Alike ⟨v, [⟨v, [], []⟩], [], none, []⟩ ⟨v', [⟨v', [], []⟩], [], none, []⟩ {} :=
    ⟨⟨h, .cons ⟨h, rfl, rfl⟩ .nil, rfl, rfl, rfl⟩,
      ⟨(fun _ hp => by cases hp), (fun _ hp => by cases hp)⟩, (fun _ hp => by cases hp)⟩
  rw [((Template.rendersAlike _).nodes hA t.nodes ht).1]

end Blockwork
