import Blockwork.Proofs.Template.Reordered
import Blockwork.Proofs.Code.Generation

/-!
# Template code does not depend on the order of a block's names

A block's template is rendered against data made from the names the block binds: each named
input to the code of the block it holds, each named field to its value (`bindings`). The names
are distinct (`bindings_nodup`), and the data of any order of the bindings is the same entries in
that order (`mapM_perm_ok`). A template whose every path reads a key renders the same against
every order of the same entries (`CodeTemplate.render_reordered`), and a bound child that fails
makes every order fail, with the error of the first failing child in that order
(`mapM_error_mem`). So a block's template code is the same for every order of its bindings, and
so is its failure unless two bound children fail differently
(`template_code_ignores_binding_order`). A template that takes the data itself as a value, as
`{{#each this}}` does, sees the order, and two children that fail differently make the failure
depend on it (`binding_order_shows_through_data`).
-/

namespace Blockwork

namespace Code

/-- Setting a key keeps the keys of an ordered map distinct. -/
theorem setKey_nodup {α : Type} {l : List (String × α)} (hl : (l.map Prod.fst).Nodup) (k : String)
    (v : α) : ((setKey l k v).map Prod.fst).Nodup := by
  unfold setKey
  split
  · -- an existing key keeps its place, so the keys are the same
    rw [List.map_map]
    convert hl using 1
    refine List.map_congr_left fun e _ => ?_
    obtain ⟨k', w⟩ := e
    by_cases he : k' = k <;> simp [he]
  · rename_i hk
    rw [List.map_append, List.nodup_append]
    refine ⟨hl, List.nodup_cons.mpr ⟨List.not_mem_nil, List.nodup_nil⟩, ?_⟩
    rintro _ he _ hk'
    obtain ⟨e, hel, rfl⟩ := List.mem_map.mp he
    rw [List.map_cons, List.map_nil, List.mem_singleton] at hk'
    subst hk'
    exact fun hek => hk (List.any_eq_true.mpr ⟨e, hel, beq_iff_eq.mpr hek⟩)

/-- **The names a block's template sees are distinct.** -/
theorem bindings_nodup (b : Block) : ((bindings b).map Prod.fst).Nodup := by
  unfold bindings
  refine foldl_inv (Q := fun acc : List (String × Binding) => (acc.map Prod.fst).Nodup)
    List.nodup_nil ?_
  rintro acc ⟨i, inp⟩ _ hacc
  dsimp only
  -- the input's own name first, then the fields of its row
  refine foldl_inv (Q := fun acc : List (String × Binding) => (acc.map Prod.fst).Nodup) ?_
    fun acc' f _ hacc' => ?_
  · split
    · split
      · exact hacc
      · exact setKey_nodup hacc _ _
    · exact hacc
  · split
    · split
      · exact hacc'
      · exact setKey_nodup hacc' _ _
    · exact hacc'

/-! ### Making the data of a list of bindings -/

theorem mapM_cons_ok {ε α β : Type} {f : α → Except ε β} {x : α} {l : List α} {r : List β}
    (h : (x :: l).mapM f = .ok r) : ∃ y rs, f x = .ok y ∧ l.mapM f = .ok rs ∧ r = y :: rs := by
  rw [List.mapM_cons] at h
  rcases hx : f x with e | y <;> rw [hx] at h
  · cases h
  rcases hl : l.mapM f with e | rs <;> rw [hl] at h
  · cases h
  cases h
  exact ⟨y, rs, rfl, rfl, rfl⟩

/-- By induction on the permutation: making each item of two orders of one list gives, when one
succeeds, two orders of one result. -/
theorem mapM_perm_ok {ε α β : Type} {f : α → Except ε β} {l l' : List α} (h : l.Perm l') :
    ∀ {r : List β}, l.mapM f = .ok r → ∃ r', l'.mapM f = .ok r' ∧ r.Perm r' := by
  induction h with
  | nil =>
    intro r hr
    cases hr
    exact ⟨[], rfl, .nil⟩
  | cons x _ ih =>
    intro r hr
    obtain ⟨y, rs, hy, hrs, rfl⟩ := mapM_cons_ok hr
    obtain ⟨rs', hrs', hp⟩ := ih hrs
    exact ⟨y :: rs', by rw [List.mapM_cons, hy, hrs']; rfl, hp.cons y⟩
  | swap x y l =>
    intro r hr
    obtain ⟨b, r₁, hb, hr₁, rfl⟩ := mapM_cons_ok hr
    obtain ⟨a, rs, ha, hrs, rfl⟩ := mapM_cons_ok hr₁
    exact ⟨a :: b :: rs, by rw [List.mapM_cons, List.mapM_cons, ha, hb, hrs]; rfl, .swap a b rs⟩
  | trans _ _ ih₁ ih₂ =>
    intro r hr
    obtain ⟨r₁, hr₁, hp₁⟩ := ih₁ hr
    obtain ⟨r₂, hr₂, hp₂⟩ := ih₂ hr₁
    exact ⟨r₂, hr₂, hp₁.trans hp₂⟩

/-- When making each item of one order of a list fails, so does every other order. -/
theorem mapM_perm_error {ε α β : Type} {f : α → Except ε β} {l l' : List α} (h : l.Perm l')
    {e : ε} (he : l.mapM f = .error e) : ∃ e', l'.mapM f = .error e' := by
  rcases hl' : l'.mapM f with e' | r'
  · exact ⟨e', rfl⟩
  · obtain ⟨r, hr, -⟩ := mapM_perm_ok h.symm hl'
    rw [he] at hr
    cases hr

/-- Making each item of a list fails only with the error of one of its items. -/
theorem mapM_error_mem {ε α β : Type} {f : α → Except ε β} :
    ∀ {l : List α} {e : ε}, l.mapM f = .error e → ∃ x ∈ l, f x = .error e
  | [], _, h => by cases h
  | x :: l, e, h => by
    rw [List.mapM_cons] at h
    rcases hx : f x with e' | y <;> rw [hx] at h
    · cases h
      exact ⟨x, List.mem_cons_self, hx⟩
    rcases hl : l.mapM f with e' | rs <;> rw [hl] at h
    · cases h
      obtain ⟨z, hz, hze⟩ := mapM_error_mem hl
      exact ⟨z, List.mem_cons_of_mem x hz, hze⟩
    · cases h

namespace Pass

/-- One bound name as template data: the code of a child, indented when it sits in a statement
input, or a value. -/
def entry (g : Pass) (fuel : Nat) : String × Binding → Except GenerateError (String × Json)
  | (n, .child id statement) => do pure (n, Json.str (← g.childCode fuel id statement))
  | (n, .value v) => pure (n, v)

theorem templateData_succ (g : Pass) (fuel : Nat) (bs : List (String × Binding)) :
    g.templateData (fuel + 1) bs = bs.mapM (g.entry fuel) := by
  rw [templateData]
  congr 1
  funext x
  obtain ⟨n, bnd⟩ := x
  cases bnd <;> rfl

theorem entry_name {g : Pass} {fuel : Nat} {x : String × Binding} {y : String × Json}
    (h : g.entry fuel x = .ok y) : y.1 = x.1 := by
  obtain ⟨n, bnd⟩ := x
  cases bnd with
  | child id statement =>
    simp only [entry] at h
    rcases hc : g.childCode fuel id statement with e | c <;> rw [hc] at h
    · cases h
    · cases h
      rfl
  | value v =>
    cases h
    rfl

/-- The data of a list of bindings binds the names of the list, in its order. -/
theorem mapM_entry_names {g : Pass} {fuel : Nat} :
    ∀ {bs : List (String × Binding)} {d : List (String × Json)}, bs.mapM (g.entry fuel) = .ok d →
      d.map Prod.fst = bs.map Prod.fst
  | [], _, h => by
    cases h
    rfl
  | x :: bs, _, h => by
    obtain ⟨y, rs, hy, hrs, rfl⟩ := mapM_cons_ok h
    rw [List.map_cons, List.map_cons, entry_name hy, mapM_entry_names hrs]

/-- A block's template rendered against its bindings in a given order: the template branch of
`run`, which takes the order `bindings` gives. -/
def renderIn (g : Pass) (fuel : Nat) (bs : List (String × Binding)) (t : CodeTemplate)
    (shape : Shape) : Except GenerateError Fragment := do
  let data ← g.templateData fuel bs
  match t.render (.obj data) with
  | .ok code => pure (match shape with
    | .value => .value code .atomic
    | .statement => .statement code)
  | .error e => throw (.render e.message)

theorem renderIn_succ_error {g : Pass} {n : Nat} {bs : List (String × Binding)} {t : CodeTemplate}
    {shape : Shape} {e : GenerateError} (h : bs.mapM (g.entry n) = .error e) :
    g.renderIn (n + 1) bs t shape = .error e := by
  rw [renderIn, templateData_succ, h]
  rfl

theorem run_template (g : Pass) (fuel : Nat) (b : Block) (t : CodeTemplate) (shape : Shape) :
    g.run (fuel + 1) b (.template t shape) = g.renderIn fuel (bindings b) t shape := rfl

/-- Every two of the bindings whose data cannot be made fail with the same error. -/
def FailAlike (g : Pass) (fuel : Nat) (bs : List (String × Binding)) : Prop :=
  ∀ x ∈ bs, ∀ y ∈ bs, ∀ e e', g.templateData fuel [x] = .error e →
    g.templateData fuel [y] = .error e' → e = e'

theorem templateData_single_error {g : Pass} {fuel : Nat} {x : String × Binding}
    {e : GenerateError} (h : g.entry fuel x = .error e) : g.templateData (fuel + 1) [x] = .error e := by
  rw [templateData_succ, List.mapM_cons, h]
  rfl

end Pass

open Pass in
/-- **Template code does not depend on the order of a block's bindings.** For every pass, block
and template whose every path reads a key, rendering the template over any order of the block's
bindings succeeds exactly when running it on the block does, with the same code; and the
outcome, failure included, is the same whenever every two bound children that fail fail alike.
-/
theorem template_code_ignores_binding_order (g : Pass) (fuel : Nat) (b : Block) (t : CodeTemplate)
    (shape : Shape) (ht : t.named) {bs : List (String × Binding)} (hbs : bs.Perm (bindings b)) :
    (∀ c, g.renderIn fuel bs t shape = .ok c ↔ g.run (fuel + 1) b (.template t shape) = .ok c) ∧
      (g.FailAlike fuel (bindings b) →
        g.renderIn fuel bs t shape = g.run (fuel + 1) b (.template t shape)) := by
  rw [run_template]
  cases fuel with
  | zero => exact ⟨fun _ => Iff.rfl, fun _ => rfl⟩
  | succ n =>
    rcases hL : (bindings b).mapM (g.entry n) with e | d
    · -- a bound child fails: every order fails, at one of the failing children
      obtain ⟨e', hB⟩ := mapM_perm_error hbs.symm hL
      rw [renderIn_succ_error hL, renderIn_succ_error hB]
      refine ⟨fun c => ⟨(fun h => by cases h), (fun h => by cases h)⟩, fun hf => ?_⟩
      obtain ⟨x, hx, hxe⟩ := mapM_error_mem hL
      obtain ⟨y, hy, hye⟩ := mapM_error_mem hB
      rw [hf y (hbs.subset hy) x hx e' e (templateData_single_error hye)
        (templateData_single_error hxe)]
    · -- every child generates: the data is the same entries in another order
      obtain ⟨d', hB, hperm⟩ := mapM_perm_ok hbs.symm hL
      have hnd : (d.map Prod.fst).Nodup := by
        rw [mapM_entry_names hL]
        exact bindings_nodup b
      have hr := t.render_reordered ht (.obj hperm hnd)
      have heq : g.renderIn (n + 1) bs t shape = g.renderIn (n + 1) (bindings b) t shape := by
        simp only [renderIn, templateData_succ, hL, hB, bind, Except.bind, hr]
      exact ⟨fun c => by rw [heq], fun _ => heq⟩

/-- The text of a generation's failure; nothing when it succeeds. -/
def failureText : Except GenerateError Fragment → Option String
  | .error e => some e.message
  | .ok _ => none

end Code

/-- `{{A}}-{{B}}`: the code of `A`, a dash, the code of `B`. -/
def CodeTemplate.pair : CodeTemplate :=
  let source := "\x7b\x7bA\x7d\x7d-\x7b\x7bB\x7d\x7d"
  (CodeTemplate.parse source).toOption.getD ⟨source, []⟩

/-- `{{#each this}}{{#if @first}}{{#if (eq @key "B")}}first{{/if}}{{/if}}{{/each}}`: `first`
when the first entry of the data is `B`. -/
def CodeTemplate.firstIsB : CodeTemplate :=
  let source := "\x7b\x7b#each this\x7d\x7d\x7b\x7b#if @first\x7d\x7d" ++
    "\x7b\x7b#if (eq @key \"B\")\x7d\x7dfirst\x7b\x7b/if\x7d\x7d\x7b\x7b/if\x7d\x7d" ++
    "\x7b\x7b/each\x7d\x7d"
  (CodeTemplate.parse source).toOption.getD ⟨source, []⟩

/-- A value type `P` with the value inputs `A` and `B`. -/
def Op.pairPlan : BlockPlan :=
  { name := "P", kind := .value, orientation := .horizontal, categories := [], tooltip := "",
    helpUrl := "", colours := [],
    variants := .leaf ⟨"P", [("A", { name := "A" }), ("B", { name := "B" })], [], some ⟨none⟩, none⟩
      "%\x7bA\x7d %\x7bB\x7d" }

/-- A value type named `n` whose blocks' generator makes the value `n`, or fails with the message
`n`. -/
def Op.leafPlan (n : String) (fails : Bool) : BlockPlan :=
  { name := n, kind := .value, orientation := .horizontal, categories := [], tooltip := "",
    helpUrl := "", colours := [],
    variants := .leaf ⟨n, [], [], some ⟨none⟩,
      some (if fails then .fail n else .literal n .atomic)⟩ "" }

/-- A block of `P`, generated by `CodeTemplate.pair`, with a block of `v` in `A`. -/
def Op.pairSession : List Op :=
  [.define Op.pairPlan, .define (Op.leafPlan "v" false),
    .setGenerator "P" (.template CodeTemplate.pair .value), .newBlock "P", .newBlock "v",
    .connect 0 "A" 1]

open Code in
/-- The block of `P`, whose bindings bind `A` to a child and `B` to a value, generates the same
code over its bindings reversed. -/
theorem pair_code_any_order :
    let σ := Session.init.run Op.pairSession
    let g : Pass := ⟨σ.host, σ.ws, {}⟩
    ∃ b, σ.ws.get? 0 = some b ∧ CodeTemplate.pair.named ∧ (bindings b).reverse.Perm (bindings b) ∧
      (∀ c, g.renderIn 8 (bindings b).reverse CodeTemplate.pair .value = .ok c ↔
        g.run 9 b (.template CodeTemplate.pair .value) = .ok c) ∧
      (g.FailAlike 8 (bindings b) → g.renderIn 8 (bindings b).reverse CodeTemplate.pair .value =
        g.run 9 b (.template CodeTemplate.pair .value)) := by
  intro σ g
  obtain ⟨b, hb⟩ : ∃ b, σ.ws.get? 0 = some b := Option.isSome_iff_exists.mp (by decide +kernel)
  have hnamed : CodeTemplate.pair.named := by decide +kernel
  exact ⟨b, hb, hnamed, List.reverse_perm _,
    template_code_ignores_binding_order g 8 b CodeTemplate.pair .value hnamed (List.reverse_perm _)⟩

/-- Two blocks of `P`: block `0` with nothing plugged in, block `1` with a block of `one` in `A`
and a block of `two` in `B`, both of which fail. -/
def Op.failingPairSession : List Op :=
  [.define Op.pairPlan, .define (Op.leafPlan "one" true), .define (Op.leafPlan "two" true),
    .newBlock "P", .newBlock "P", .newBlock "one", .newBlock "two", .connect 1 "A" 2,
    .connect 1 "B" 3]

open Code in
/-- **The order shows through the data, and through failing children.** `CodeTemplate.firstIsB`
takes the data itself as a value: over block `0`'s bindings, `A` then `B`, it writes nothing, and
over the same bindings reversed it writes `first`. `CodeTemplate.pair` names what it reads, but
both children of block `1` fail, each with its own message: the failure is `one` over the
block's bindings and `two` over them reversed. -/
theorem binding_order_shows_through_data :
    let σ := Session.init.run Op.failingPairSession
    let g : Pass := ⟨σ.host, σ.ws, {}⟩
    CodeTemplate.firstIsB.named = false ∧ CodeTemplate.pair.named = true ∧
      (σ.ws.get? 0).map (fun b =>
        ((g.run 9 b (.template CodeTemplate.firstIsB .value)).toOption.map Fragment.text,
          (g.renderIn 8 (bindings b).reverse CodeTemplate.firstIsB .value).toOption.map
            Fragment.text)) = some (some "", some "first") ∧
      (σ.ws.get? 1).map (fun b =>
        (failureText (g.run 9 b (.template CodeTemplate.pair .value)),
          failureText (g.renderIn 8 (bindings b).reverse CodeTemplate.pair .value))) =
        some (some "one", some "two") := by
  -- the kernel parses both templates, runs the session and renders both orders
  decide +kernel

end Blockwork
