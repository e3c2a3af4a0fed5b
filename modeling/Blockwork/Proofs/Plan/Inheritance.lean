import Blockwork.Proofs.Plan.Making

/-!
# Variants inherit from their ancestors

Making a block from a plan (`VariantPlan.construct`) walks the plan's tree from the root. Each
node makes its own fields and then its own inputs on the block once, and lays the ids they get
over the view it inherited (`Proto.extend`): a name the node declares maps to the node's own id,
every other name as above it, and the node's output and generator, when it declares them, replace
the inherited ones. Every child is made below that one view, so all leaves below a node share the
ids of the node's names.

What a making gives each node is recorded as an id tree (`IdTree`) shaped like the plan. The
block's variant tree then realizes the plan (`Realizes`): the same names, a branch's children in
the plan's order with the first one current, and each branch's dropdown the field made for the
branch's own name. Along a root-to-leaf path, the view a leaf is laid out with maps exactly the
names declared on the path, each to the id of the deepest node declaring it, and the leaf takes
the output and generator of the deepest node declaring one (`construct_inherits`). Every id is
new and given once.

This rests on a plan's nodes declaring each name once (`VariantPlan.Distinct`), which building a
plan checks (`build_distinct`).
-/

namespace Blockwork

/-! ### Each name declared once -/

/-- A scope declares each input name once and each field name once. -/
structure Scope.Distinct (s : Scope) : Prop where
  inputs : (s.inputs.map (·.1)).Nodup
  fields : (s.fields.map (·.1)).Nodup

/-- Every node of a plan declares each name once. -/
inductive VariantPlan.Distinct : VariantPlan → Prop
  | leaf {s : Scope} {message : String} (hs : s.Distinct) : Distinct (.leaf s message)
  | branch {s : Scope} {children : List VariantPlan} (hs : s.Distinct)
      (hchildren : ∀ c ∈ children, Distinct c) : Distinct (.branch s children)

theorem firstRepeat.go_eq_none :
    ∀ {seen names : List String}, firstRepeat.go seen names = none →
      names.Nodup ∧ ∀ n ∈ names, n ∉ seen
  | _, [], _ => ⟨List.nodup_nil, fun _ h => by cases h⟩
  | seen, n :: rest, h => by
    simp only [firstRepeat.go] at h
    split at h
    · cases h
    rename_i hn
    obtain ⟨hnd, hout⟩ := go_eq_none h
    refine ⟨List.nodup_cons.mpr ⟨fun hmem => hout n hmem List.mem_cons_self, hnd⟩, ?_⟩
    intro x hx
    rcases List.mem_cons.mp hx with rfl | hx
    · simpa using hn
    · exact fun hs => hout x hx (List.mem_cons_of_mem _ hs)

/-- A list without a repeated name names each thing once. -/
theorem nodup_of_firstRepeat {names : List String} (h : firstRepeat names = none) : names.Nodup :=
  (firstRepeat.go_eq_none h).1

/-- A scope read from a declaration is the declaration's names and objects, and was accepted
only because no input name and no field name repeats. -/
theorem Scope.ofData_ok {shape : Code.Shape} {d : VariantData} {s : Scope}
    (h : Scope.ofData shape d = .ok s) :
    firstRepeat (d.inputs.map (·.name)) = none ∧ firstRepeat (d.fields.map (·.name)) = none ∧
      s.inputs = d.inputs.map (fun i => (i.name, i)) ∧
      s.fields = d.fields.map (fun f => (f.name, f)) := by
  generalize hdup : (firstRepeat (d.inputs.map (·.name)) <|> firstRepeat (d.fields.map (·.name)))
    = dup at h
  simp only [Scope.ofData, bind, Except.bind, hdup] at h
  cases dup with
  | some n =>
    split at h <;> (try split at h) <;>
      simp [pure, Except.pure, throw, throwThe, MonadExceptOf.throw] at h
  | none =>
    rw [Option.orElse_eq_orElse, Option.orElse_eq_or, Option.or_eq_none_iff] at hdup
    obtain ⟨hi, hf⟩ := hdup
    refine ⟨hi, hf, ?_⟩
    -- whichever way the generator is given, the scope holds the declaration's names
    split at h <;> (try split at h) <;>
      simp [pure, Except.pure, throw, throwThe, MonadExceptOf.throw] at h <;>
      rw [← h] <;> exact ⟨rfl, rfl⟩

theorem Scope.ofData_distinct {shape : Code.Shape} {d : VariantData} {s : Scope}
    (h : Scope.ofData shape d = .ok s) : s.Distinct := by
  obtain ⟨hi, hf, hsi, hsf⟩ := Scope.ofData_ok h
  refine ⟨?_, ?_⟩
  · rw [hsi, List.map_map]
    exact nodup_of_firstRepeat hi
  · rw [hsf, List.map_map]
    exact nodup_of_firstRepeat hf

theorem Scope.not_mem_of_hasField {s : Scope} {n : String} (h : s.hasField n = false) :
    n ∉ s.fields.map (·.1) := by
  simp only [Scope.hasField, List.any_eq_false, beq_iff_eq] at h
  rw [List.mem_map]
  rintro ⟨x, hx, rfl⟩
  exact h x hx rfl

namespace VariantPlan

variable {shape : Code.Shape} {messages : Messages}

/-- **A built plan declares each name once** at every node. -/
theorem build_distinct {inh : Inherited} {d : VariantData} {v : VariantPlan}
    (h : build shape messages inh d = .ok v) : v.Distinct :=
  build_induct (fun _ v => v.Distinct)
    (fun _ _ _ _ hs _ => .leaf (Scope.ofData_distinct hs))
    (fun _ _ _ _ _ hs _ _ hfield _ _ hcs => by
      have hsd := Scope.ofData_distinct hs
      refine .branch ⟨hsd.inputs, ?_⟩ hcs
      -- the branch's dropdown is named for the branch, which no own field of it is
      rw [Scope.withDropdown, List.map_append, List.nodup_append]
      refine ⟨hsd.fields, List.nodup_singleton _, fun a ha n hn => ?_⟩
      rw [List.map_cons, List.map_nil, List.mem_singleton] at hn
      subst hn
      rintro rfl
      exact Scope.not_mem_of_hasField hfield ha)
    h

end VariantPlan

/-! ### Ids handed out once -/

/-- The ids `l` are all different and were all handed out while an arena grew from size `lo` to
size `hi`. -/
def Fresh (lo hi : Nat) (l : List Nat) : Prop := l.Nodup ∧ ∀ i ∈ l, lo ≤ i ∧ i < hi

namespace Fresh

variable {lo mid hi : Nat} {l l₁ l₂ : List Nat}

theorem nil (lo hi : Nat) : Fresh lo hi [] := ⟨List.nodup_nil, fun _ h => by cases h⟩

theorem single (lo : Nat) : Fresh lo (lo + 1) [lo] :=
  ⟨List.nodup_singleton _, fun _ h => by rw [List.mem_singleton.mp h]; omega⟩

theorem mono {lo' hi' : Nat} (h : Fresh lo hi l) (hlo : lo' ≤ lo) (hhi : hi ≤ hi') :
    Fresh lo' hi' l :=
  ⟨h.1, fun i hi => ⟨Nat.le_trans hlo (h.2 i hi).1, Nat.lt_of_lt_of_le (h.2 i hi).2 hhi⟩⟩

/-- Ids handed out one batch after the other are all different. -/
theorem append (h₁ : Fresh lo mid l₁) (h₂ : Fresh mid hi l₂) (hlo : lo ≤ mid) (hhi : mid ≤ hi) :
    Fresh lo hi (l₁ ++ l₂) := by
  refine ⟨List.nodup_append.mpr ⟨h₁.1, h₂.1, fun a ha c hc => ?_⟩, fun i hi => ?_⟩
  · have := (h₁.2 a ha).2
    have := (h₂.2 c hc).1
    omega
  · rcases List.mem_append.mp hi with hi | hi
    · have := h₁.2 i hi
      omega
    · have := h₂.2 i hi
      omega

end Fresh

namespace Block

theorem Grows.input? {b b' : Block} (h : b.Grows b') {i : Nat} {x : Input}
    (hi : b.input? i = some x) : b'.input? i = some x := by
  obtain ⟨l, hl, -⟩ := h.inputs
  have hlt : i < b.inputArena.toList.length := by
    simp only [Block.input?] at hi
    simpa using (Array.getElem?_eq_some_iff.mp hi).1
  simp only [Block.input?, ← Array.getElem?_toList, hl, List.getElem?_append_left hlt] at hi ⊢
  exact hi

theorem Grows.fieldArena_size_le {b b' : Block} (h : b.Grows b') :
    b.fieldArena.size ≤ b'.fieldArena.size := by
  obtain ⟨l, hl⟩ := h.fields
  have := congrArg List.length hl
  simp only [Array.length_toList, List.length_append] at this
  omega

theorem Grows.inputArena_size_le {b b' : Block} (h : b.Grows b') :
    b.inputArena.size ≤ b'.inputArena.size := by
  obtain ⟨l, hl, -⟩ := h.inputs
  have := congrArg List.length hl
  simp only [Array.length_toList, List.length_append] at this
  omega

end Block

/-! ### One node's declarations -/

section Filing

variable {β γ : Type} (mk : β → Except PlanError γ) (adopt : Block → γ → Block × Nat)
  (size : Block → Nat) (get : Block → Nat → Option γ)

/-- **Filing declarations.** A pass that makes each declaration of a list in turn, adopts what it
made onto the block and files the new id under the declaration's name gives the declarations new
ids, all different, at which the grown block holds what each declaration made; the map then reads
each declared name as its id and every other name as before. -/
theorem foldlM_filing (hid : ∀ b a, (adopt b a).2 = size b)
    (hsize : ∀ b a, size (adopt b a).1 = size b + 1)
    (hget : ∀ b a i, get (adopt b a).1 i = if i = size b then some a else get b i)
    (hgrow : ∀ (b : Block) a d, mk d = .ok a → b.Grows (adopt b a).1)
    {step : Block × List (String × Nat) → String × β →
      Except PlanError (Block × List (String × Nat))}
    (hstep : ∀ b acc n d, step (b, acc) (n, d) =
      (mk d).bind fun a => .ok ((adopt b a).1, setKey acc n (adopt b a).2))
    (l : List (String × β)) {b b' : Block} {acc acc' : List (String × Nat)}
    (hnd : (l.map (·.1)).Nodup) (h : l.foldlM step (b, acc) = .ok (b', acc')) :
    ∃ ids : List (String × Nat), ids.map (·.1) = l.map (·.1) ∧
      (∀ x ∈ l.zip ids, ∃ a, mk x.1.2 = .ok a ∧ get b' x.2.2 = some a) ∧
      Fresh (size b) (size b') (ids.map (·.2)) ∧ b.Grows b' ∧ size b ≤ size b' ∧
      (∀ i, i < size b → get b' i = get b i) ∧
      ∀ n, acc'.lookup n = (ids.lookup n).or (acc.lookup n) := by
  induction l generalizing b acc with
  | nil =>
    cases h
    exact ⟨[], rfl, fun _ h => (by cases h), Fresh.nil _ _, Block.Grows.refl _, Nat.le_refl _,
      fun _ _ => rfl, fun _ => Option.none_or⟩
  | cons e l ih =>
    obtain ⟨n, d⟩ := e
    rw [List.foldlM_cons, hstep] at h
    rcases hm : mk d with e | a
    · rw [hm] at h
      cases h
    rw [hm] at h
    -- the first declaration made `a`, adopted at the block's size
    set b₁ := (adopt b a).1
    have hrest : l.foldlM step (b₁, setKey acc n (size b)) = .ok (b', acc') := by
      rw [← hid b a]
      exact h
    obtain ⟨hn, hl⟩ := List.nodup_cons.mp hnd
    obtain ⟨ids, hnames, hmade, hfresh, hgrows, hle, hframe, hlook⟩ := ih hl hrest
    have hsize₁ : size b₁ = size b + 1 := hsize b a
    refine ⟨(n, size b) :: ids, by rw [List.map_cons, List.map_cons, hnames], ?_, ?_,
      (hgrow b a d hm).trans hgrows, by omega, fun i hi => ?_, fun k => ?_⟩
    · intro x hx
      rw [List.zip_cons_cons] at hx
      rcases List.mem_cons.mp hx with rfl | hx
      · refine ⟨a, hm, ?_⟩
        show get b' (size b) = some a
        rw [hframe _ (by omega), hget, if_pos rfl]
      · exact hmade x hx
    · rw [List.map_cons]
      exact (Fresh.single _).append (hsize₁ ▸ hfresh) (Nat.le_succ _) (by omega)
    · rw [hframe i (by omega), hget, if_neg (by omega)]
    · rw [hlook, lookup_setKey, List.lookup_cons]
      by_cases hk : k = n
      · subst hk
        -- a name is declared once, so the later declarations leave it alone
        have hnone : ids.lookup k = none := List.lookup_eq_none_iff.mpr fun x hx => by
          rw [bne_iff_ne]
          rintro rfl
          exact hn (hnames ▸ List.mem_map_of_mem hx)
        simp [hnone]
      · simp [hk, beq_false_of_ne hk]
end Filing

/-- The ids a making gave to the inputs and to the fields one node declares, by name. -/
structure Scope.Ids where
  inputs : List (String × Nat)
  fields : List (String × Nat)

/-- The ids `ids` are what a making gave the declarations of the scope `s`: they name what `s`
declares, in order, and at each id the block `b` holds what its declaration makes. -/
structure Scope.Ids.Made (r : Registry) (b : Block) (s : Scope) (ids : Scope.Ids) : Prop where
  input_names : ids.inputs.map (·.1) = s.inputs.map (·.1)
  field_names : ids.fields.map (·.1) = s.fields.map (·.1)
  inputs : ∀ x ∈ s.inputs.zip ids.inputs, ∃ i,
    (r.makeInput x.1.2.kind (some x.1.2.name) x.1.2.accepts).mapError PlanError.registry = .ok i ∧
      b.input? x.2.2 = some i
  fields : ∀ x ∈ s.fields.zip ids.fields, ∃ f, x.1.2.make r = .ok f ∧ b.field? x.2.2 = some f

theorem Scope.Ids.Made.grow {r : Registry} {b b' : Block} {s : Scope} {ids : Scope.Ids}
    (h : ids.Made r b s) (hg : b.Grows b') : ids.Made r b' s := by
  refine ⟨h.input_names, h.field_names, fun x hx => ?_, fun x hx => ?_⟩
  · obtain ⟨i, hm, hi⟩ := h.inputs x hx
    exact ⟨i, hm, hg.input? hi⟩
  · obtain ⟨f, hm, hf⟩ := h.fields x hx
    exact ⟨f, hm, hg.field? hf⟩

/-- `p` is the view `parent` with the ids `ids` of a node of scope `s` laid over it: a name the
node declares maps to its own id and every other name as in `parent`, and the node's output and
generator, when it declares them, replace the parent's. -/
structure Proto.Over (p parent : Proto) (s : Scope) (ids : Scope.Ids) : Prop where
  inputs : ∀ n, p.inputs.lookup n = (ids.inputs.lookup n).or (parent.inputs.lookup n)
  fields : ∀ n, p.fields.lookup n = (ids.fields.lookup n).or (parent.fields.lookup n)
  output : p.output = s.output.or parent.output
  generator : p.generator = s.generator.or parent.generator

/-- **Extending a view over a node** makes the node's declarations once, at new ids, and lays
them over the parent's view. -/
theorem Proto.extend_spec {r : Registry} {b b' : Block} {s : Scope} {parent p : Proto}
    (hd : s.Distinct) (h : Proto.extend r b s parent = .ok (b', p)) :
    ∃ ids : Scope.Ids, ids.Made r b' s ∧ p.Over parent s ids ∧ b.Grows b' ∧
      Fresh b.fieldArena.size b'.fieldArena.size (ids.fields.map (·.2)) ∧
      Fresh b.inputArena.size b'.inputArena.size (ids.inputs.map (·.2)) := by
  have hgrow := Proto.extend_grows h
  unfold Proto.extend at h
  simp only [bind, Except.bind] at h
  split at h
  · cases h
  rename_i x hfields
  obtain ⟨b₁, fields⟩ := x
  split at h
  · cases h
  rename_i y hinputs
  obtain ⟨b₂, inputs⟩ := y
  cases h
  -- the fields are filed first, then the inputs
  obtain ⟨fids, hfn, hfm, hff, hfg, -, -, hfl⟩ := foldlM_filing (·.make r) Block.adoptField
    (·.fieldArena.size) Block.field? (fun _ _ => rfl) (fun _ _ => Array.size_push _)
    (fun _ _ _ => Array.getElem?_push) (fun b _ _ _ => b.grows_adoptField _)
    (fun _ _ _ _ => rfl) s.fields hd.fields hfields
  obtain ⟨iids, hin, him, hif, hig, -, -, hil⟩ := foldlM_filing
    (fun d => (r.makeInput d.kind (some d.name) d.accepts).mapError .registry) Block.adoptInput
    (·.inputArena.size) Block.input? (fun _ _ => rfl) (fun _ _ => Array.size_push _)
    (fun _ _ _ => Array.getElem?_push)
    (fun b _ _ hm => b.grows_adoptInput (makeInput_mapError_target hm))
    (fun _ _ _ _ => rfl) s.inputs hd.inputs hinputs
  refine ⟨⟨iids, fids⟩, ⟨hin, hfn, him, fun x hx => ?_⟩, ⟨hil, hfl, ?_, ?_⟩, hgrow,
    hff.mono (Nat.le_refl _) hig.fieldArena_size_le, ?_⟩
  · obtain ⟨f, hm, hf⟩ := hfm x hx
    exact ⟨f, hm, hig.field? hf⟩
  · exact Option.orElse_eq_or
  · exact Option.orElse_eq_or
  · exact hif.mono hfg.inputArena_size_le (Nat.le_refl _)

/-! ### The tree a making builds -/

/-- What a making gave each node of a plan, in the plan's shape. -/
inductive IdTree where
  | node (ids : Scope.Ids) (children : List IdTree)

namespace IdTree

mutual
/-- The ids `sel` picks at every node, each node before the nodes below it. -/
def idsOf (sel : Scope.Ids → List (String × Nat)) : IdTree → List Nat
  | .node ids ts => (sel ids).map (·.2) ++ idsOfAll sel ts

/-- The ids `sel` picks in a list of trees, tree by tree. -/
def idsOfAll (sel : Scope.Ids → List (String × Nat)) : List IdTree → List Nat
  | [] => []
  | t :: ts => idsOf sel t ++ idsOfAll sel ts
end

end IdTree

namespace VariantPlan

mutual
/-- `Realizes r b pv t v`: the variant tree `v` is made from the plan `pv`, and `t` is what the
making gave each node. Leaves and branches have the plan's names, a branch's children come in the
plan's order with the first one current, a branch's dropdown is the field made for the branch's
own name, and the block `b` holds what each node's declarations make at the node's ids. -/
inductive Realizes (r : Registry) (b : Block) : VariantPlan → IdTree → Variant → Prop
  | leaf {s : Scope} {message : String} {ids : Scope.Ids} {l : Leaf} (hids : ids.Made r b s)
      (hname : l.name = s.name) : Realizes r b (.leaf s message) (.node ids []) (.leaf l)
  | branch {s : Scope} {cs : List VariantPlan} {ids : Scope.Ids} {ts : List IdTree}
      {vs : List Variant} {dropdown : Nat} (hids : ids.Made r b s)
      (hdropdown : ids.fields.lookup s.name = some dropdown)
      (hchildren : RealizesAll r b cs ts vs) :
      Realizes r b (.branch s cs) (.node ids ts) (.branch s.name dropdown 0 vs)

/-- `RealizesAll r b cs ts vs`: the variant trees `vs` are made from the plans `cs`, one by one. -/
inductive RealizesAll (r : Registry) (b : Block) :
    List VariantPlan → List IdTree → List Variant → Prop
  | nil : RealizesAll r b [] [] []
  | cons {c : VariantPlan} {t : IdTree} {v : Variant} {cs : List VariantPlan} {ts : List IdTree}
      {vs : List Variant} (h : Realizes r b c t v) (hs : RealizesAll r b cs ts vs) :
      RealizesAll r b (c :: cs) (t :: ts) (v :: vs)
end

variable {r : Registry} {b b' : Block}

mutual
/-- What a block holds at a making's ids it keeps as it grows. -/
theorem Realizes.grow (hg : b.Grows b') :
    ∀ {pv : VariantPlan} {t : IdTree} {v : Variant}, Realizes r b pv t v → Realizes r b' pv t v
  | _, _, _, .leaf hids hname => .leaf (hids.grow hg) hname
  | _, _, _, .branch hids hdropdown hchildren =>
    .branch (hids.grow hg) hdropdown (RealizesAll.grow hg hchildren)

theorem RealizesAll.grow (hg : b.Grows b') :
    ∀ {cs : List VariantPlan} {ts : List IdTree} {vs : List Variant},
      RealizesAll r b cs ts vs → RealizesAll r b' cs ts vs
  | _, _, _, .nil => .nil
  | _, _, _, .cons h hs => .cons (Realizes.grow hg h) (RealizesAll.grow hg hs)
end

/-- `Reaches pv t v path message l`: taking the same child at every branch of the plan `pv`, of
the id tree `t` and of the variant tree `v` leads to a plan leaf with `message` and to the block's
leaf `l`; `path` lists the plan's scopes on the way, root first, each with its ids. -/
inductive Reaches :
    VariantPlan → IdTree → Variant → List (Scope × Scope.Ids) → String → Leaf → Prop
  | leaf {s : Scope} {message : String} {ids : Scope.Ids} {ts : List IdTree} {l : Leaf} :
      Reaches (.leaf s message) (.node ids ts) (.leaf l) [(s, ids)] message l
  | branch {s : Scope} {cs : List VariantPlan} {ids : Scope.Ids} {ts : List IdTree} {n : String}
      {dropdown current : Nat} {vs : List Variant} {c : VariantPlan} {t : IdTree} {v : Variant}
      {path : List (Scope × Scope.Ids)} {message : String} {l : Leaf}
      (hmem : (c, t, v) ∈ cs.zip (ts.zip vs)) (h : Reaches c t v path message l) :
      Reaches (.branch s cs) (.node ids ts) (.branch n dropdown current vs) ((s, ids) :: path)
        message l

/-- The leaf `l` with message `message`, reached through `path` below the view `parent`, is laid
out from its message with a view that maps each name to its id in the deepest node of the path
declaring it, else as `parent` does; its output and generator are those of the deepest node
declaring one, else the parent's. -/
def LeafView (r : Registry) (parent : Proto) (path : List (Scope × Scope.Ids)) (message : String)
    (l : Leaf) : Prop :=
  ∃ p : Proto,
    (∃ b₁ b₂, layoutLine r p l.name b₁ (Message.tokenize message) [] [] = .ok (b₂, l.line)) ∧
    (∀ n, p.inputs.lookup n =
      (path.reverse.findSome? (·.2.inputs.lookup n)).or (parent.inputs.lookup n)) ∧
    (∀ n, p.fields.lookup n =
      (path.reverse.findSome? (·.2.fields.lookup n)).or (parent.fields.lookup n)) ∧
    l.output = (path.reverse.findSome? (·.1.output)).or parent.output ∧
    l.generator = (path.reverse.findSome? (·.1.generator)).or parent.generator

/-- A leaf's view below a node's view is its view below the node's parent with the node put on
the front of its path. -/
theorem LeafView.cons {p parent : Proto} {s : Scope} {ids : Scope.Ids}
    {path : List (Scope × Scope.Ids)} {message : String} {l : Leaf} (hover : p.Over parent s ids)
    (h : LeafView r p path message l) : LeafView r parent ((s, ids) :: path) message l := by
  obtain ⟨q, hlay, hin, hfi, hout, hgen⟩ := h
  refine ⟨q, hlay, fun n => ?_, fun n => ?_, ?_, ?_⟩
  · rw [hin, hover.inputs, List.reverse_cons, List.findSome?_append, List.findSome?_singleton,
      Option.or_assoc]
  · rw [hfi, hover.fields, List.reverse_cons, List.findSome?_append, List.findSome?_singleton,
      Option.or_assoc]
  · rw [hout, hover.output, List.reverse_cons, List.findSome?_append, List.findSome?_singleton,
      Option.or_assoc]
  · rw [hgen, hover.generator, List.reverse_cons, List.findSome?_append, List.findSome?_singleton,
      Option.or_assoc]

/-- A map of ids reads a name exactly when the name is one of its keys. -/
theorem lookup_isSome_iff_mem {l : List (String × Nat)} {k : String} :
    (l.lookup k).isSome ↔ k ∈ l.map (·.1) := by
  rw [List.lookup_isSome_iff, List.mem_map]
  constructor
  · rintro ⟨x, hx, hk⟩
    exact ⟨x, hx, (beq_iff_eq.mp hk).symm⟩
  · rintro ⟨x, hx, rfl⟩
    exact ⟨x, hx, beq_self_eq_true _⟩

mutual
/-- **Making a subtree below a view.** A checked plan whose nodes declare each name once is made
into a variant tree that realizes it, at new ids that are all different, and each of its leaves is
laid out with the view of its path below the view it was made under. -/
theorem construct_realizes {parent : Proto} :
    ∀ {pv : VariantPlan} {b b' : Block} {v : Variant}, pv.Checked → pv.Distinct →
      pv.construct r parent b = .ok (b', v) →
      ∃ t, Realizes r b' pv t v ∧
        Fresh b.fieldArena.size b'.fieldArena.size (t.idsOf (·.fields)) ∧
        Fresh b.inputArena.size b'.inputArena.size (t.idsOf (·.inputs)) ∧
        ∀ path message l, Reaches pv t v path message l → LeafView r parent path message l
  | .leaf s message, b, b', v, _, hd, h => by
    cases hd with
    | leaf hs =>
    obtain ⟨b₁, p, line, hext, hline, rfl⟩ := construct_leaf_ok h
    obtain ⟨ids, hmade, hover, -, hff, hfi⟩ := Proto.extend_spec hs hext
    have hg := layoutLine_grows _ _ _ _ hline
    refine ⟨.node ids [], .leaf (hmade.grow hg) rfl, ?_, ?_, ?_⟩
    · simp only [IdTree.idsOf, IdTree.idsOfAll, List.append_nil]
      exact hff.mono (Nat.le_refl _) hg.fieldArena_size_le
    · simp only [IdTree.idsOf, IdTree.idsOfAll, List.append_nil]
      exact hfi.mono (Nat.le_refl _) hg.inputArena_size_le
    · intro path m l hr
      cases hr
      -- the leaf's own view is the one its line was laid out with
      refine ⟨p, ⟨b₁, b', hline⟩, fun n => ?_, fun n => ?_, ?_, ?_⟩
      · rw [hover.inputs, List.reverse_singleton, List.findSome?_singleton]
      · rw [hover.fields, List.reverse_singleton, List.findSome?_singleton]
      · rw [List.reverse_singleton, List.findSome?_singleton]
        exact hover.output
      · rw [List.reverse_singleton, List.findSome?_singleton]
        exact hover.generator
  | .branch s children, b, b', v, hc, hd, h => by
    cases hc with
    | branch _ _ hne hdrop hchildren =>
    cases hd with
    | branch hs hdchildren =>
    obtain ⟨fs, hfs⟩ := hdrop
    obtain ⟨b₁, p, d, vs, hext, hd, hall, rfl⟩ := construct_branch_ok h
    obtain ⟨ids, hmade, hover, hg₁, hff, hfi⟩ := Proto.extend_spec hs hext
    -- the branch's last field is its dropdown, filed under the branch's own name
    have hmem : s.name ∈ ids.fields.map (·.1) := by
      rw [hmade.field_names, hfs]
      simp
    obtain ⟨d', hown⟩ := Option.isSome_iff_exists.mp (lookup_isSome_iff_mem.mpr hmem)
    have hlook : p.fields.lookup s.name = some d' := by
      rw [hover.fields, hown]
      rfl
    rw [hlook, Option.some.injEq] at hd
    subst hd
    obtain ⟨ts, hreal, hff', hfi', hleaves⟩ := constructAll_realizes hchildren hdchildren hall
    have hg₂ := constructAll_grows _ hall
    refine ⟨.node ids ts, .branch (hmade.grow hg₂) hown hreal, ?_, ?_, ?_⟩
    · exact hff.append hff' hg₁.fieldArena_size_le hg₂.fieldArena_size_le
    · exact hfi.append hfi' hg₁.inputArena_size_le hg₂.inputArena_size_le
    · intro path m l hr
      cases hr with
      | branch hmem hr => exact (hleaves _ _ _ hmem _ _ _ hr).cons hover

theorem constructAll_realizes {parent : Proto} :
    ∀ {pvs : List VariantPlan} {b b' : Block} {vs : List Variant}, (∀ pv ∈ pvs, pv.Checked) →
      (∀ pv ∈ pvs, pv.Distinct) → constructAll r parent b pvs = .ok (b', vs) →
      ∃ ts, RealizesAll r b' pvs ts vs ∧
        Fresh b.fieldArena.size b'.fieldArena.size (IdTree.idsOfAll (·.fields) ts) ∧
        Fresh b.inputArena.size b'.inputArena.size (IdTree.idsOfAll (·.inputs) ts) ∧
        ∀ c t v, (c, t, v) ∈ pvs.zip (ts.zip vs) →
          ∀ path message l, Reaches c t v path message l → LeafView r parent path message l
  | [], b, b', vs, _, _, h => by
    cases h
    exact ⟨[], .nil, Fresh.nil _ _, Fresh.nil _ _, fun _ _ _ h => (by cases h)⟩
  | pv :: pvs, b, b', vs, hc, hd, h => by
    obtain ⟨b₁, x, xs, hv, hvs, rfl⟩ := constructAll_cons_ok h
    obtain ⟨t, hr, hff, hfi, hl⟩ :=
      construct_realizes (hc pv List.mem_cons_self) (hd pv List.mem_cons_self) hv
    obtain ⟨ts, hrs, hffs, hfis, hls⟩ := constructAll_realizes
      (fun w hw => hc w (List.mem_cons_of_mem _ hw)) (fun w hw => hd w (List.mem_cons_of_mem _ hw))
      hvs
    have hg₁ := construct_grows _ hv
    have hg₂ := constructAll_grows _ hvs
    refine ⟨t :: ts, .cons (hr.grow hg₂) hrs, ?_, ?_, fun c t' w hmem => ?_⟩
    · exact hff.append hffs hg₁.fieldArena_size_le hg₂.fieldArena_size_le
    · exact hfi.append hfis hg₁.inputArena_size_le hg₂.inputArena_size_le
    · rw [List.zip_cons_cons, List.zip_cons_cons] at hmem
      rcases List.mem_cons.mp hmem with heq | hmem
      · cases heq
        exact hl
      · exact hls c t' w hmem
end

theorem RealizesAll.of_mem_zip :
    ∀ {cs : List VariantPlan} {ts : List IdTree} {vs : List Variant} {c : VariantPlan}
      {t : IdTree} {v : Variant}, RealizesAll r b cs ts vs → (c, t, v) ∈ cs.zip (ts.zip vs) →
        Realizes r b c t v
  | _, _, _, _, _, _, .nil, hmem => by cases hmem
  | _, _, _, _, _, _, .cons h hs, hmem => by
    rw [List.zip_cons_cons, List.zip_cons_cons] at hmem
    rcases List.mem_cons.mp hmem with heq | hmem
    · cases heq
      exact h
    · exact hs.of_mem_zip hmem

/-- Every node on a path of a realized tree holds what its declarations make at its ids. -/
theorem Reaches.made {pv : VariantPlan} {t : IdTree} {v : Variant}
    {path : List (Scope × Scope.Ids)} {message : String} {l : Leaf}
    (hr : Reaches pv t v path message l) (h : Realizes r b pv t v) :
    ∀ x ∈ path, x.2.Made r b x.1 := by
  induction hr with
  | leaf =>
    cases h with
    | leaf hids _ =>
    intro x hx
    rw [List.mem_singleton.mp hx]
    exact hids
  | branch hmem _ ih =>
    cases h with
    | branch hids _ hchildren =>
    intro x hx
    rcases List.mem_cons.mp hx with rfl | hx
    · exact hids
    · exact ih (hchildren.of_mem_zip hmem) x hx

/-- Along a path of made nodes, the deepest node declaring a name reads it exactly when some node
declares it. -/
theorem findSome?_lookup_isSome {path : List (Scope × Scope.Ids)}
    (sel : Scope.Ids → List (String × Nat)) (decl : Scope → List String)
    (hnames : ∀ x ∈ path, (sel x.2).map (·.1) = decl x.1) (n : String) :
    (path.reverse.findSome? fun x => (sel x.2).lookup n).isSome ↔ ∃ x ∈ path, n ∈ decl x.1 := by
  rw [List.findSome?_isSome_iff]
  constructor
  · rintro ⟨x, hx, hsome⟩
    rw [List.mem_reverse] at hx
    exact ⟨x, hx, hnames x hx ▸ lookup_isSome_iff_mem.mp hsome⟩
  · rintro ⟨x, hx, hn⟩
    exact ⟨x, List.mem_reverse.mpr hx, lookup_isSome_iff_mem.mpr (hnames x hx ▸ hn)⟩

/-- **Variants inherit from their ancestors.** Making a block from a built plan, below no view,
either fails or gives a variant tree that realizes the plan at new ids, all different. Each leaf,
reached through a path of nodes from the root, is laid out from its message with a view that maps
exactly the names declared along the path, each to the id of the deepest node declaring it, and
takes its output and its generator from the deepest node declaring one. -/
theorem construct_inherits {shape : Code.Shape} {messages : Messages} {d : VariantData}
    {pv : VariantPlan} {b b' : Block} {v : Variant} (hbuild : build shape messages {} d = .ok pv)
    (h : pv.construct r {} b = .ok (b', v)) :
    ∃ t : IdTree, Realizes r b' pv t v ∧
      Fresh b.fieldArena.size b'.fieldArena.size (t.idsOf (·.fields)) ∧
      Fresh b.inputArena.size b'.inputArena.size (t.idsOf (·.inputs)) ∧
      ∀ path message l, Reaches pv t v path message l →
        ∃ p : Proto,
          (∃ b₁ b₂, layoutLine r p l.name b₁ (Message.tokenize message) [] [] = .ok (b₂, l.line)) ∧
          (∀ n, p.inputs.lookup n = path.reverse.findSome? (·.2.inputs.lookup n)) ∧
          (∀ n, p.fields.lookup n = path.reverse.findSome? (·.2.fields.lookup n)) ∧
          (∀ n, (p.inputs.lookup n).isSome ↔ ∃ x ∈ path, n ∈ x.1.inputs.map (·.1)) ∧
          (∀ n, (p.fields.lookup n).isSome ↔ ∃ x ∈ path, n ∈ x.1.fields.map (·.1)) ∧
          l.output = path.reverse.findSome? (·.1.output) ∧
          l.generator = path.reverse.findSome? (·.1.generator) := by
  obtain ⟨t, hreal, hff, hfi, hleaves⟩ :=
    construct_realizes (build_checked hbuild).1 (build_distinct hbuild) h
  refine ⟨t, hreal, hff, hfi, fun path message l hr => ?_⟩
  obtain ⟨p, hlay, hin, hfd, hout, hgen⟩ := hleaves path message l hr
  -- below no view, all a leaf sees comes from its path
  simp only [List.lookup_nil, Option.or_none] at hin hfd hout hgen
  have hmade := hr.made hreal
  refine ⟨p, hlay, hin, hfd, fun n => ?_, fun n => ?_, hout, hgen⟩
  · rw [hin]
    exact findSome?_lookup_isSome Scope.Ids.inputs (fun s => s.inputs.map (·.1))
      (fun x hx => (hmade x hx).input_names) n
  · rw [hfd]
    exact findSome?_lookup_isSome Scope.Ids.fields (fun s => s.fields.map (·.1))
      (fun x hx => (hmade x hx).field_names) n

/-- A branch `S` with an input `X`, whose variant `A` declares an output and whose variant `B`
declares `X` again. -/
def overrideData : VariantData :=
  { name := "S", inputs := [{ name := "X" }],
    variants := some [
      { name := "A", outputs := some ["Number"], message := some "%\x7bX\x7d" },
      { name := "B", inputs := [{ name := "X" }], message := some "%\x7bX\x7d" }] }

/-- The plan built from `overrideData`. -/
def overridePlan : VariantPlan :=
  .branch ⟨"S", [("X", { name := "X" })], [("S", branchDropdown "S" ["A", "B"])], none, none⟩
    [.leaf ⟨"A", [], [], some ⟨some ["Number"]⟩, none⟩ "%\x7bX\x7d",
      .leaf ⟨"B", [("X", { name := "X" })], [], none, none⟩ "%\x7bX\x7d"]

theorem override_build : build .value {} {} overrideData = .ok overridePlan := by
  rfl

/-- A block of the plan `overridePlan` is made, and its leaves inherit as stated. -/
theorem override_inherits :
    build .value {} {} overrideData = .ok overridePlan ∧
      ∃ b' v, overridePlan.construct Registry.builtin {} { id := 0, typeName := "S" } = .ok (b', v) ∧
        ∃ t : IdTree, Realizes Registry.builtin b' overridePlan t v ∧
          Fresh 0 b'.fieldArena.size (t.idsOf (·.fields)) ∧
          Fresh 0 b'.inputArena.size (t.idsOf (·.inputs)) ∧
          ∀ path message l, Reaches overridePlan t v path message l →
            ∃ p : Proto,
              (∃ b₁ b₂, layoutLine Registry.builtin p l.name b₁ (Message.tokenize message) [] [] =
                .ok (b₂, l.line)) ∧
              (∀ n, p.inputs.lookup n = path.reverse.findSome? (·.2.inputs.lookup n)) ∧
              (∀ n, p.fields.lookup n = path.reverse.findSome? (·.2.fields.lookup n)) ∧
              (∀ n, (p.inputs.lookup n).isSome ↔ ∃ x ∈ path, n ∈ x.1.inputs.map (·.1)) ∧
              (∀ n, (p.fields.lookup n).isSome ↔ ∃ x ∈ path, n ∈ x.1.fields.map (·.1)) ∧
              l.output = path.reverse.findSome? (·.1.output) ∧
              l.generator = path.reverse.findSome? (·.1.generator) := by
  -- the kernel runs the making and finds that it succeeds
  have hok : (overridePlan.construct Registry.builtin {} { id := 0, typeName := "S" }).toOption.isSome
      := by decide +kernel
  rcases hmade : overridePlan.construct Registry.builtin {} { id := 0, typeName := "S" } with
    e | ⟨b', v⟩
  · rw [hmade] at hok
    cases hok
  exact ⟨override_build, b', v, rfl, construct_inherits override_build hmade⟩

end VariantPlan

end Blockwork
