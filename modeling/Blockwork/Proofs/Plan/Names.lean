import Blockwork.Proofs.Plan.Inheritance

/-!
# Names a plan keeps apart

Building a plan checks its names node by node from the root (`VariantPlan.build`): a node
declares each input name and each field name once, a branch's children have different names and
no own field takes the branch's name, and no name is both an input and a field once the node's
names are added to those it inherits (`Scope.checkCollisions`). The check at a node compares only
the node's own names with the inherited ones; the inherited names were checked higher up.

So along every path from the root of a built plan, the input names and the field names declared
on the path, every branch's dropdown counting as a field named after the branch, are apart
(`VariantPlan.Path`, `build_names_apart`). A block made from the plan is laid out from the
message of its active leaf, whose line shows only inputs and fields declared on the leaf's path,
dummies and labels aside: no name of a visible input is the name of a visible field, so a
template of the block never sees one name bound both to an input and to a field.
-/

namespace Blockwork

theorem mem_addNew {n : String} :
    ∀ {known names : List String}, n ∈ addNew known names ↔ n ∈ known ∨ n ∈ names
  | _, [] => by simp [addNew]
  | known, m :: ms => by
    rw [show addNew known (m :: ms) =
      addNew (if known.contains m then known else known ++ [m]) ms from rfl, mem_addNew]
    by_cases hm : m ∈ known
    · simp only [List.contains_iff_mem, hm, if_true, List.mem_cons]
      constructor
      · rintro (h | h)
        · exact Or.inl h
        · exact Or.inr (Or.inr h)
      · rintro (h | rfl | h)
        · exact Or.inl h
        · exact Or.inl hm
        · exact Or.inr h
    · simp only [List.contains_iff_mem, hm, if_false, List.mem_append, List.mem_cons,
        List.not_mem_nil, or_false, or_assoc]

namespace Inherited

/-- No name is both an input and a field. -/
def Disjoint (inh : Inherited) : Prop := ∀ n ∈ inh.inputs, n ∉ inh.fields

/-- The names visible below the nodes `path`, root first, each node's added to those above. -/
def along (inh : Inherited) (path : List Scope) : Inherited :=
  path.foldl (fun inh s => s.extend inh) inh

variable {n : String}

theorem mem_along_inputs : ∀ {inh : Inherited} {path : List Scope},
    n ∈ (inh.along path).inputs ↔ n ∈ inh.inputs ∨ n ∈ path.flatMap (·.inputs.map (·.1))
  | _, [] => by simp [along]
  | inh, s :: path => by
    rw [show inh.along (s :: path) = (s.extend inh).along path from rfl, mem_along_inputs]
    simp only [Scope.extend, mem_addNew, List.flatMap_cons, List.mem_append, or_assoc]

theorem mem_along_fields : ∀ {inh : Inherited} {path : List Scope},
    n ∈ (inh.along path).fields ↔ n ∈ inh.fields ∨ n ∈ path.flatMap (·.fields.map (·.1))
  | _, [] => by simp [along]
  | inh, s :: path => by
    rw [show inh.along (s :: path) = (s.extend inh).along path from rfl, mem_along_fields]
    simp only [Scope.extend, mem_addNew, List.flatMap_cons, List.mem_append, or_assoc]

end Inherited

namespace Scope

variable {s : Scope} {inh : Inherited}

/-- What an accepted collision check says: no own input is an own or inherited field, and no own
field is an inherited input. -/
theorem checkCollisions_ok (h : s.checkCollisions inh = .ok ()) :
    (∀ n ∈ s.inputs.map (·.1), n ∉ s.fields.map (·.1) ∧ n ∉ inh.fields) ∧
      ∀ n ∈ s.fields.map (·.1), n ∉ inh.inputs := by
  unfold checkCollisions at h
  dsimp only at h
  split at h
  · cases h
  rename_i hclash
  simp only [HOrElse.hOrElse, OrElse.orElse, Option.orElse_eq_or, Option.or_eq_none_iff,
    Option.map_eq_none_iff, List.find?_eq_none] at hclash
  refine ⟨fun n hn => ?_, fun n hn => ?_⟩
  · obtain ⟨x, hx, rfl⟩ := List.mem_map.mp hn
    have := hclash.1 x hx
    simp only [Bool.or_eq_true, not_or, Bool.not_eq_true] at this
    exact ⟨not_mem_of_hasField this.1, by simpa using this.2⟩
  · obtain ⟨x, hx, rfl⟩ := List.mem_map.mp hn
    simpa using hclash.2 x hx

/-- **The names below a checked node stay apart**: the three directions the check compares, with
the inherited names apart already, make the fourth. -/
theorem extend_disjoint (h : s.checkCollisions inh = .ok ()) (hd : inh.Disjoint) :
    (s.extend inh).Disjoint := by
  obtain ⟨hin, hfd⟩ := checkCollisions_ok h
  intro n hn hf
  simp only [extend, mem_addNew] at hn hf
  rcases hn with hn | hn <;> rcases hf with hf | hf
  · exact hd n hn hf
  · exact hfd n hf hn
  · exact (hin n hn).2 hf
  · exact (hin n hn).1 hf

/-- Each declaration of the scope is filed under its own name. -/
def Keyed (s : Scope) : Prop :=
  (∀ x ∈ s.inputs, x.1 = x.2.name) ∧ ∀ x ∈ s.fields, x.1 = x.2.name

theorem ofData_keyed {shape : Code.Shape} {d : VariantData} (h : Scope.ofData shape d = .ok s) :
    s.Keyed := by
  obtain ⟨-, -, hi, hf⟩ := ofData_ok h
  refine ⟨fun x hx => ?_, fun x hx => ?_⟩
  · rw [hi] at hx
    obtain ⟨i, -, rfl⟩ := List.mem_map.mp hx
    rfl
  · rw [hf] at hx
    obtain ⟨f, -, rfl⟩ := List.mem_map.mp hx
    rfl

theorem Keyed.withDropdown (h : s.Keyed) (name : String) (children : List String) :
    (s.withDropdown name children).Keyed := by
  refine ⟨h.1, fun x hx => ?_⟩
  rcases List.mem_append.mp hx with hx | hx
  · exact h.2 x hx
  · rw [List.mem_singleton.mp hx]
    rfl

end Scope

namespace VariantPlan

/-- `pv.Path path v`: `v` is a node of the plan `pv`, and `path` lists the scopes of the nodes from
the root of `pv` down to `v`, `v`'s own last. -/
inductive Path : VariantPlan → List Scope → VariantPlan → Prop
  | here (v : VariantPlan) : Path v [v.scope] v
  | child {s : Scope} {cs : List VariantPlan} {c : VariantPlan} {path : List Scope}
      {v : VariantPlan} (hc : c ∈ cs) (h : Path c path v) : Path (.branch s cs) (s :: path) v

/-- What building checked of the names at every node below the inherited names `inh`: each
declaration is filed under its own name, the collision check passed, and a branch's children have
different names. -/
inductive NamesChecked : Inherited → VariantPlan → Prop
  | leaf {inh : Inherited} {s : Scope} {message : String} (hk : s.Keyed)
      (hc : s.checkCollisions inh = .ok ()) : NamesChecked inh (.leaf s message)
  | branch {inh : Inherited} {s : Scope} {cs : List VariantPlan} (hk : s.Keyed)
      (hc : s.checkCollisions inh = .ok ()) (hnames : (cs.map (·.scope.name)).Nodup)
      (hcs : ∀ c ∈ cs, NamesChecked (s.extend inh) c) : NamesChecked inh (.branch s cs)

variable {shape : Code.Shape} {messages : Messages}

/-- **A built plan passed its name checks** at every node. -/
theorem build_namesChecked {inh : Inherited} {d : VariantData} {v : VariantPlan}
    (h : build shape messages inh d = .ok v) : v.NamesChecked inh :=
  build_induct (fun inh v => v.NamesChecked inh)
    (fun _ _ _ _ hs hc => .leaf (Scope.ofData_keyed hs) hc)
    (fun _ _ _ _ _ hs _ hrep _ hc hbuilt hcs => by
      refine .branch ((Scope.ofData_keyed hs).withDropdown _ _) hc ?_ hcs
      rw [(buildAll_checked hbuilt).2]
      exact nodup_of_firstRepeat hrep)
    h

variable {inh : Inherited} {v w : VariantPlan} {ps : List Scope}

theorem NamesChecked.scope (h : v.NamesChecked inh) :
    v.scope.Keyed ∧ v.scope.checkCollisions inh = .ok () := by
  cases h with
  | leaf hk hc => exact ⟨hk, hc⟩
  | branch hk hc _ _ => exact ⟨hk, hc⟩

/-- **Along every path the names stay apart**, node by node: each node's check keeps the names
visible below it apart when those above were. -/
theorem NamesChecked.path (h : v.NamesChecked inh) (hd : inh.Disjoint) (hp : v.Path ps w) :
    (inh.along ps).Disjoint ∧ ∃ inh', w.NamesChecked inh' := by
  induction hp generalizing inh with
  | here v => exact ⟨Scope.extend_disjoint h.scope.2 hd, inh, h⟩
  | child hc _ ih =>
    cases h with
    | branch _ hcol _ hcs => exact ih (hcs _ hc) (Scope.extend_disjoint hcol hd)

theorem Distinct.path (h : v.Distinct) (hp : v.Path ps w) : w.Distinct := by
  induction hp with
  | here v => exact h
  | child hc _ ih =>
    cases h with
    | branch _ hcs => exact ih (hcs _ hc)

end VariantPlan

/-- The plan's variant tree is the one built from the declaration's root. -/
theorem BlockPlan.build_variants {d : BlockData} {messages : Messages} {extra : List Nat}
    {p : BlockPlan} (h : BlockPlan.build d messages extra = .ok p) :
    VariantPlan.build d.kind.shape messages {} d.rootVariant = .ok p.variants := by
  simp only [BlockPlan.build, bind, Except.bind] at h
  split at h
  · cases h
  rename_i v hv
  cases h
  exact hv

/-! ### What a layout shows -/

/-- The entries of two lists of equal keys, paired up, pair each entry of the second with one of
the same key. -/
theorem exists_zip_of_map_fst {α β : Type} :
    ∀ {l₁ : List (String × α)} {l₂ : List (String × β)}, l₂.map (·.1) = l₁.map (·.1) →
      ∀ y ∈ l₂, ∃ x, (x, y) ∈ l₁.zip l₂ ∧ x.1 = y.1
  | [], [], _, _, hy => by cases hy
  | [], _ :: _, h, _, _ => by cases h
  | _ :: _, [], h, _, _ => by cases h
  | x :: l₁, y' :: l₂, h, y, hy => by
    simp only [List.map_cons, List.cons.injEq] at h
    rw [List.zip_cons_cons]
    rcases List.mem_cons.mp hy with rfl | hy
    · exact ⟨x, List.mem_cons_self, h.1.symm⟩
    · obtain ⟨x', hx', he⟩ := exists_zip_of_map_fst h.2 y hy
      exact ⟨x', List.mem_cons_of_mem _ hx', he⟩

theorem Registry.makeInput_name {r : Registry} {k : InputKind} {n : Option String}
    {c : Option (List String)} {i : Input} (h : r.makeInput k n c = .ok i) : i.name = n := by
  unfold Registry.makeInput at h
  rcases hk : r.input? k.registryName with e | k'
  · rw [hk] at h
    cases h
  · rw [hk] at h
    cases h
    rfl

/-- A field made from a declaration is named after it, whatever its maker and default. -/
theorem FieldData.make_name {r : Registry} {d : FieldData} {f : Field} (h : d.make r = .ok f) :
    f.name = some d.name := by
  obtain ⟨-, -, -, -, -, rfl⟩ := FieldData.make_ok h
  rfl

namespace Block

variable {b b' : Block} {names names' : List String}

/-- The input at `k` is an input of the block named, if at all, by one of `names`. -/
def InputNamedIn (b : Block) (k : Nat) (names : List String) : Prop :=
  ∃ i, b.input? k = some i ∧ ∀ n, i.name = some n → n ∈ names

/-- The field at `f` is a field of the block named, if at all, by one of `names`. -/
def FieldNamedIn (b : Block) (f : Nat) (names : List String) : Prop :=
  ∃ fd, b.field? f = some fd ∧ ∀ n, fd.name = some n → n ∈ names

/-- Every input on the line is named, if at all, by one of `A`'s inputs, and every field on its
rows by one of `A`'s fields. -/
def LineNamedIn (b : Block) (line : List LineEntry) (A : Inherited) : Prop :=
  ∀ e ∈ line, b.InputNamedIn e.input A.inputs ∧ ∀ f ∈ e.fields, b.FieldNamedIn f A.fields

theorem InputNamedIn.grow {k : Nat} (h : b.InputNamedIn k names) (hg : b.Grows b') :
    b'.InputNamedIn k names :=
  h.imp fun _ hi => ⟨hg.input? hi.1, hi.2⟩

theorem FieldNamedIn.grow {f : Nat} (h : b.FieldNamedIn f names) (hg : b.Grows b') :
    b'.FieldNamedIn f names :=
  h.imp fun _ hf => ⟨hg.field? hf.1, hf.2⟩

theorem InputNamedIn.mono {k : Nat} (h : b.InputNamedIn k names) (hs : ∀ n ∈ names, n ∈ names') :
    b.InputNamedIn k names' :=
  h.imp fun _ hi => ⟨hi.1, fun n hn => hs n (hi.2 n hn)⟩

theorem FieldNamedIn.mono {f : Nat} (h : b.FieldNamedIn f names) (hs : ∀ n ∈ names, n ∈ names') :
    b.FieldNamedIn f names' :=
  h.imp fun _ hf => ⟨hf.1, fun n hn => hs n (hf.2 n hn)⟩

theorem LineNamedIn.grow {line : List LineEntry} {A : Inherited} (h : b.LineNamedIn line A)
    (hg : b.Grows b') : b'.LineNamedIn line A :=
  fun e he => ⟨(h e he).1.grow hg, fun f hf => ((h e he).2 f hf).grow hg⟩

/-- A line with one more entry: its input and the fields waiting for it. -/
theorem LineNamedIn.append {line : List LineEntry} {A : Inherited} {i : Nat} {buffer : List Nat}
    (h : b.LineNamedIn line A) (hi : b.InputNamedIn i A.inputs)
    (hbuf : ∀ f ∈ buffer, b.FieldNamedIn f A.fields) : b.LineNamedIn (line ++ [⟨i, buffer⟩]) A := by
  intro e he
  rcases List.mem_append.mp he with he | he
  · exact h e he
  · rw [List.mem_singleton.mp he]
    exact ⟨hi, hbuf⟩

end Block

/-- Every id the view maps a name to is an input or a field of the block named, if at all, by
one of `A`'s names. -/
def Proto.NamedIn (p : Proto) (b : Block) (A : Inherited) : Prop :=
  (∀ n k, p.inputs.lookup n = some k → b.InputNamedIn k A.inputs) ∧
  (∀ n f, p.fields.lookup n = some f → b.FieldNamedIn f A.fields)

theorem Proto.NamedIn.grow {p : Proto} {b b' : Block} {A : Inherited} (h : p.NamedIn b A)
    (hg : b.Grows b') : p.NamedIn b' A :=
  ⟨fun n k hk => (h.1 n k hk).grow hg, fun n f hf => (h.2 n f hf).grow hg⟩

/-- A dummy input has no name. -/
theorem addDummy_namedIn {r : Registry} {b b' : Block} {i : Nat} (names : List String)
    (h : addDummy r b = .ok (b', i)) : b'.InputNamedIn i names := by
  obtain ⟨input, hm, heq⟩ := addDummy_ok h
  cases heq
  refine ⟨input, by simp [Block.input?], fun n hn => ?_⟩
  rw [Registry.makeInput_name hm] at hn
  cases hn

/-- **A line laid out from a view shows only what the view names**, and unnamed dummies and
labels: its inputs are the view's or dummies, the fields on its rows the view's or labels. -/
theorem layoutLine_namedIn {r : Registry} {p : Proto} {A : Inherited} {leaf : String} :
    ∀ {tokens : List Message.Token} {b b' : Block} {buffer : List Nat}
      {line line' : List LineEntry}, p.NamedIn b A → (∀ f ∈ buffer, b.FieldNamedIn f A.fields) →
      b.LineNamedIn line A → layoutLine r p leaf b tokens buffer line = .ok (b', line') →
      b'.LineNamedIn line' A := by
  intro tokens b b' buffer line line' hp hbuf hline h
  -- the view, the waiting fields and the entries laid so far stay named within `A`
  refine (layoutLine_invariant (fun b₁ buffer₁ line₁ => p.NamedIn b₁ A ∧
      (∀ f ∈ buffer₁, b₁.FieldNamedIn f A.fields) ∧ b₁.LineNamedIn line₁ A)
    ?_ ?_ ?_ ?_ h ⟨hp, hbuf, hline⟩).2.2
  · -- a label joins the waiting fields
    rintro b₁ buffer₁ line₁ s ⟨hp, hbuf, hline⟩
    have hg := b₁.grows_adoptField (Field.label s)
    refine ⟨hp.grow hg, fun f hf => ?_, hline.grow hg⟩
    rcases List.mem_append.mp hf with hf | hf
    · exact (hbuf f hf).grow hg
    · rw [List.mem_singleton.mp hf]
      exact ⟨Field.label s, b₁.field?_adoptField _, fun n hn => by cases hn⟩
  · -- the waiting fields go on a dummy input
    rintro b₁ b₂ i buffer₁ line₁ hd ⟨hp, hbuf, hline⟩
    have hg := addDummy_grows hd
    exact ⟨hp.grow hg, fun _ hf => (by cases hf),
      (hline.grow hg).append (addDummy_namedIn _ hd) fun f hf => (hbuf f hf).grow hg⟩
  · -- an input of the view takes them
    rintro b₁ n k buffer₁ line₁ hk ⟨hp, hbuf, hline⟩
    exact ⟨hp, fun _ hf => (by cases hf), hline.append (hp.1 n k hk) hbuf⟩
  · -- a field of the view joins them
    rintro b₁ n f buffer₁ line₁ hf ⟨hp, hbuf, hline⟩
    refine ⟨hp, fun g hg => ?_, hline⟩
    rcases List.mem_append.mp hg with hg | hg
    · exact hbuf g hg
    · rw [List.mem_singleton.mp hg]
      exact hp.2 n f hf

theorem makeInput_mapError_name {r : Registry} {k : InputKind} {n : Option String}
    {c : Option (List String)} {i : Input}
    (h : (r.makeInput k n c).mapError PlanError.registry = .ok i) : i.name = n := by
  rcases hm : r.makeInput k n c with e | i'
  · simp [hm, Except.mapError] at h
  · simp only [hm, Except.mapError, Except.ok.injEq] at h
    subst h
    exact Registry.makeInput_name hm

namespace Scope.Ids.Made

variable {r : Registry} {b : Block} {s : Scope} {ids : Scope.Ids} {n : String}

/-- The input a making filed a name under is named after it. -/
theorem input_named (h : ids.Made r b s) (hk : s.Keyed) {k : Nat}
    (hl : ids.inputs.lookup n = some k) : ∃ i, b.input? k = some i ∧ i.name = some n := by
  obtain ⟨l₁, l₂, hsplit, -⟩ := List.lookup_eq_some_iff.mp hl
  obtain ⟨x, hx, hxn⟩ := exists_zip_of_map_fst h.input_names (n, k) (by rw [hsplit]; simp)
  obtain ⟨i, hm, hi⟩ := h.inputs (x, (n, k)) hx
  refine ⟨i, hi, ?_⟩
  -- the input is named after its declaration, which is filed under that name
  rw [makeInput_mapError_name hm, ← hk.1 x (List.of_mem_zip hx).1, hxn]

/-- The field a making filed a name under is named after it. -/
theorem field_named (h : ids.Made r b s) (hk : s.Keyed) {f : Nat}
    (hl : ids.fields.lookup n = some f) : ∃ fd, b.field? f = some fd ∧ fd.name = some n := by
  obtain ⟨l₁, l₂, hsplit, -⟩ := List.lookup_eq_some_iff.mp hl
  obtain ⟨x, hx, hxn⟩ := exists_zip_of_map_fst h.field_names (n, f) (by rw [hsplit]; simp)
  obtain ⟨fd, hm, hf⟩ := h.fields (x, (n, f)) hx
  refine ⟨fd, hf, ?_⟩
  rw [FieldData.make_name hm, ← hk.2 x (List.of_mem_zip hx).1, hxn]

/-- An id a making filed an input name under holds an input of that name. -/
theorem inputNamedIn (h : ids.Made r b s) (hk : s.Keyed) {k : Nat}
    (hl : ids.inputs.lookup n = some k) : b.InputNamedIn k (s.inputs.map (·.1)) := by
  obtain ⟨i, hi, hn⟩ := h.input_named hk hl
  refine ⟨i, hi, fun m hm => ?_⟩
  rw [hn, Option.some.injEq] at hm
  rw [← hm, ← h.input_names, ← VariantPlan.lookup_isSome_iff_mem, hl]
  rfl

/-- An id a making filed a field name under holds a field of that name. -/
theorem fieldNamedIn (h : ids.Made r b s) (hk : s.Keyed) {f : Nat}
    (hl : ids.fields.lookup n = some f) : b.FieldNamedIn f (s.fields.map (·.1)) := by
  obtain ⟨fd, hf, hn⟩ := h.field_named hk hl
  refine ⟨fd, hf, fun m hm => ?_⟩
  rw [hn, Option.some.injEq] at hm
  rw [← hm, ← h.field_names, ← VariantPlan.lookup_isSome_iff_mem, hl]
  rfl

end Scope.Ids.Made

/-- Extending a view over a node whose declarations are filed under their names: what the new
view names, it names after the node's names or the names above it. -/
theorem Proto.NamedIn.extend {r : Registry} {b b' : Block} {s : Scope} {parent p : Proto}
    {A : Inherited} (hP : parent.NamedIn b A) (hd : s.Distinct) (hk : s.Keyed)
    (h : Proto.extend r b s parent = .ok (b', p)) : p.NamedIn b' (s.extend A) ∧ b.Grows b' := by
  obtain ⟨ids, hmade, hover, hg, -, -⟩ := Proto.extend_spec hd h
  refine ⟨⟨fun n k hl => ?_, fun n f hl => ?_⟩, hg⟩
  · rw [hover.inputs] at hl
    rcases ho : ids.inputs.lookup n with _ | k'
    · rw [ho, Option.none_or] at hl
      exact ((hP.1 n k hl).grow hg).mono fun m hm => by simp [Scope.extend, mem_addNew, hm]
    · rw [ho, Option.some_or, Option.some.injEq] at hl
      subst hl
      exact (hmade.inputNamedIn hk ho).mono fun m hm => by simp [Scope.extend, mem_addNew, hm]
  · rw [hover.fields] at hl
    rcases ho : ids.fields.lookup n with _ | f'
    · rw [ho, Option.none_or] at hl
      exact ((hP.2 n f hl).grow hg).mono fun m hm => by simp [Scope.extend, mem_addNew, hm]
    · rw [ho, Option.some_or, Option.some.injEq] at hl
      subst hl
      exact (hmade.fieldNamedIn hk ho).mono fun m hm => by simp [Scope.extend, mem_addNew, hm]

namespace VariantPlan

variable {r : Registry} {parent : Proto} {b b' : Block}

/-- **The active leaf of a new tree shows only its path's names.** Making a plan whose nodes
declare each name once and file it under its name, below a view naming within `A`, lays the
active leaf out with a line whose inputs and fields are named, if at all, after the names
declared above it in `A` or on its path. -/
theorem construct_activeLine :
    ∀ {pv : VariantPlan} {A : Inherited} {parent : Proto} {b b' : Block} {v : Variant} {l : Leaf},
      pv.Distinct → (∀ ps w, pv.Path ps w → w.scope.Keyed) → parent.NamedIn b A →
      pv.construct r parent b = .ok (b', v) → v.activeLeaf? = some l →
      ∃ ps w, pv.Path ps w ∧ b'.LineNamedIn l.line (A.along ps)
  | .leaf s message, A, parent, b, b', v, l, hd, hk, hP, h, hl => by
    cases hd with
    | leaf hs =>
    obtain ⟨b₁, p, line, hext, hline, rfl⟩ := construct_leaf_ok h
    obtain ⟨hp, -⟩ := hP.extend hs (hk _ _ (.here _)) hext
    cases hl
    exact ⟨[s], _, .here _, layoutLine_namedIn hp (fun _ hf => by cases hf)
      (fun _ he => by cases he) hline⟩
  | .branch s cs, A, parent, b, b', v, l, hd, hk, hP, h, hl => by
    cases hd with
    | branch hs hcs =>
    obtain ⟨b₁, p, d, vs, hext, -, hall, rfl⟩ := construct_branch_ok h
    obtain ⟨hp, -⟩ := hP.extend hs (hk _ _ (.here _)) hext
    -- the first child is the active one, and a branch without children has no active leaf
    cases cs with
    | nil =>
      simp only [constructAll, pure, Except.pure, Except.ok.injEq, Prod.mk.injEq] at hall
      obtain ⟨-, rfl⟩ := hall
      cases hl
    | cons c cs =>
      obtain ⟨b₃, x, xs, hc, hrest, rfl⟩ := constructAll_cons_ok hall
      obtain ⟨ps, w, hpath, hline⟩ := construct_activeLine (hcs c List.mem_cons_self)
        (fun ps w hp => hk _ w (.child List.mem_cons_self hp)) hp hc hl
      exact ⟨s :: ps, w, .child List.mem_cons_self hpath, hline.grow (constructAll_grows _ hrest)⟩

end VariantPlan

/-! ### A new block -/

namespace Block

theorem mem_visibleInputs {b : Block} {k : Nat} {i : Input} :
    (k, i) ∈ b.visibleInputs ↔ k ∈ b.line ∧ b.input? k = some i := by
  simp only [visibleInputs, List.mem_filterMap, Option.map_eq_some_iff, Prod.mk.injEq]
  constructor
  · rintro ⟨k', hk', i', hi', rfl, rfl⟩
    exact ⟨hk', hi'⟩
  · rintro ⟨hk, hi⟩
    exact ⟨k, hk, i, hi, rfl, rfl⟩

/-- A visible field sits on the row of a visible input. -/
theorem mem_visibleFields {b : Block} {f : Nat} {fd : Field} (h : (f, fd) ∈ b.visibleFields) :
    ∃ k i, (k, i) ∈ b.visibleInputs ∧ f ∈ i.fieldRow ∧ b.field? f = some fd := by
  simp only [visibleFields, List.mem_flatMap, List.mem_filterMap, Option.map_eq_some_iff,
    Prod.mk.injEq] at h
  obtain ⟨⟨k, i⟩, hki, f', hf', fd', hfd', rfl, rfl⟩ := h
  exact ⟨k, i, hki, hf', hfd'⟩

/-- An input after a line's rows are set: the input it was, with the row of the last entry for it
when the line has one. -/
theorem setRows_getElem? : ∀ (line : List LineEntry) (a : Array Input) {k : Nat} {i : Input},
    (setRows line a)[k]? = some i →
    ∃ i₀, a[k]? = some i₀ ∧ i.name = i₀.name ∧
      (k ∈ line.map (·.input) → ∃ e ∈ line, e.input = k ∧ i.fieldRow = e.fields) ∧
      (k ∉ line.map (·.input) → i = i₀)
  | [], a, _, i, h => ⟨i, h, rfl, (fun hk => by cases hk), fun _ => rfl⟩
  | e :: line, a, k, i, h => by
    rw [setRows_cons] at h
    obtain ⟨i₁, h₁, hname, hrow, hsame⟩ := setRows_getElem? line _ h
    rw [Array.getElem?_modify] at h₁
    have hrest : k ∈ line.map (·.input) → ∃ e' ∈ e :: line, e'.input = k ∧ i.fieldRow = e'.fields :=
      fun hk => (hrow hk).imp fun e' he' => ⟨List.mem_cons_of_mem _ he'.1, he'.2⟩
    split at h₁
    · -- the first entry set this input's row; a later one may set it again
      rename_i hek
      obtain ⟨i₀, h₀, rfl⟩ := Option.map_eq_some_iff.mp h₁
      refine ⟨i₀, h₀, hname, fun _ => ?_, fun hk => absurd (by simp [hek]) hk⟩
      by_cases hk : k ∈ line.map (·.input)
      · exact hrest hk
      · exact ⟨e, List.mem_cons_self, hek, by rw [hsame hk]⟩
    · rename_i hek
      refine ⟨i₁, h₁, hname, fun hk => ?_, fun hk => hsame fun h' => hk (by simp [h'])⟩
      simp only [List.map_cons, List.mem_cons] at hk
      rcases hk with hk | hk
      · exact absurd hk.symm hek
      · exact hrest hk

end Block

namespace BlockPlan

variable (p : BlockPlan) (b : Block) (leaf : Leaf)

theorem line_configure : (p.configure b leaf).line = leaf.line.map (·.input) := by
  simp only [configure, Block.layOut_eq]

theorem input?_configure (k : Nat) :
    (p.configure b leaf).input? k = (Block.setRows leaf.line b.inputArena)[k]? := by
  simp only [configure, Block.layOut_eq]
  cases p.kind <;> rfl

variable {p}

/-- Setting a block up: its variant tree is made on a copy with the plan's looks, then laid out
from the tree's active leaf, if any. -/
theorem setUp_cases {r : Registry} {b₀ b : Block} (h : p.setUp r b₀ = .ok b) :
    ∃ b₀' b₁ v, b₀'.line = b₀.line ∧ b₀'.fieldArena = b₀.fieldArena ∧
      p.variants.construct r {} b₀' = .ok (b₁, v) ∧
      ((v.activeLeaf? = none ∧ b = { b₁ with variants := some v }) ∨
        ∃ l, v.activeLeaf? = some l ∧ b = { p.configure b₁ l with variants := some v }) := by
  simp only [setUp, bind, Except.bind] at h
  split at h
  · cases h
  rename_i y hcons
  obtain ⟨b₁, v⟩ := y
  refine ⟨_, b₁, v, ?_, ?_, hcons, ?_⟩
  · rfl
  · rfl
  simp only [pure, Except.pure, Except.ok.injEq] at h
  rcases hl : v.activeLeaf? with _ | l
  · simp only [hl] at h
    exact Or.inl ⟨rfl, h.symm⟩
  · simp only [hl] at h
    exact Or.inr ⟨l, rfl, h.symm⟩

/-- **A new block never shows one name both on an input and on a field**, when its plan's nodes
declare each name once, under its own name, and passed the collision check: the visible inputs
and fields are those declared along the active leaf's path, and dummies and labels have no
name. -/
theorem setUp_names_apart {r : Registry} {n : Nat} {t : String} {b : Block}
    (hd : p.variants.Distinct) (hc : p.variants.NamesChecked {})
    (h : p.setUp r { id := n, typeName := t } = .ok b) {k f : Nat} {i : Input} {fd : Field}
    (hi : (k, i) ∈ b.visibleInputs) (hf : (f, fd) ∈ b.visibleFields) {m : String}
    (hm : i.name = some m) : fd.name ≠ some m := by
  obtain ⟨b₀, b₁, v, hb₀, -, hcons, ⟨-, rfl⟩ | ⟨l, hl, rfl⟩⟩ := setUp_cases h
  · -- without an active leaf the block keeps the empty line it was made with
    have hline : b₁.line = [] :=
      (congrArg Block.line (VariantPlan.construct_grows _ hcons).rest).trans hb₀
    rw [Block.mem_visibleInputs] at hi
    rw [show ({ b₁ with variants := some v } : Block).line = b₁.line from rfl, hline] at hi
    cases hi.1
  have hdisj : ({} : Inherited).Disjoint := fun _ h => by cases h
  obtain ⟨ps, w, hpath, hline⟩ := VariantPlan.construct_activeLine hd
    (fun _ _ hp => (hc.path hdisj hp).2.elim fun _ hw => hw.scope.1)
    ⟨fun _ _ h => (by cases h), fun _ _ h => by cases h⟩ hcons hl
  -- a visible input is one of the active leaf's line, with the row of its last entry there
  have hrows : ∀ {k' : Nat} {i' : Input},
      (k', i') ∈ ({ p.configure b₁ l with variants := some v } : Block).visibleInputs →
      ∃ i₀ e, b₁.input? k' = some i₀ ∧ i'.name = i₀.name ∧ e ∈ l.line ∧ e.input = k' ∧
        i'.fieldRow = e.fields := by
    intro k' i' hvis
    rw [Block.mem_visibleInputs] at hvis
    obtain ⟨hk, hik⟩ := hvis
    rw [show ({ p.configure b₁ l with variants := some v } : Block).input? k' =
      (p.configure b₁ l).input? k' from rfl, input?_configure] at hik
    rw [show ({ p.configure b₁ l with variants := some v } : Block).line =
      (p.configure b₁ l).line from rfl, line_configure] at hk
    obtain ⟨i₀, h₀, hname, hrow, -⟩ := Block.setRows_getElem? _ _ hik
    obtain ⟨e, he, hek, hr⟩ := hrow hk
    exact ⟨i₀, e, h₀, hname, he, hek, hr⟩
  -- the input's name is declared as an input on the path
  have hin : m ∈ (({} : Inherited).along ps).inputs := by
    obtain ⟨i₀, e, h₀, hname, he, rfl, -⟩ := hrows hi
    obtain ⟨i₁, h₁, hnamed⟩ := (hline e he).1
    rw [h₀, Option.some.injEq] at h₁
    exact hnamed m (h₁ ▸ hname ▸ hm)
  -- and the field's name as a field on the path
  intro hfm
  have hfd : m ∈ (({} : Inherited).along ps).fields := by
    obtain ⟨k', i', hi', hf', hfd⟩ := Block.mem_visibleFields hf
    obtain ⟨-, e, -, -, he, -, hrow⟩ := hrows hi'
    rw [hrow] at hf'
    obtain ⟨fd₁, h₁, hnamed⟩ := (hline e he).2 f hf'
    rw [show ({ p.configure b₁ l with variants := some v } : Block).field? f =
      (p.configure b₁ l).field? f from rfl, field?_configure, h₁, Option.some.injEq] at hfd
    exact hnamed m (hfd ▸ hfm)
  exact (hc.path hdisj hpath).1 m hin hfd

/-- **A plan that is built passes every name check it makes**: along every path from the root,
no name is declared both as an input and as a field (a branch's dropdown counting as a field
named after the branch), every node declares each name once and the children of a branch are
named apart; and so no block set up from the plan shows one name on a visible input and on a
visible field, which is what lets its template bind each name to one thing. -/
theorem build_names_apart {d : BlockData} {messages : Messages} {extra : List Nat}
    {p : BlockPlan} (h : BlockPlan.build d messages extra = .ok p) :
    (∀ ps v, p.variants.Path ps v →
      (∀ n ∈ ps.flatMap (·.inputs.map (·.1)), n ∉ ps.flatMap (·.fields.map (·.1))) ∧
      v.scope.Distinct ∧ ∀ s cs, v = .branch s cs → (cs.map (·.scope.name)).Nodup) ∧
    ∀ r n t b, p.setUp r { id := n, typeName := t } = .ok b →
      ∀ k i f fd m, (k, i) ∈ b.visibleInputs → (f, fd) ∈ b.visibleFields → i.name = some m →
        fd.name ≠ some m := by
  have hv := build_variants h
  have hc : p.variants.NamesChecked {} := VariantPlan.build_namesChecked hv
  have hd : p.variants.Distinct := VariantPlan.build_distinct hv
  have hdisj : ({} : Inherited).Disjoint := fun _ h => by cases h
  refine ⟨fun ps v hp => ⟨?_, ?_, ?_⟩, fun r n t b hb k i f fd m hi hf hm =>
    setUp_names_apart hd hc hb hi hf hm⟩
  · -- the names declared along the path are those above it, the root inheriting none
    intro m hin hfd
    exact (hc.path hdisj hp).1 m (Inherited.mem_along_inputs.mpr (Or.inr hin))
      (Inherited.mem_along_fields.mpr (Or.inr hfd))
  · cases hd.path hp with
    | leaf hs => exact hs
    | branch hs _ => exact hs
  · rintro s cs rfl
    obtain ⟨_, hw⟩ := (hc.path hdisj hp).2
    cases hw with
    | branch _ _ hnames _ => exact hnames

end BlockPlan

/-- A value type with an input `X`, whose variant `A` has a text field `F` and whose variant `B`
an input `F`: one name may be a field in one variant and an input in another. -/
def splitData : BlockData :=
  { name := "S", inputs := [{ name := "X" }],
    variants := some [
      { name := "A", fields := [{ name := "F", type := "text" }],
        message := some "%\x7bX\x7d %\x7bF\x7d" },
      { name := "B", inputs := [{ name := "F" }], message := some "%\x7bX\x7d %\x7bF\x7d" }] }

/-- The plan built from `splitData`. -/
def splitPlan : BlockPlan :=
  { name := "S", kind := .value, orientation := .horizontal, categories := [], tooltip := "",
    helpUrl := "", colours := [BlockPlan.defaultColour],
    variants :=
      .branch ⟨"S", [("X", { name := "X" })], [("S", branchDropdown "S" ["A", "B"])], none, none⟩
        [.leaf ⟨"A", [], [("F", { name := "F", type := "text" })], none, none⟩
            "%\x7bX\x7d %\x7bF\x7d",
          .leaf ⟨"B", [("F", { name := "F" })], [], none, none⟩ "%\x7bX\x7d %\x7bF\x7d"] }

theorem split_build : BlockPlan.build splitData {} [] = .ok splitPlan := by
  simp only [BlockPlan.build, Messages.lookup_empty, Option.getD_none]
  rfl

/-- The plan `splitPlan` is accepted, and its names are kept apart along each path. -/
theorem split_names_apart :
    BlockPlan.build splitData {} [] = .ok splitPlan ∧
      (∀ ps v, splitPlan.variants.Path ps v →
        (∀ n ∈ ps.flatMap (·.inputs.map (·.1)), n ∉ ps.flatMap (·.fields.map (·.1))) ∧
        v.scope.Distinct ∧ ∀ s cs, v = .branch s cs → (cs.map (·.scope.name)).Nodup) ∧
      ∀ r n t b, splitPlan.setUp r { id := n, typeName := t } = .ok b →
        ∀ k i f fd m, (k, i) ∈ b.visibleInputs → (f, fd) ∈ b.visibleFields → i.name = some m →
          fd.name ≠ some m :=
  ⟨split_build, BlockPlan.build_names_apart split_build⟩

end Blockwork
