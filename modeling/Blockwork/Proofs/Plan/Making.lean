import Blockwork.Proofs.Plan.Selection

/-!
# Making a block

A plan built from a declaration is **checked** (`VariantPlan.Checked`): every branch has children
and declares its dropdown last among its fields, one option per child (`build_checked`). What
building checks at a leaf and at a branch (`build_ok`) carries to every node of the plan
(`build_induct`).

Making a block from a checked plan gives each branch of the block's tree a dropdown field that
offers the branch's children and shows the first one, which is the one selected, and the tree's
branches are the plan's in the same order (`construct_shows`). A new block therefore agrees with
its tree whenever the plan's branch names are all different (`setUp_agrees`).
-/

namespace Blockwork

/-! ### Ordered maps of names -/

/-- Mapping a list of pairs without changing the keys changes what a key reads back by the map. -/
theorem lookup_map_of_fst {α : Type} (l : List (String × α)) (f : String × α → String × α)
    (hf : ∀ p, (f p).1 = p.1) (t : String) :
    (l.map f).lookup t = (l.lookup t).map fun w => (f (t, w)).2 := by
  induction l with
  | nil => rfl
  | cons e l ih =>
    obtain ⟨k', w⟩ := e
    have hk : f (k', w) = (k', (f (k', w)).2) := Prod.ext (hf _) rfl
    rw [List.map_cons, hk, List.lookup_cons, List.lookup_cons, ih]
    by_cases h : t = k'
    · subst h
      simp
    · simp [beq_false_of_ne h]

/-- Replacing or adding a key: the key reads back the new value, every other key its old one. -/
theorem lookup_setKey {α : Type} (l : List (String × α)) (k t : String) (v : α) :
    (setKey l k v).lookup t = if t = k then some v else l.lookup t := by
  unfold setKey
  split
  · rename_i hany
    -- the key is there, and each of its entries now holds `v`
    rw [lookup_map_of_fst l _ (by rintro ⟨k', w⟩; dsimp only; split <;> rfl)]
    by_cases htk : t = k
    · subst htk
      obtain ⟨p, hp, hpk⟩ := List.any_eq_true.mp hany
      have hsome : (l.lookup t).isSome := List.lookup_isSome_iff.mpr
        ⟨p, hp, by rw [beq_iff_eq] at hpk ⊢; exact hpk.symm⟩
      obtain ⟨w, hw⟩ := Option.isSome_iff_exists.mp hsome
      simp [hw]
    · simp [htk]
  · rename_i hany
    rw [List.lookup_append]
    by_cases htk : t = k
    · subst htk
      have hnone : l.lookup t = none := List.lookup_eq_none_iff.mpr fun p hp => by
        rw [bne_iff_ne]
        intro h
        exact hany (List.any_eq_true.mpr ⟨p, hp, by rw [beq_iff_eq]; exact h.symm⟩)
      simp [hnone]
    · rw [List.lookup_cons, beq_false_of_ne htk]
      simp [htk]

/-! ### Checked plans -/

namespace VariantPlan

mutual
/-- The names of a plan's branches, each branch before the branches below it. -/
def branchNames : VariantPlan → List String
  | .leaf _ _ => []
  | .branch s cs => s.name :: branchNamesAll cs

/-- The names of the branches of a list of plans, plan by plan. -/
def branchNamesAll : List VariantPlan → List String
  | [] => []
  | c :: cs => c.branchNames ++ branchNamesAll cs
end

/-- Every branch has children and declares its dropdown last among its fields, one option for
each child by the child's name. -/
inductive Checked : VariantPlan → Prop
  | leaf (s : Scope) (message : String) : Checked (.leaf s message)
  | branch (s : Scope) (children : List VariantPlan) (hne : children ≠ [])
      (hdropdown : ∃ fs, s.fields =
        fs ++ [(s.name, branchDropdown s.name (children.map (·.scope.name)))])
      (hchildren : ∀ c ∈ children, Checked c) : Checked (.branch s children)

end VariantPlan

theorem Scope.ofData_name {shape : Code.Shape} {d : VariantData} {s : Scope}
    (h : Scope.ofData shape d = .ok s) : s.name = d.name := by
  simp only [Scope.ofData, bind, Except.bind] at h
  -- the generator is given, made from code (which may fail), or absent
  split at h
  · simp only [pure, Except.pure] at h
    split at h
    · cases h
    · cases h
      rfl
  · split at h
    · simp only [pure, Except.pure] at h
      split at h
      · cases h
      · cases h
        rfl
    · simp [throw, throwThe, MonadExceptOf.throw] at h
  · simp only [pure, Except.pure] at h
    split at h
    · cases h
    · cases h
      rfl

/-- A branch's scope: its own fields, then its dropdown, named after the branch. -/
def Scope.withDropdown (s : Scope) (name : String) (children : List String) : Scope :=
  { s with fields := s.fields ++ [(name, branchDropdown name children)] }

namespace VariantPlan

variable {shape : Code.Shape} {messages : Messages}

/-- What a node's build did when it succeeded: the node's own scope was made, and the node is a
leaf whose scope passed the collision check, or a branch with children, no repeated child name and
no own field of its name, whose scope with its dropdown passed the check and whose children were
built below it. -/
theorem build_ok {inh : Inherited} {d : VariantData} {v : VariantPlan}
    (h : build shape messages inh d = .ok v) :
    ∃ s, Scope.ofData shape d = .ok s ∧
      ((d.variants = none ∧ s.checkCollisions inh = .ok () ∧ ∃ text, v = .leaf s text) ∨
        ∃ children built, d.variants = some children ∧ children ≠ [] ∧
          firstRepeat (children.map (·.name)) = none ∧ s.hasField d.name = false ∧
          (s.withDropdown d.name (children.map (·.name))).checkCollisions inh = .ok () ∧
          buildAll shape messages ((s.withDropdown d.name (children.map (·.name))).extend inh)
            children = .ok built ∧
          v = .branch (s.withDropdown d.name (children.map (·.name))) built) := by
  obtain ⟨name, inputs, fields, output, outputs, toCode, generator, message, _ | children⟩ := d
  · simp only [build, bind, Except.bind] at h
    split at h
    · cases h
    rename_i s hs
    split at h
    · cases h
    rename_i hc
    cases h
    exact ⟨s, hs, .inl ⟨rfl, hc, _, rfl⟩⟩
  · simp only [build, bind, Except.bind] at h
    split at h
    · cases h
    rename_i s hs
    split at h
    · cases h
    rename_i hne
    split at h
    · cases h
    rename_i hnodup
    -- no child name repeats, and no own field takes the branch's name
    have hrep : firstRepeat (children.map (·.name)) = none := by
      cases hr : firstRepeat (children.map (·.name)) with
      | none => rfl
      | some m => exact (hnodup m (by simp [hr])).elim
    have hfield : s.hasField name = false := by
      cases hf : s.hasField name
      · rfl
      · exact (hnodup name (by simp [hrep, hf])).elim
    split at h
    · cases h
    rename_i hc
    split at h
    · cases h
    rename_i built hbuilt
    cases h
    exact ⟨s, hs, .inr ⟨children, built, rfl, by simpa using hne, hrep, hfield, hc, hbuilt, rfl⟩⟩

theorem buildAll_cons_ok {inh : Inherited} {d : VariantData} {ds : List VariantData}
    {vs : List VariantPlan} (h : buildAll shape messages inh (d :: ds) = .ok vs) :
    ∃ v vs', build shape messages inh d = .ok v ∧ buildAll shape messages inh ds = .ok vs' ∧
      vs = v :: vs' := by
  simp only [buildAll, bind, Except.bind] at h
  split at h
  · cases h
  rename_i v hv
  split at h
  · cases h
  rename_i vs' hvs
  cases h
  exact ⟨v, vs', hv, hvs, rfl⟩

mutual
/-- **Building, node by node.** A property of a built node below the names it inherits holds
when it holds of every leaf that passed its checks, and of every branch that passed its checks and
whose children have it below the branch's names. -/
theorem build_induct (P : Inherited → VariantPlan → Prop)
    (hleaf : ∀ inh (d : VariantData) s text, Scope.ofData shape d = .ok s →
      s.checkCollisions inh = .ok () → P inh (.leaf s text))
    (hbranch : ∀ inh (d : VariantData) s children built, Scope.ofData shape d = .ok s →
      children ≠ [] → firstRepeat (children.map (·.name)) = none → s.hasField d.name = false →
      let s' := s.withDropdown d.name (children.map (·.name))
      s'.checkCollisions inh = .ok () →
      buildAll shape messages (s'.extend inh) children = .ok built →
      (∀ c ∈ built, P (s'.extend inh) c) → P inh (.branch s' built)) :
    ∀ {inh : Inherited} {d : VariantData} {v : VariantPlan},
      build shape messages inh d = .ok v → P inh v
  | inh, ⟨name, inputs, fields, output, outputs, toCode, generator, message, none⟩, v, h => by
    obtain ⟨s, hs, ⟨-, hc, text, rfl⟩ | ⟨children, built, hvar, -⟩⟩ := build_ok h
    · exact hleaf inh _ s text hs hc
    · cases hvar
  | inh, ⟨name, inputs, fields, output, outputs, toCode, generator, message, some children⟩, v,
      h => by
    obtain ⟨s, hs, ⟨hvar, -⟩ | ⟨cs, built, hvar, hne, hrep, hfield, hc, hbuilt, rfl⟩⟩ := build_ok h
    · cases hvar
    · cases hvar
      exact hbranch inh _ s children built hs hne hrep hfield hc hbuilt
        (buildAll_induct P hleaf hbranch hbuilt)

theorem buildAll_induct (P : Inherited → VariantPlan → Prop)
    (hleaf : ∀ inh (d : VariantData) s text, Scope.ofData shape d = .ok s →
      s.checkCollisions inh = .ok () → P inh (.leaf s text))
    (hbranch : ∀ inh (d : VariantData) s children built, Scope.ofData shape d = .ok s →
      children ≠ [] → firstRepeat (children.map (·.name)) = none → s.hasField d.name = false →
      let s' := s.withDropdown d.name (children.map (·.name))
      s'.checkCollisions inh = .ok () →
      buildAll shape messages (s'.extend inh) children = .ok built →
      (∀ c ∈ built, P (s'.extend inh) c) → P inh (.branch s' built)) :
    ∀ {inh : Inherited} {ds : List VariantData} {vs : List VariantPlan},
      buildAll shape messages inh ds = .ok vs → ∀ v ∈ vs, P inh v
  | _, [], vs, h => by
    cases h
    exact fun _ h => (by cases h)
  | inh, d :: ds, vs, h => by
    obtain ⟨v, vs', hv, hvs, rfl⟩ := buildAll_cons_ok h
    intro w hw
    rcases List.mem_cons.mp hw with rfl | hw
    · exact build_induct P hleaf hbranch hv
    · exact buildAll_induct P hleaf hbranch hvs w hw
end

mutual
/-- **A built plan is checked**, and is named like its declaration. -/
theorem build_checked :
    ∀ {inh : Inherited} {d : VariantData} {v : VariantPlan},
      build shape messages inh d = .ok v → v.Checked ∧ v.scope.name = d.name
  | inh, ⟨name, inputs, fields, output, outputs, toCode, generator, message, none⟩, v, h => by
    obtain ⟨s, hs, ⟨-, -, text, rfl⟩ | ⟨children, built, hvar, -⟩⟩ := build_ok h
    · exact ⟨.leaf _ _, Scope.ofData_name hs⟩
    · cases hvar
  | inh, ⟨name, inputs, fields, output, outputs, toCode, generator, message, some children⟩, v,
      h => by
    obtain ⟨s, hs, ⟨hvar, -⟩ | ⟨cs, built, hvar, hne, -, -, -, hbuilt, rfl⟩⟩ := build_ok h
    · cases hvar
    cases hvar
    have hname : s.name = name := Scope.ofData_name hs
    obtain ⟨hchecked, hnames⟩ := buildAll_checked hbuilt
    refine ⟨.branch _ _ ?_ ⟨s.fields, ?_⟩ hchecked, hname⟩
    · -- a branch without children is refused
      intro hnil
      subst hnil
      cases children with
      | nil => exact hne rfl
      | cons c cs => cases hnames
    · rw [hnames]
      simp only [Scope.withDropdown, hname]

theorem buildAll_checked :
    ∀ {inh : Inherited} {ds : List VariantData} {vs : List VariantPlan},
      buildAll shape messages inh ds = .ok vs →
        (∀ v ∈ vs, v.Checked) ∧ vs.map (·.scope.name) = ds.map (·.name)
  | _, [], vs, h => by
    cases h
    exact ⟨fun _ h => (by cases h), rfl⟩
  | inh, d :: ds, vs, h => by
    obtain ⟨v, vs', hv, hvs, rfl⟩ := buildAll_cons_ok h
    obtain ⟨hc, hn⟩ := build_checked hv
    obtain ⟨hcs, hns⟩ := buildAll_checked hvs
    refine ⟨fun w hw => ?_, by rw [List.map_cons, List.map_cons, hn, hns]⟩
    rcases List.mem_cons.mp hw with rfl | hw
    · exact hc
    · exact hcs w hw
end

end VariantPlan

/-- The plan of a block declaration is checked. -/
theorem BlockPlan.build_checked {d : BlockData} {messages : Messages} {extra : List Nat}
    {p : BlockPlan} (h : BlockPlan.build d messages extra = .ok p) : p.variants.Checked := by
  simp only [BlockPlan.build, bind, Except.bind] at h
  split at h
  · cases h
  rename_i v hv
  cases h
  exact (VariantPlan.build_checked hv).1

/-- An empty message table has no text for any key. -/
theorem Messages.lookup_empty (key : String) : ({} : Messages).lookup key = none := by
  unfold Messages.lookup Messages.find?
  -- whatever the parts of the key, the first one already misses
  rcases key.splitOn "." with _ | ⟨part, parts⟩ <;> rfl

/-! ### The dropdown of a branch -/

theorem FieldMaker.mapM_option_pairs (names : List String) :
    (names.map fun c => Json.arr [.str c, .str c]).mapM FieldMaker.option? =
      some (names.map fun c => ⟨c, c⟩) := by
  induction names with
  | nil => rfl
  | cons c cs ih =>
    simp only [List.map_cons, List.mapM_cons, ih]
    rfl

/-- A branch's dropdown offers the children and shows the first one. -/
theorem FieldData.make_branchDropdown {r : Registry} (hr : r.field? "dropdown" = .ok .dropdown)
    (n c : String) (cs : List String) :
    (branchDropdown n (c :: cs)).make r =
      .ok ⟨some n, "dropdown", .dropdown ((c :: cs).map fun o => ⟨o, o⟩), .str c⟩ := by
  simp only [FieldData.make, branchDropdown, hr, FieldMaker.make, FieldMaker.dropdownOf,
    FieldMaker.mapM_option_pairs, bind, Except.bind, pure, Except.pure, Except.mapError]
  rfl

namespace Block

theorem Grows.field? {b b' : Block} (h : b.Grows b') {i : Nat} {f : Field}
    (hi : b.field? i = some f) : b'.field? i = some f := by
  obtain ⟨l, hl⟩ := h.fields
  have hlt : i < b.fieldArena.toList.length := by
    simp only [Block.field?] at hi
    simpa using (Array.getElem?_eq_some_iff.mp hi).1
  simp only [Block.field?, ← Array.getElem?_toList, hl, List.getElem?_append_left hlt] at hi ⊢
  exact hi

theorem Grows.shows {b b' : Block} (h : b.Grows b') {ch : Choice} (hs : b.Shows ch) :
    b'.Shows ch := by
  obtain ⟨f, ⟨hf, hfn, hfk⟩, o, ho, hfv⟩ := hs
  exact ⟨f, ⟨h.field? hf, hfn, hfk⟩, o, ho, hfv⟩

theorem field?_adoptField (b : Block) (f : Field) :
    (b.adoptField f).1.field? (b.adoptField f).2 = some f := by
  simp [adoptField, Block.field?]

end Block

/-- Extending a view over a scope whose last field is `fd` makes `fd` and files it under its
name. -/
theorem Proto.extend_last_field {r : Registry} {b b' : Block} {s : Scope} {parent p : Proto}
    {fs : List (String × FieldData)} {k : String} {fd : FieldData}
    (hs : s.fields = fs ++ [(k, fd)]) (h : Proto.extend r b s parent = .ok (b', p)) :
    ∃ i f, fd.make r = .ok f ∧ p.fields.lookup k = some i ∧ b'.field? i = some f := by
  have hgrow := Proto.extend_grows h
  unfold Proto.extend at h
  simp only [bind, Except.bind] at h
  split at h
  · cases h
  rename_i x hfields
  split at h
  · cases h
  rename_i y hinputs
  cases h
  rw [hs, List.foldlM_append] at hfields
  simp only [bind, Except.bind] at hfields
  split at hfields
  · cases hfields
  rename_i z hz
  simp only [List.foldlM_cons, List.foldlM_nil, bind, Except.bind] at hfields
  rcases hmake : fd.make r with e | f
  · simp [hmake] at hfields
  simp only [hmake, pure, Except.pure] at hfields
  cases hfields
  refine ⟨(z.1.adoptField f).2, f, rfl, by rw [lookup_setKey, if_pos rfl], ?_⟩
  -- the inputs made afterwards leave the new field where it is
  have hinput : (z.1.adoptField f).1.Grows y.1 := by
    refine foldlM_grows ?_ _ ((z.1.adoptField f).1, parent.inputs) _ hinputs
    intro w a w' hw
    split at hw
    · cases hw
    · rename_i hm
      cases hw
      exact Block.grows_adoptInput _ (makeInput_mapError_target hm)
  exact hinput.field? (Block.field?_adoptField z.1 f)

/-! ### Making the tree -/

namespace VariantPlan

variable {r : Registry}

mutual
/-- **Making a checked tree** gives each of its branches a dropdown that offers the branch's
children and shows the first one; its branches are the plan's, in order. -/
theorem construct_shows (hr : r.field? "dropdown" = .ok .dropdown) {parent : Proto} :
    ∀ {pv : VariantPlan} {b b' : Block} {v : Variant}, pv.Checked →
      pv.construct r parent b = .ok (b', v) →
        v.name = pv.scope.name ∧ v.choices.map Choice.name = pv.branchNames ∧
          ∀ ch ∈ v.choices, b'.Shows ch
  | .leaf s message, b, b', v, _, h => by
    obtain ⟨-, -, -, -, -, rfl⟩ := construct_leaf_ok h
    exact ⟨rfl, rfl, fun ch hch => by cases hch⟩
  | .branch s children, b, b', v, hc, h => by
    cases hc with
    | branch _ _ hne hdrop hchildren =>
    obtain ⟨fs, hfs⟩ := hdrop
    obtain ⟨b₁, p, d, vs, hext, hd, hall, rfl⟩ := construct_branch_ok h
    obtain ⟨i, f, hmake, hlook, hfield⟩ := Proto.extend_last_field hfs hext
    rw [hlook, Option.some.injEq] at hd
    subst hd
    obtain ⟨hnames, hbranches, hshows⟩ := constructAll_shows hr hchildren hall
    -- the children's names are the dropdown's options
    obtain ⟨c, cs, hcs⟩ := List.ne_nil_iff_exists_cons.mp
      (fun hnil => hne (List.map_eq_nil_iff.mp hnil) : children.map (·.scope.name) ≠ [])
    rw [hcs, FieldData.make_branchDropdown hr] at hmake
    cases hmake
    refine ⟨rfl, by rw [Variant.choices, List.map_cons, hbranches]; rfl, fun ch hch => ?_⟩
    rcases List.mem_cons.mp hch with rfl | hch
    · -- the branch's own dropdown, made before its children
      refine ⟨_, ⟨(constructAll_grows children hall).field? hfield, rfl, ?_⟩, c, ?_, rfl⟩
      · show _ = FieldKind.dropdown ((vs.map Variant.name).map fun o => ⟨o, o⟩)
        rw [hnames, hcs]
      · show (vs.map Variant.name)[0]? = some c
        rw [hnames, hcs]
        rfl
    · exact hshows ch hch

theorem constructAll_shows (hr : r.field? "dropdown" = .ok .dropdown) {parent : Proto} :
    ∀ {pvs : List VariantPlan} {b b' : Block} {vs : List Variant}, (∀ pv ∈ pvs, pv.Checked) →
      constructAll r parent b pvs = .ok (b', vs) →
        vs.map Variant.name = pvs.map (·.scope.name) ∧
          (Variant.choicesAll vs).map Choice.name = branchNamesAll pvs ∧
          ∀ ch ∈ Variant.choicesAll vs, b'.Shows ch
  | [], b, b', vs, _, h => by
    cases h
    exact ⟨rfl, rfl, fun ch hch => by cases hch⟩
  | pv :: pvs, b, b', vs, hc, h => by
    obtain ⟨b₁, x, xs, hv, hvs, rfl⟩ := constructAll_cons_ok h
    obtain ⟨hn, hb, hs⟩ := construct_shows hr (hc pv (List.mem_cons_self ..)) hv
    obtain ⟨hns, hbs, hss⟩ :=
      constructAll_shows hr (fun w hw => hc w (List.mem_cons_of_mem _ hw)) hvs
    refine ⟨by rw [List.map_cons, List.map_cons, hn, hns],
      by rw [Variant.choicesAll, List.map_append, hb, hbs]; rfl, fun ch hch => ?_⟩
    rcases List.mem_append.mp hch with hch | hch
    · -- the first tree's dropdowns stay while the others are made
      exact (constructAll_grows pvs hvs).shows (hs ch hch)
    · exact hss ch hch
end

end VariantPlan

/-- **A new block agrees with its tree** when the plan is checked and its branch names are all
different. -/
theorem BlockPlan.setUp_agrees {p : BlockPlan} {r : Registry} {b b' : Block}
    (hr : r.field? "dropdown" = .ok .dropdown) (hc : p.variants.Checked)
    (hnd : p.variants.branchNames.Nodup) (h : p.setUp r b = .ok b') : ∃ v, b'.Agrees p v := by
  simp only [BlockPlan.setUp, bind, Except.bind] at h
  split at h
  · cases h
  rename_i y hcons
  obtain ⟨b₁, v⟩ := y
  cases h
  obtain ⟨-, hnames, hshows⟩ := VariantPlan.construct_shows hr hc hcons
  obtain ⟨leaf, hleaf⟩ := Option.isSome_iff_exists.mp
    (Variant.activeLeaf?_isSome v fun ch hch => (hshows ch hch).current_lt)
  simp only [hleaf]
  refine ⟨v, rfl, by rw [hnames]; exact hnd, fun ch hch => ?_, leaf, hleaf, ?_⟩
  · exact (hshows ch hch).configure p leaf
  · rw [BlockPlan.configure_variants, BlockPlan.configure_configure]

end Blockwork
