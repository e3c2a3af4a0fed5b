import Blockwork.Proofs.Plan.Names

/-!
# The route to the active leaf

A selection changes which child one branch of a variant tree selects, and nothing else: the tree's
**shape** (`Variant.shape`, every branch selecting its first child) stays (`shape_select`). The
**route** of a tree is the index of the child selected at each branch on the way from the root to
the active leaf (`Variant.route`). Two trees of one shape with one route pass the same branches,
which select the same children, to the same leaf (`activeChoices_eq_of_route`): a block whose
selections come back to the route they left is on the same leaf again, whatever the branches off
the route select meanwhile.

What a leaf shows depends on the branches above it alone. Making a tree lays each leaf out with the
names declared on its path, each node's own names at ids made for that node, and the subtrees of a
branch are made one after the other, each at ids after those of the one before, so each subtree
owns a range of ids as a node of a search tree owns a range of keys. A leaf shows fields of its
view or of its own range, never a dropdown of a branch beside it or below a sibling: of the
tree's dropdowns, a new block's leaves show only those of the branches above them
(`BlockPlan.setUp_showsAbove`), and selections keep that (`ShowsAbove.of_shape`).
-/

namespace Blockwork

namespace Variant

/-! ### Shape and route -/

mutual
/-- The tree with every branch selecting its first child: what selections never change. -/
def shape : Variant → Variant
  | .leaf l => .leaf l
  | .branch n d _ cs => .branch n d 0 (shapeAll cs)

/-- The shapes of a list of trees. -/
def shapeAll : List Variant → List Variant
  | [] => []
  | v :: vs => shape v :: shapeAll vs
end

/-- The branches passed on the way from the root to the active leaf, as choices, the root's
first. -/
def activeChoices : Variant → List Choice
  | .leaf _ => []
  | .branch n d cur cs => ⟨n, d, cur, cs.map name⟩ :: activeChoicesIn cur cs
where
  /-- The branches passed below the child at an index. -/
  activeChoicesIn : Nat → List Variant → List Choice
    | _, [] => []
    | 0, v :: _ => activeChoices v
    | i + 1, _ :: vs => activeChoicesIn i vs

/-- The route to the active leaf: the index of the child selected at each branch on the way, the
root's first. -/
def route (v : Variant) : List Nat := v.activeChoices.map Choice.current

theorem name_shape (v : Variant) : v.shape.name = v.name := by
  cases v <;> rfl

theorem map_name_shapeAll (vs : List Variant) : (shapeAll vs).map name = vs.map name := by
  induction vs with
  | nil => rfl
  | cons v vs ih => rw [shapeAll, List.map_cons, List.map_cons, name_shape, ih]

mutual
/-- The shape's choices are the tree's, each selecting its first child. -/
theorem choices_shape :
    ∀ v : Variant, v.shape.choices = v.choices.map fun ch => { ch with current := 0 }
  | .leaf _ => rfl
  | .branch n d cur cs => by
    rw [shape, choices, choices, choicesAll_shapeAll cs, map_name_shapeAll, List.map_cons]

theorem choicesAll_shapeAll :
    ∀ vs : List Variant, choicesAll (shapeAll vs) = (choicesAll vs).map fun ch => { ch with current := 0 }
  | [] => rfl
  | v :: vs => by
    rw [shapeAll, choicesAll, choicesAll, choices_shape v, choicesAll_shapeAll vs, List.map_append]
end

/-- Trees of one shape have the same choices but for what each selects. -/
theorem map_choices_eq_of_shape {v v' : Variant} (h : v'.shape = v.shape) {α : Type}
    (g : Choice → α) (hg : ∀ ch, g { ch with current := 0 } = g ch) :
    v'.choices.map g = v.choices.map g := by
  have hc := congrArg (fun w => w.choices.map g) h
  simpa only [choices_shape, List.map_map, Function.comp_def, hg] using hc

mutual
/-- **A selection keeps the shape of the tree.** -/
theorem shape_select {n c : String} :
    ∀ {v v' : Variant} {d : Nat}, v.select n c = some (.ok (v', d)) → v'.shape = v.shape
  | .leaf _, _, _, h => by cases h
  | .branch m dd cur cs, v', d, h => by
    rw [select] at h
    split at h
    · -- the branch itself selects another child
      split at h <;> cases h
      rfl
    · obtain ⟨r, hr, hr'⟩ := Option.map_eq_some_iff.mp h
      rcases r with e | ⟨cs', d'⟩
      · cases hr'
      · cases hr'
        rw [shape, shape, shapeAll_selectAmong hr]

theorem shapeAll_selectAmong {n c : String} :
    ∀ {vs vs' : List Variant} {d : Nat}, selectAmong n c vs = some (.ok (vs', d)) →
      shapeAll vs' = shapeAll vs
  | [], _, _, h => by cases h
  | v :: vs, vs', d, h => by
    rw [selectAmong] at h
    split at h
    · rename_i r hv
      rcases r with e | ⟨v', d'⟩
      · simp [Except.map] at h
      · simp only [Except.map, Option.some.injEq, Except.ok.injEq, Prod.mk.injEq] at h
        obtain ⟨rfl, rfl⟩ := h
        rw [shapeAll, shapeAll, shape_select hv]
    · obtain ⟨r, hr, hr'⟩ := Option.map_eq_some_iff.mp h
      rcases r with e | ⟨vs'', d'⟩
      · cases hr'
      · cases hr'
        rw [shapeAll, shapeAll, shapeAll_selectAmong hr]
end

mutual
/-- **One shape and one route pass the same branches to the same leaf.** -/
theorem activeChoices_eq_of_route :
    ∀ {v v' : Variant}, v'.shape = v.shape → v'.route = v.route →
      v'.activeChoices = v.activeChoices ∧ v'.activeLeaf? = v.activeLeaf?
  | .leaf _, .leaf _, hs, _ => by
    cases hs
    exact ⟨rfl, rfl⟩
  | .leaf _, .branch .., hs, _ => by cases hs
  | .branch .., .leaf _, hs, _ => by cases hs
  | .branch n d cur cs, .branch n' d' cur' cs', hs, hr => by
    simp only [shape, branch.injEq, true_and] at hs
    obtain ⟨rfl, rfl, hcs⟩ := hs
    simp only [route, activeChoices, List.map_cons, List.cons.injEq] at hr
    obtain ⟨rfl, hr⟩ := hr
    -- the children have the same names, and the selected one is again of one shape and route
    obtain ⟨hc, hl⟩ := activeChoicesIn_eq_of_route hcs hr
    refine ⟨?_, hl⟩
    rw [activeChoices, activeChoices, hc, ← map_name_shapeAll cs', hcs, map_name_shapeAll]

theorem activeChoicesIn_eq_of_route :
    ∀ {i : Nat} {cs cs' : List Variant}, shapeAll cs' = shapeAll cs →
      (activeChoices.activeChoicesIn i cs').map Choice.current =
        (activeChoices.activeChoicesIn i cs).map Choice.current →
      activeChoices.activeChoicesIn i cs' = activeChoices.activeChoicesIn i cs ∧
        activeLeaf?.activeIn i cs' = activeLeaf?.activeIn i cs
  | _, [], [], _, _ => ⟨rfl, rfl⟩
  | _, [], _ :: _, h, _ => by cases h
  | _, _ :: _, [], h, _ => by cases h
  | 0, c :: cs, c' :: cs', h, hr => by
    simp only [shapeAll, List.cons.injEq] at h
    exact activeChoices_eq_of_route h.1 hr
  | i + 1, c :: cs, c' :: cs', h, hr => by
    simp only [shapeAll, List.cons.injEq] at h
    show activeChoices.activeChoicesIn i cs' = activeChoices.activeChoicesIn i cs ∧
      activeLeaf?.activeIn i cs' = activeLeaf?.activeIn i cs
    exact activeChoicesIn_eq_of_route h.2 hr
end

mutual
/-- The branches on the route are branches of the tree. -/
theorem activeChoices_subset : ∀ (v : Variant), ∀ ch ∈ v.activeChoices, ch ∈ v.choices
  | .leaf _, _, h => by cases h
  | .branch n d cur cs, ch, h => by
    rw [activeChoices] at h
    rcases List.mem_cons.mp h with rfl | h
    · exact List.mem_cons_self
    · exact List.mem_cons_of_mem _ (activeChoicesIn_subset cur cs ch h)

theorem activeChoicesIn_subset :
    ∀ (i : Nat) (cs : List Variant), ∀ ch ∈ activeChoices.activeChoicesIn i cs, ch ∈ choicesAll cs
  | i, [], _, h => by cases i <;> cases h
  | 0, c :: _, ch, h => List.mem_append_left _ (activeChoices_subset c ch h)
  | i + 1, _ :: cs, ch, h => List.mem_append_right _ (activeChoicesIn_subset i cs ch h)
end

/-! ### A property of every leaf -/

mutual
/-- Every leaf of the tree is `P`, taken with the dropdowns of the branches above it, the nearest
first, put before `above`. -/
def EveryLeaf (P : List Nat → Leaf → Prop) (above : List Nat) : Variant → Prop
  | .leaf l => P above l
  | .branch _ d _ cs => EveryLeafAll P (d :: above) cs

/-- Every leaf of every tree of the list is `P`. -/
def EveryLeafAll (P : List Nat → Leaf → Prop) (above : List Nat) : List Variant → Prop
  | [] => True
  | v :: vs => EveryLeaf P above v ∧ EveryLeafAll P above vs
end

variable {P Q : List Nat → Leaf → Prop}

mutual
/-- A property of every leaf gives every property it implies at the lists of dropdowns that end
with the one started from. -/
theorem EveryLeaf.imp :
    ∀ {above : List Nat} {v : Variant}, (∀ a l, above <:+ a → P a l → Q a l) →
      EveryLeaf P above v → EveryLeaf Q above v
  | above, .leaf l, h, hv => h above l (List.suffix_refl above) hv
  | above, .branch _ d _ _, h, hv =>
    EveryLeafAll.imp (fun a l ha => h a l ((List.suffix_cons d above).trans ha)) hv

theorem EveryLeafAll.imp :
    ∀ {above : List Nat} {vs : List Variant}, (∀ a l, above <:+ a → P a l → Q a l) →
      EveryLeafAll P above vs → EveryLeafAll Q above vs
  | _, [], _, _ => trivial
  | _, _ :: _, h, hvs => ⟨EveryLeaf.imp h hvs.1, EveryLeafAll.imp h hvs.2⟩
end

mutual
/-- A property of every leaf reads no selection. -/
theorem everyLeaf_shape : ∀ {above : List Nat} (v : Variant), EveryLeaf P above v.shape ↔ EveryLeaf P above v
  | _, .leaf _ => Iff.rfl
  | _, .branch _ _ _ cs => everyLeafAll_shapeAll cs

theorem everyLeafAll_shapeAll :
    ∀ {above : List Nat} (vs : List Variant), EveryLeafAll P above (shapeAll vs) ↔ EveryLeafAll P above vs
  | _, [] => Iff.rfl
  | _, v :: vs => and_congr (everyLeaf_shape v) (everyLeafAll_shapeAll vs)
end

mutual
/-- The active leaf is `P` with the dropdowns of the branches on the route, the nearest first. -/
theorem EveryLeaf.active :
    ∀ {above : List Nat} {v : Variant} {l : Leaf}, EveryLeaf P above v → v.activeLeaf? = some l →
      P ((v.activeChoices.map Choice.dropdown).reverse ++ above) l
  | _, .leaf _, _, h, hl => by
    cases hl
    exact h
  | above, .branch n d cur cs, l, h, hl => by
    have hin := EveryLeafAll.active (i := cur) h hl
    rw [activeChoices, List.map_cons, List.reverse_cons, List.append_assoc, List.singleton_append]
    exact hin

theorem EveryLeafAll.active :
    ∀ {above : List Nat} {i : Nat} {vs : List Variant} {l : Leaf}, EveryLeafAll P above vs →
      activeLeaf?.activeIn i vs = some l →
      P (((activeChoices.activeChoicesIn i vs).map Choice.dropdown).reverse ++ above) l
  | _, i, [], _, _, hl => by cases i <;> cases hl
  | _, 0, _ :: _, _, h, hl => EveryLeaf.active h.1 hl
  | above, i + 1, _ :: vs, l, h, hl => by
    show P (((activeChoices.activeChoicesIn i vs).map Choice.dropdown).reverse ++ above) l
    exact EveryLeafAll.active h.2 hl
end

/-! ### Leaves show the dropdowns above them -/

/-- Each leaf of the tree shows on its line, of the tree's dropdowns, only those of the branches
above it. -/
def ShowsAbove (v : Variant) : Prop :=
  v.EveryLeaf (fun above l => ∀ e ∈ l.line, ∀ i ∈ e.fields,
    i ∈ v.choices.map Choice.dropdown → i ∈ above) []

/-- Selections keep what each leaf shows. -/
theorem ShowsAbove.of_shape {v v' : Variant} (h : v.ShowsAbove) (hs : v'.shape = v.shape) :
    v'.ShowsAbove := by
  unfold ShowsAbove
  rw [map_choices_eq_of_shape hs Choice.dropdown fun _ => rfl, ← everyLeaf_shape, hs,
    everyLeaf_shape]
  exact h

/-- **The active leaf shows, of the tree's dropdowns, only those of the branches on the route.** -/
theorem ShowsAbove.active {v : Variant} (h : v.ShowsAbove) {l : Leaf}
    (hl : v.activeLeaf? = some l) :
    ∀ e ∈ l.line, ∀ i ∈ e.fields, i ∈ v.choices.map Choice.dropdown →
      i ∈ v.activeChoices.map Choice.dropdown := by
  intro e he i hi hD
  have hmem := EveryLeaf.active h hl e he i hi hD
  rwa [List.append_nil, List.mem_reverse] at hmem

end Variant

/-! ### What a new block's leaves show -/

/-- The fields on the leaf's line are fields of the view `parent` or fields made between `lo` and
`hi`, and those of them among the dropdowns `D` are among `above`. -/
def Leaf.FieldsFrom (parent : Proto) (lo hi : Nat) (D : List Nat) (above : List Nat) (l : Leaf) :
    Prop :=
  ∀ e ∈ l.line, ∀ i ∈ e.fields, (∃ n, parent.fields.lookup n = some i) ∨
    (lo ≤ i ∧ i < hi ∧ (i ∈ D → i ∈ above))

/-- A leaf's fields made in a range are made in every range around it; of other dropdowns, it
shows those made in its range. -/
theorem Leaf.FieldsFrom.widen {parent : Proto} {lo hi lo' hi' : Nat} {D D' above : List Nat}
    {l : Leaf} (h : l.FieldsFrom parent lo hi D above) (hlo : lo' ≤ lo) (hhi : hi ≤ hi')
    (hD : ∀ i ∈ D', lo ≤ i → i < hi → i ∈ D) : l.FieldsFrom parent lo' hi' D' above := by
  intro e he i hi
  rcases h e he i hi with hview | ⟨h₁, h₂, habove⟩
  · exact Or.inl hview
  · exact Or.inr ⟨Nat.le_trans hlo h₁, Nat.lt_of_lt_of_le h₂ hhi,
      fun hi' => habove (hD i hi' h₁ h₂)⟩

/-- The value a map of ids finds is one of its ids. -/
theorem mem_map_snd_of_lookup {l : List (String × Nat)} {n : String} {i : Nat}
    (h : l.lookup n = some i) : i ∈ l.map (·.2) := by
  obtain ⟨l₁, l₂, rfl, -⟩ := List.lookup_eq_some_iff.mp h
  simp

/-- Putting the waiting fields on an input moves them from the buffer onto the line. -/
theorem mem_fields_flush {i k : Nat} {buffer : List Nat} {line : List LineEntry}
    (h : i ∈ ([] : List Nat) ∨ ∃ e ∈ line ++ [⟨k, buffer⟩], i ∈ e.fields) :
    i ∈ buffer ∨ ∃ e ∈ line, i ∈ e.fields := by
  simp only [List.not_mem_nil, false_or, List.mem_append, List.mem_singleton] at h
  obtain ⟨e, he | rfl, hie⟩ := h
  · exact Or.inr ⟨e, he, hie⟩
  · exact Or.inl hie

/-- **A line laid out with a view shows the view's fields and the labels the layout made.** -/
theorem layoutLine_fields {r : Registry} {p : Proto} {leaf : String} {tokens : List Message.Token}
    {b b' : Block} {line : List LineEntry}
    (h : layoutLine r p leaf b tokens [] [] = .ok (b', line)) :
    ∀ e ∈ line, ∀ i ∈ e.fields,
      (∃ n, p.fields.lookup n = some i) ∨ (b.fieldArena.size ≤ i ∧ i < b'.fieldArena.size) := by
  intro e he i hi
  have grow : ∀ {i k k' : Nat}, k ≤ k' → ((∃ n, p.fields.lookup n = some i) ∨
      (b.fieldArena.size ≤ i ∧ i < k)) → (∃ n, p.fields.lookup n = some i) ∨
      (b.fieldArena.size ≤ i ∧ i < k') :=
    fun hk => Or.imp_right fun ⟨h₁, h₂⟩ => ⟨h₁, by omega⟩
  -- every field waiting or laid is the view's, or a label made since the layout began
  refine (layoutLine_invariant (fun b₁ buffer line => b.fieldArena.size ≤ b₁.fieldArena.size ∧
      ∀ i, (i ∈ buffer ∨ ∃ e ∈ line, i ∈ e.fields) →
        (∃ n, p.fields.lookup n = some i) ∨ (b.fieldArena.size ≤ i ∧ i < b₁.fieldArena.size))
    ?_ ?_ ?_ ?_ h ⟨Nat.le_refl _, fun i hi => by simp at hi⟩).2 i (Or.inr ⟨e, he, hi⟩)
  · -- a label is made at the end of the arena
    rintro b₁ buffer line s ⟨hle, hall⟩
    have hsize : (b₁.adoptField (Field.label s)).1.fieldArena.size = b₁.fieldArena.size + 1 :=
      Array.size_push _
    refine ⟨by omega, fun i hi => ?_⟩
    rw [hsize]
    simp only [List.mem_append, List.mem_singleton] at hi
    rcases hi with (hi | hi) | hi
    · exact grow (by omega) (hall i (Or.inl hi))
    · rw [hi]
      exact Or.inr ⟨hle, by rw [Block.adoptField]; omega⟩
    · exact grow (by omega) (hall i (Or.inr hi))
  · -- the waiting fields go on a dummy input, which makes no field
    rintro b₁ b₂ k buffer line hd ⟨hle, hall⟩
    have hg := (addDummy_grows hd).fieldArena_size_le
    exact ⟨by omega, fun i hi => grow hg (hall i (mem_fields_flush hi))⟩
  · rintro b₁ n k buffer line - ⟨hle, hall⟩
    exact ⟨hle, fun i hi => hall i (mem_fields_flush hi)⟩
  · rintro b₁ n f buffer line hf ⟨hle, hall⟩
    refine ⟨hle, fun i hi => ?_⟩
    simp only [List.mem_append, List.mem_singleton] at hi
    rcases hi with (hi | rfl) | hi
    · exact hall i (Or.inl hi)
    · exact Or.inl ⟨n, hf⟩
    · exact hall i (Or.inr hi)

namespace VariantPlan

variable {r : Registry}

/-- A field of a node's view is the view's parent's, or made for the node. -/
theorem view_field {b b₁ : Block} {s : Scope} {parent p : Proto} {ids : Scope.Ids}
    (hover : p.Over parent s ids) (hff : Fresh b.fieldArena.size b₁.fieldArena.size (ids.fields.map (·.2)))
    {n : String} {i : Nat} (h : p.fields.lookup n = some i) :
    parent.fields.lookup n = some i ∨ (b.fieldArena.size ≤ i ∧ i < b₁.fieldArena.size) := by
  rw [hover.fields] at h
  rcases ho : ids.fields.lookup n with _ | j
  · rw [ho, Option.none_or] at h
    exact Or.inl h
  · rw [ho, Option.some_or, Option.some.injEq] at h
    subst h
    exact Or.inr (hff.2 _ (mem_map_snd_of_lookup ho))

mutual
/-- **Making a subtree below a view** makes its dropdowns, and gives every leaf a line of fields of
the view or made for the subtree, where of the subtree's dropdowns only those of the branches above
the leaf appear. -/
theorem construct_fieldsFrom {parent : Proto} :
    ∀ {pv : VariantPlan} {b b' : Block} {v : Variant}, pv.Checked → pv.Distinct →
      pv.construct r parent b = .ok (b', v) →
      (∀ i ∈ v.choices.map Choice.dropdown, b.fieldArena.size ≤ i ∧ i < b'.fieldArena.size) ∧
      ∀ above, v.EveryLeaf (Leaf.FieldsFrom parent b.fieldArena.size b'.fieldArena.size
        (v.choices.map Choice.dropdown)) above
  | .leaf s message, b, b', v, _, hd, h => by
    cases hd with
    | leaf hs =>
    obtain ⟨b₁, p, line, hext, hline, rfl⟩ := construct_leaf_ok h
    obtain ⟨ids, -, hover, hg₁, hff, -⟩ := Proto.extend_spec hs hext
    have hg := (layoutLine_grows _ _ _ _ hline).fieldArena_size_le
    -- a leaf has no dropdowns; its own fields and its labels are made for it
    have hnone : ∀ {i : Nat}, i ∉ ([] : List Choice).map Choice.dropdown := by simp
    refine ⟨fun i hi => absurd hi hnone, fun above e he i hi => ?_⟩
    rcases layoutLine_fields hline e he i hi with ⟨n, hn⟩ | ⟨h₁, h₂⟩
    · rcases view_field hover hff hn with hview | ⟨h₁, h₂⟩
      · exact Or.inl ⟨n, hview⟩
      · exact Or.inr ⟨h₁, by omega, fun hD => absurd hD hnone⟩
    · exact Or.inr ⟨Nat.le_trans hg₁.fieldArena_size_le h₁, h₂, fun hD => absurd hD hnone⟩
  | .branch s children, b, b', v, hc, hd, h => by
    cases hc with
    | branch _ _ _ hdrop hchildren =>
    cases hd with
    | branch hs hdchildren =>
    obtain ⟨fs, hfs⟩ := hdrop
    obtain ⟨b₁, p, d, vs, hext, hd, hall, rfl⟩ := construct_branch_ok h
    obtain ⟨ids, hmade, hover, hg₁, hff, -⟩ := Proto.extend_spec hs hext
    have hle₁ := hg₁.fieldArena_size_le
    have hle₂ := (constructAll_grows _ hall).fieldArena_size_le
    -- the branch's dropdown is a field of its own, filed under the branch's name
    have hown : b.fieldArena.size ≤ d ∧ d < b₁.fieldArena.size := by
      have hmem : s.name ∈ ids.fields.map (·.1) := by
        rw [hmade.field_names, hfs]
        simp
      obtain ⟨d', hd'⟩ := Option.isSome_iff_exists.mp (lookup_isSome_iff_mem.mpr hmem)
      rw [hover.fields, hd', Option.some_or, Option.some.injEq] at hd
      subst hd
      exact hff.2 _ (mem_map_snd_of_lookup hd')
    obtain ⟨hD, hleaves⟩ := constructAll_fieldsFrom hchildren hdchildren hall
    refine ⟨fun i hi => ?_, fun above => ?_⟩
    · rcases List.mem_cons.mp hi with rfl | hi
      · exact ⟨hown.1, by omega⟩
      · obtain ⟨h₁, h₂⟩ := hD i hi
        exact ⟨by omega, h₂⟩
    · -- the children's leaves see the branch's view: its own fields, whose dropdown is above
      -- them, and its parent's
      refine Variant.EveryLeafAll.imp (fun a l ha hl e he i hi => ?_) (hleaves (d :: above))
      have hda : d ∈ a := ha.subset List.mem_cons_self
      rcases hl e he i hi with ⟨n, hn⟩ | ⟨h₁, h₂, habove⟩
      · rcases view_field hover hff hn with hview | ⟨h₁, h₂⟩
        · exact Or.inl ⟨n, hview⟩
        · refine Or.inr ⟨h₁, by omega, fun hmem => ?_⟩
          rcases List.mem_cons.mp hmem with rfl | hmem
          · exact hda
          · exact absurd (hD i hmem).1 (by omega)
      · refine Or.inr ⟨by omega, h₂, fun hmem => ?_⟩
        rcases List.mem_cons.mp hmem with rfl | hmem
        · omega
        · exact habove hmem

theorem constructAll_fieldsFrom {parent : Proto} :
    ∀ {pvs : List VariantPlan} {b b' : Block} {vs : List Variant}, (∀ pv ∈ pvs, pv.Checked) →
      (∀ pv ∈ pvs, pv.Distinct) → constructAll r parent b pvs = .ok (b', vs) →
      (∀ i ∈ (Variant.choicesAll vs).map Choice.dropdown,
        b.fieldArena.size ≤ i ∧ i < b'.fieldArena.size) ∧
      ∀ above, Variant.EveryLeafAll (Leaf.FieldsFrom parent b.fieldArena.size b'.fieldArena.size
        ((Variant.choicesAll vs).map Choice.dropdown)) above vs
  | [], b, b', vs, _, _, h => by
    cases h
    exact ⟨fun i hi => (by simp [Variant.choicesAll] at hi), fun _ => trivial⟩
  | pv :: pvs, b, b', vs, hc, hd, h => by
    obtain ⟨b₁, x, xs, hx, hxs, rfl⟩ := constructAll_cons_ok h
    have hle₁ := (construct_grows _ hx).fieldArena_size_le
    have hle₂ := (constructAll_grows _ hxs).fieldArena_size_le
    obtain ⟨hDx, hlx⟩ := construct_fieldsFrom (hc pv List.mem_cons_self)
      (hd pv List.mem_cons_self) hx
    obtain ⟨hDxs, hlxs⟩ := constructAll_fieldsFrom (fun w hw => hc w (List.mem_cons_of_mem _ hw))
      (fun w hw => hd w (List.mem_cons_of_mem _ hw)) hxs
    -- the first tree's ids come before the rest's, so neither shows the other's dropdowns
    have hsplit : ∀ i, i ∈ (Variant.choicesAll (x :: xs)).map Choice.dropdown →
        i ∈ x.choices.map Choice.dropdown ∨ i ∈ (Variant.choicesAll xs).map Choice.dropdown := by
      intro i hi
      rwa [Variant.choicesAll, List.map_append, List.mem_append] at hi
    refine ⟨fun i hi => ?_, fun above => ⟨?_, ?_⟩⟩
    · rcases hsplit i hi with hi | hi
      · obtain ⟨h₁, h₂⟩ := hDx i hi
        exact ⟨h₁, by omega⟩
      · obtain ⟨h₁, h₂⟩ := hDxs i hi
        exact ⟨by omega, h₂⟩
    · refine Variant.EveryLeaf.imp (fun a l _ hl => hl.widen (Nat.le_refl _) hle₂ ?_) (hlx above)
      intro i hi h₁ h₂
      exact (hsplit i hi).resolve_right fun hi' => absurd (hDxs i hi').1 (by omega)
    · refine Variant.EveryLeafAll.imp (fun a l _ hl => hl.widen hle₁ (Nat.le_refl _) ?_)
        (hlxs above)
      intro i hi h₁ h₂
      exact (hsplit i hi).resolve_left fun hi' => absurd (hDx i hi').2 (by omega)
end

end VariantPlan

/-- **A new block's leaves show, of its dropdowns, only those of the branches above them**, when
its plan is checked and its nodes declare each name once: below no view, every field a leaf shows
was made for the tree. -/
theorem BlockPlan.setUp_showsAbove {p : BlockPlan} {r : Registry} {b b' : Block}
    (hc : p.variants.Checked) (hd : p.variants.Distinct) (h : p.setUp r b = .ok b') :
    ∀ v, b'.variants = some v → v.ShowsAbove := by
  obtain ⟨b₀, b₁, w, -, -, hcons, hb⟩ := p.setUp_cases h
  have hw : b'.variants = some w := by
    rcases hb with ⟨-, rfl⟩ | ⟨l, -, rfl⟩ <;> rfl
  intro v hv
  obtain rfl : v = w := Option.some.inj (hv.symm.trans hw)
  obtain ⟨-, hleaves⟩ := VariantPlan.construct_fieldsFrom hc hd hcons
  refine Variant.EveryLeaf.imp (fun a l _ hl e he i hi hD => ?_) (hleaves [])
  rcases hl e he i hi with ⟨n, hn⟩ | ⟨-, -, habove⟩
  · cases hn
  · exact habove hD

end Blockwork
