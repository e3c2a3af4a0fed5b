import Blockwork.Proofs.Workspace.Switching

/-!
# Every block has an active leaf

A block's variant tree is **selectable** when every branch selects one of its children: its
selected index is below the number of its children, so it has children, and following the
selected children from the root always reaches a leaf (`Variant.Selectable.activeLeaf?`).

A selected index is written in two places only. Making a block from a checked plan selects the
first child of every branch, and a checked branch has children (`construct_selectable`); a
selection writes the index of a child it found by name (`select_selectable`). Every other step of
a variant switch or a field set leaves the tree alone, so a block made from a built plan keeps a
selectable tree, and with it an active leaf, through any list of field sets and variant
selections, each succeeding or failing (`active_leaf_defined`). No condition on the names of the
branches is needed: a selection may act on another branch than the one meant, but it still
selects a child there.
-/

namespace Blockwork

namespace Variant

/-- Every branch of the tree selects one of its children. -/
def Selectable (v : Variant) : Prop := ∀ ch ∈ v.choices, ch.current < ch.options.length

theorem mem_choicesAll_iff {x : Choice} {vs : List Variant} :
    x ∈ choicesAll vs ↔ ∃ v ∈ vs, x ∈ v.choices := by
  induction vs with
  | nil => simp [choicesAll]
  | cons w ws ih => simp [choicesAll, ih]

/-- A selectable tree has an active leaf. -/
theorem Selectable.activeLeaf? {v : Variant} (h : v.Selectable) : ∃ leaf, v.activeLeaf? = some leaf :=
  Option.isSome_iff_exists.mp (activeLeaf?_isSome v h)

/-- A branch selecting its first child is selectable when it has children and they are. -/
theorem selectable_branch_zero {n : String} {d : Nat} {vs : List Variant} (hne : vs ≠ [])
    (hvs : ∀ v ∈ vs, v.Selectable) : (branch n d 0 vs).Selectable := by
  intro ch hch
  rcases List.mem_cons.mp hch with rfl | hch
  · simpa [List.length_pos_iff] using hne
  · obtain ⟨v, hv, hx⟩ := mem_choicesAll_iff.mp hch
    exact hvs v hv ch hx

/-- **A selection keeps the tree selectable**: it changes one choice, to the index of a child it
found by name. -/
theorem select_selectable {v v' : Variant} {n c : String} {d : Nat} (h : v.Selectable)
    (hsel : v.select n c = some (.ok (v', d))) : v'.Selectable := by
  obtain ⟨pre, ch, post, hc, -, -, -, j, hj, hc'⟩ := select_spec hsel
  have hj' : j < ch.options.length := (List.findIdx?_eq_some_iff_getElem.mp hj).1
  intro x hx
  rw [hc'] at hx
  rcases List.mem_append.mp hx with hx | hx
  · exact h x (by rw [hc]; exact List.mem_append_left _ hx)
  rcases List.mem_cons.mp hx with rfl | hx
  · exact hj'
  · exact h x (by rw [hc]; exact List.mem_append_right _ (List.mem_cons_of_mem _ hx))

end Variant

namespace VariantPlan

variable {r : Registry}

mutual
/-- **Making a checked tree gives a selectable one**: every branch selects its first child, and a
checked branch has children. -/
theorem construct_selectable {parent : Proto} :
    ∀ {pv : VariantPlan} {b b' : Block} {v : Variant}, pv.Checked →
      pv.construct r parent b = .ok (b', v) → v.Selectable
  | .leaf _ _, _, _, _, _, h => by
    obtain ⟨-, -, -, -, -, rfl⟩ := construct_leaf_ok h
    intro ch hch
    cases hch
  | .branch s children, _, _, _, hc, h => by
    cases hc with
    | branch _ _ hne _ hchildren =>
    obtain ⟨b₁, p, d, vs, -, -, hall, rfl⟩ := construct_branch_ok h
    obtain ⟨hlen, hvs⟩ := constructAll_selectable hchildren hall
    refine Variant.selectable_branch_zero (fun hnil => hne ?_) hvs
    rw [← List.length_eq_zero_iff, ← hlen, hnil, List.length_nil]

/-- Making the children of a checked branch gives one selectable tree for each. -/
theorem constructAll_selectable {parent : Proto} :
    ∀ {pvs : List VariantPlan} {b b' : Block} {vs : List Variant}, (∀ pv ∈ pvs, pv.Checked) →
      constructAll r parent b pvs = .ok (b', vs) → vs.length = pvs.length ∧ ∀ v ∈ vs, v.Selectable
  | [], _, _, _, _, h => by
    cases h
    exact ⟨rfl, fun _ hv => by cases hv⟩
  | pv :: pvs, _, _, _, hc, h => by
    obtain ⟨b₁, x, xs, hx, hxs, rfl⟩ := constructAll_cons_ok h
    have hsel := construct_selectable (hc pv List.mem_cons_self) hx
    obtain ⟨hlen, hsels⟩ := constructAll_selectable (fun w hw => hc w (List.mem_cons_of_mem _ hw)) hxs
    refine ⟨by rw [List.length_cons, List.length_cons, hlen], fun v hv => ?_⟩
    rcases List.mem_cons.mp hv with rfl | hv
    · exact hsel
    · exact hsels v hv
end

end VariantPlan

namespace Block

/-- The block has a variant tree, and it is selectable. -/
def Selectable (b : Block) : Prop := ∃ v, b.variants = some v ∧ v.Selectable

theorem Selectable.modifyField {b : Block} (h : b.Selectable) (i : Nat) (g : Field → Field) :
    (b.modifyField i g).Selectable := h

end Block

namespace BlockPlan

variable {p : BlockPlan} {b b' : Block}

/-- A new block of a checked plan has a selectable tree. -/
theorem setUp_selectable {r : Registry} (hc : p.variants.Checked) (h : p.setUp r b = .ok b') :
    b'.Selectable := by
  simp only [BlockPlan.setUp, bind, Except.bind] at h
  split at h
  · cases h
  rename_i y hcons
  obtain ⟨b₁, v⟩ := y
  cases h
  exact ⟨v, rfl, VariantPlan.construct_selectable hc hcons⟩

/-- Selecting a variant stores the selected tree, whatever else fails or is laid out. -/
theorem selectVariant_selectable {br c : String} (hb : b.Selectable)
    (h : p.selectVariant b br c = .ok b') : b'.Selectable := by
  obtain ⟨v, v', d, b₁, hv, hsel, -, hb'⟩ := selectVariant_cases h
  obtain ⟨v₀, hv₀, hsel₀⟩ := hb
  rw [hv, Option.some.injEq] at hv₀
  subst hv₀
  refine ⟨v', ?_, Variant.select_selectable hsel₀ hsel⟩
  rcases hb' with ⟨-, rfl⟩ | ⟨leaf, -, rfl⟩ <;> rfl

theorem fieldChanged_selectable {n : String} (hb : b.Selectable)
    (h : p.fieldChanged b n = .ok b') : b'.Selectable := by
  rcases fieldChanged_cases h with rfl | ⟨c, hc⟩
  · exact hb
  · exact selectVariant_selectable hb hc

end BlockPlan

namespace Workspace

/-- The block `id` is live under that id with a selectable tree. -/
def SelectableAt (id : Nat) (ws : Workspace) : Prop :=
  ∃ b, ws.get? id = some b ∧ b.id = id ∧ b.Selectable

end Workspace

namespace WorkspaceM

open Workspace

variable {host : Host}

/-- **Setting a field keeps the block's tree selectable**, whether the value is refused, the
plan's reaction fails, or both succeed. -/
theorem setField_selectableAt (id : Nat) (n : String) (val : Json) :
    Keeps (SelectableAt id) (setField host id n val) := by
  rintro ws ⟨b, hb, hid, hsel⟩
  rcases h : (setField host id n val).run.run ws with ⟨r, ws'⟩
  have hlt := lt_length_of_get? hb
  rcases setField_cases h with rfl | ⟨b', i, g, hb', rfl | ⟨p, b₂, -, hb₂, rfl⟩⟩
  · exact ⟨b, hb, hid, hsel⟩
  · rw [hb, Option.some.injEq] at hb'
    subst hb'
    rw [hid]
    exact ⟨b.modifyField i g, by simp [hlt], hid, hsel.modifyField i g⟩
  · -- the reaction returns the block under its id, with a tree it selected in
    rw [hb, Option.some.injEq] at hb'
    subst hb'
    have hid₂ : b₂.id = id := (BlockPlan.fieldChanged_relaid hb₂).id.trans hid
    rw [hid₂]
    exact ⟨b₂, by simp [hlt], hid₂,
      BlockPlan.fieldChanged_selectable (hsel.modifyField i g) hb₂⟩

end WorkspaceM

namespace BlockEdit

open Workspace

variable {host : Host} {p : BlockPlan} {id : Nat}

/-- One edit keeps the block's tree selectable. -/
theorem apply_selectableAt {ws : Workspace} (h : ws.SelectableAt id) (e : BlockEdit) :
    (e.apply host p id ws).SelectableAt id := by
  cases e with
  | setField n val => exact WorkspaceM.setField_selectableAt id n val ws h
  | select br c =>
    obtain ⟨b, hb, hid, hsel⟩ := h
    rcases hs : p.selectVariant b br c with e | b'
    · simp only [apply, hb, hs]
      exact ⟨b, hb, hid, hsel⟩
    · simp only [apply, hb, hs]
      exact ⟨b', by simp [lt_length_of_get? hb], (BlockPlan.selectVariant_relaid hs).id.trans hid,
        BlockPlan.selectVariant_selectable hsel hs⟩

/-- A list of edits keeps the block's tree selectable; by induction on the list. -/
theorem foldl_apply_selectableAt (edits : List BlockEdit) :
    ∀ {ws : Workspace}, ws.SelectableAt id → (edits.foldl (apply host p id) ws).SelectableAt id := by
  induction edits with
  | nil => exact fun h => h
  | cons e edits ih => exact fun h => ih (apply_selectableAt h e)

end BlockEdit

open Workspace WorkspaceM in
/-- **The active leaf is always defined.** Take a type whose plan was built from a declaration,
and a block made of it. After any list of field sets and variant selections on that block, each
succeeding or failing, every branch of the block's variant tree has children and selects one of
them, and following the selected children from the root reaches a leaf. -/
theorem active_leaf_defined {host : Host} {type : String} {d : BlockData} {messages : Messages}
    {extra : List Nat} {p : BlockPlan} (hbuild : BlockPlan.build d messages extra = .ok p)
    (hp : host.definition type = .ok p) {ws₀ ws : Workspace} {id : Nat}
    (hnew : (newBlock host type).run.run ws₀ = (.ok id, ws)) (edits : List BlockEdit) :
    let ws' := edits.foldl (BlockEdit.apply host p id) ws
    ∃ b v leaf, ws'.get? id = some b ∧ b.variants = some v ∧
      (∀ ch ∈ v.choices, ch.options ≠ [] ∧ ch.current < ch.options.length) ∧
      v.activeLeaf? = some leaf := by
  intro ws'
  obtain ⟨p', b₀, hp', hs, rfl, rfl⟩ := newBlock_ok hnew
  rw [hp] at hp'
  cases hp'
  have hstart : (ws₀.push b₀).SelectableAt ws₀.blocks.length :=
    ⟨b₀, by rw [get?_push, if_pos rfl], (BlockPlan.setUp_relaid hs).id,
      BlockPlan.setUp_selectable (BlockPlan.build_checked hbuild) hs⟩
  obtain ⟨b, hb, -, v, hv, hsel⟩ := BlockEdit.foldl_apply_selectableAt edits hstart
  obtain ⟨leaf, hleaf⟩ := hsel.activeLeaf?
  exact ⟨b, v, leaf, hb, hv,
    fun ch hch => ⟨List.ne_nil_of_length_pos (Nat.zero_lt_of_lt (hsel ch hch)), hsel ch hch⟩, hleaf⟩

open WorkspaceM in
/-- A block of the two-level type keeps an active leaf while `B` is picked through its dropdown,
`Q` is selected in `B`, and a selection of a child `B` does not have fails. -/
theorem twoLevel_keeps_active_leaf :
    let host : Host := { definitions := [("S", twoLevelPlan)] }
    BlockPlan.build twoLevelData {} [] = .ok twoLevelPlan ∧ host.definition "S" = .ok twoLevelPlan ∧
      (newBlock host "S").run.run {} = (.ok 0, ((newBlock host "S").run.run {}).2) ∧
      let ws' := [BlockEdit.setField "S" (.str "B"), .select "B" "Q", .select "B" "Z"].foldl
        (BlockEdit.apply host twoLevelPlan 0) ((newBlock host "S").run.run {}).2
      ∃ b v leaf, ws'.get? 0 = some b ∧ b.variants = some v ∧
        (∀ ch ∈ v.choices, ch.options ≠ [] ∧ ch.current < ch.options.length) ∧
        v.activeLeaf? = some leaf := by
  intro host
  have hnew : (newBlock host "S").run.run {} = (.ok 0, ((newBlock host "S").run.run {}).2) :=
    run_eq_of_toOption (by decide +kernel)
  exact ⟨twoLevel_build, rfl, hnew, active_leaf_defined twoLevel_build rfl hnew _⟩

end Blockwork
