import Blockwork.Proofs.Plan.Names

/-!
# Reactions that cannot fail

Setting a field of a block whose type has variants makes the plan react: when a branch has the
field's name, the branch selects the child the field now shows. The reaction fails when the field
set under a branch's name is not that branch's dropdown (a text field of another variant, say),
since its value is then no child of the branch.

`Block.Unambiguous b v` rules that out for the variant tree `v` of `b`: every branch offers its
children in a dropdown named for it, no two branches share a name, and no other field of the
block, shown or not, carries a branch's name. Then every reaction to a value the field accepted
succeeds (`BlockPlan.fieldChanged_ok`), and what the reaction leaves is unambiguous again
(`BlockPlan.fieldChanged_unambiguous`).

A new block is unambiguous when each branch of its plan is the one field of its name that the plan
declares (`VariantPlan.Unambiguous`): making the tree files one named field per declared field, in
the order of the declarations (`VariantPlan.construct_fieldNames`), so a branch's dropdown is the
one field of the block with the branch's name.
-/

namespace Blockwork

/-- A list keeps under `g` one value at most once: the entries it keeps it as are at one index. -/
theorem eq_of_count_filterMap_le_one {α β : Type} [BEq β] [LawfulBEq β] {g : α → Option β}
    {y : β} :
    ∀ {l : List α}, (l.filterMap g).count y ≤ 1 → ∀ {i j : Nat} {a a' : α},
      l[i]? = some a → g a = some y → l[j]? = some a' → g a' = some y → i = j
  | [], _, _, _, _, _, hi, _, _, _ => by cases hi
  | x :: l, h, i, j, a, a', hi, ha, hj, ha' => by
    cases i with
    | zero =>
      cases j with
      | zero => rfl
      | succ j =>
        -- the head and a later entry are both kept as `y`
        cases hi
        rw [List.filterMap_cons_some ha, List.count_cons_self] at h
        have hmem : y ∈ l.filterMap g := List.mem_filterMap.mpr ⟨a', List.mem_of_getElem? hj, ha'⟩
        have := List.count_pos_iff.mpr hmem
        omega
    | succ i =>
      cases j with
      | zero =>
        cases hj
        rw [List.filterMap_cons_some ha', List.count_cons_self] at h
        have hmem : y ∈ l.filterMap g := List.mem_filterMap.mpr ⟨a, List.mem_of_getElem? hi, ha⟩
        have := List.count_pos_iff.mpr hmem
        omega
      | succ j =>
        have hl : (l.filterMap g).count y ≤ 1 := by
          refine Nat.le_trans ?_ h
          rw [List.filterMap_cons]
          split
          · exact Nat.le_refl _
          · exact List.count_le_count_cons ..
        rw [eq_of_count_filterMap_le_one hl hi ha hj ha']

/-! ### The named fields of a block -/

namespace Block

/-- The names of the block's named fields, shown or not, in arena order. -/
def fieldNames (b : Block) : List String := b.fieldArena.toList.filterMap Field.name

theorem fieldNames_adoptField (b : Block) (f : Field) :
    (b.adoptField f).1.fieldNames = b.fieldNames ++ f.name.toList := by
  simp only [fieldNames, adoptField, Array.toList_push, List.filterMap_append,
    List.filterMap_cons, List.filterMap_nil]
  cases f.name <;> rfl

@[simp] theorem fieldNames_adoptInput (b : Block) (i : Input) :
    (b.adoptInput i).1.fieldNames = b.fieldNames := rfl

/-- Two fields of a name that the block holds once are one field. -/
theorem eq_of_fieldNames_count {b : Block} {n : String} (h : b.fieldNames.count n ≤ 1)
    {i j : Nat} {f g : Field} (hi : b.field? i = some f) (hf : f.name = some n)
    (hj : b.field? j = some g) (hg : g.name = some n) : i = j := by
  simp only [field?, ← Array.getElem?_toList] at hi hj
  exact eq_of_count_filterMap_le_one h hi hf hj hg

end Block

@[simp] theorem BlockPlan.fieldNames_configure (p : BlockPlan) (b : Block) (leaf : Leaf) :
    (p.configure b leaf).fieldNames = b.fieldNames := by
  simp only [BlockPlan.configure, Block.layOut_eq]
  cases p.kind <;> rfl

/-! ### The fields a plan declares -/

namespace VariantPlan

mutual
/-- The names of the fields the nodes of a plan declare, each node before those below it; a
branch's dropdown is among its node's fields. -/
def fieldNames : VariantPlan → List String
  | .leaf s _ => s.fields.map (·.2.name)
  | .branch s cs => s.fields.map (·.2.name) ++ fieldNamesAll cs

/-- The names of the fields of a list of plans, plan by plan. -/
def fieldNamesAll : List VariantPlan → List String
  | [] => []
  | c :: cs => c.fieldNames ++ fieldNamesAll cs
end

/-- Each branch of the plan is the one field of its name that the plan declares: no other field
of any node, and no other branch, has the name. -/
def Unambiguous (pv : VariantPlan) : Prop := ∀ n ∈ pv.branchNames, pv.fieldNames.count n = 1

mutual
/-- A checked plan declares every branch's dropdown, under the branch's name, in the order of the
branches. -/
theorem branchNames_sublist :
    ∀ {pv : VariantPlan}, pv.Checked → pv.branchNames.Sublist pv.fieldNames
  | .leaf _ _, _ => List.nil_sublist _
  | .branch s cs, hc => by
    cases hc with
    | branch _ _ _ hdrop hchildren =>
    obtain ⟨fs, hfs⟩ := hdrop
    rw [branchNames, fieldNames, hfs, List.map_append, List.append_assoc]
    exact ((branchNamesAll_sublist hchildren).cons_cons _).trans
      (List.sublist_append_right _ _)

theorem branchNamesAll_sublist :
    ∀ {cs : List VariantPlan}, (∀ c ∈ cs, c.Checked) →
      (branchNamesAll cs).Sublist (fieldNamesAll cs)
  | [], _ => List.nil_sublist _
  | c :: cs, hc => by
    rw [branchNamesAll, fieldNamesAll]
    exact (branchNames_sublist (hc c List.mem_cons_self)).append
      (branchNamesAll_sublist fun c' h => hc c' (List.mem_cons_of_mem _ h))
end

/-- The branches of an unambiguous checked plan have distinct names. -/
theorem Unambiguous.nodup {pv : VariantPlan} (hc : pv.Checked) (hu : pv.Unambiguous) :
    pv.branchNames.Nodup := by
  refine List.nodup_iff_count_le_one.mpr fun n => ?_
  by_cases hn : n ∈ pv.branchNames
  · rw [← hu n hn]
    exact (branchNames_sublist hc).count_le n
  · rw [List.count_eq_zero_of_not_mem hn]
    exact Nat.zero_le 1

end VariantPlan

/-! ### Making a tree files its fields -/

/-- A fold whose every step files the named fields `added a` files all of them, in order. -/
theorem foldlM_fieldNames {α β : Type} {step : Block × β → α → Except PlanError (Block × β)}
    (added : α → List String)
    (hstep : ∀ x a y, step x a = .ok y → y.1.fieldNames = x.1.fieldNames ++ added a) :
    ∀ (l : List α) (x y : Block × β), l.foldlM step x = .ok y →
      y.1.fieldNames = x.1.fieldNames ++ l.flatMap added
  | [], x, y, h => by
    cases h
    simp
  | a :: l, x, y, h => by
    rw [List.foldlM_cons] at h
    rcases hx : step x a with e | x'
    · rw [hx] at h
      cases h
    · rw [hx] at h
      rw [foldlM_fieldNames added hstep l x' y h, hstep x a x' hx, List.flatMap_cons,
        List.append_assoc]

/-- Extending a view over a node files the node's fields, each under its declared name. -/
theorem Proto.extend_fieldNames {r : Registry} {b b' : Block} {s : Scope} {parent p : Proto}
    (h : Proto.extend r b s parent = .ok (b', p)) :
    b'.fieldNames = b.fieldNames ++ s.fields.map (·.2.name) := by
  unfold Proto.extend at h
  simp only [bind, Except.bind] at h
  split at h
  · cases h
  rename_i x hfields
  have h₁ : x.1.fieldNames = b.fieldNames ++ s.fields.flatMap fun a => [a.2.name] := by
    refine foldlM_fieldNames _ ?_ _ (b, parent.fields) _ hfields
    intro y a y' hy
    split at hy
    · cases hy
    · rename_i f hm
      cases hy
      rw [Block.fieldNames_adoptField, FieldData.make_name hm]
      rfl
  split at h
  · cases h
  rename_i x' hinputs
  -- the inputs made afterwards file no field
  have h₂ : x'.1.fieldNames = x.1.fieldNames ++ s.inputs.flatMap fun _ => [] := by
    refine foldlM_fieldNames _ ?_ _ (x.1, parent.inputs) _ hinputs
    intro y a y' hy
    split at hy
    · cases hy
    · cases hy
      rw [Block.fieldNames_adoptInput, List.append_nil]
  cases h
  rw [h₂, h₁, List.flatMap_eq_nil_iff.mpr fun _ _ => rfl, List.append_nil, ← List.map_eq_flatMap]

theorem addDummy_fieldNames {r : Registry} {b b' : Block} {i : Nat}
    (h : addDummy r b = .ok (b', i)) : b'.fieldNames = b.fieldNames := by
  obtain ⟨input, -, heq⟩ := addDummy_ok h
  cases heq
  rfl

/-- Laying a leaf's message out files no named field: labels have no name. -/
theorem layoutLine_fieldNames {r : Registry} {p : Proto} {leaf : String} :
    ∀ (b : Block) (ts : List Message.Token) (buffer : List Nat) (line : List LineEntry)
      {b' : Block} {line' : List LineEntry},
      layoutLine r p leaf b ts buffer line = .ok (b', line') → b'.fieldNames = b.fieldNames := by
  intro b ts buffer line b' line' h
  refine layoutLine_invariant (fun b₁ _ _ => b₁.fieldNames = b.fieldNames) (fun b₁ _ _ s hb => ?_)
    (fun _ _ _ _ _ hd hb => (addDummy_fieldNames hd).trans hb) (fun _ _ _ _ _ _ hb => hb)
    (fun _ _ _ _ _ _ hb => hb) h rfl
  rw [Block.fieldNames_adoptField, hb]
  exact List.append_nil _

namespace VariantPlan

mutual
/-- **Making a tree files one named field for each field its nodes declare**, in the order of
the declarations. -/
theorem construct_fieldNames {r : Registry} {parent : Proto} :
    ∀ (pv : VariantPlan) {b b' : Block} {x : Variant},
      pv.construct r parent b = .ok (b', x) → b'.fieldNames = b.fieldNames ++ pv.fieldNames
  | .leaf s message, b, b', x, h => by
    obtain ⟨b₁, p, line, hext, hlay, -⟩ := construct_leaf_ok h
    rw [layoutLine_fieldNames _ _ _ _ hlay, Proto.extend_fieldNames hext, fieldNames]
  | .branch s children, b, b', x, h => by
    obtain ⟨b₁, p, d, vs, hext, -, hall, -⟩ := construct_branch_ok h
    rw [constructAll_fieldNames children hall, Proto.extend_fieldNames hext, fieldNames,
      List.append_assoc]

theorem constructAll_fieldNames {r : Registry} {parent : Proto} :
    ∀ (vs : List VariantPlan) {b b' : Block} {xs : List Variant},
      constructAll r parent b vs = .ok (b', xs) → b'.fieldNames = b.fieldNames ++ fieldNamesAll vs
  | [], b, b', xs, h => by
    cases h
    simp [fieldNamesAll]
  | v :: vs, b, b', xs, h => by
    obtain ⟨b₁, x, xs', hv, hvs, -⟩ := constructAll_cons_ok h
    rw [constructAll_fieldNames vs hvs, construct_fieldNames v hv, fieldNamesAll,
      List.append_assoc]
end

end VariantPlan

/-- **A new block holds one named field for each field its plan declares.** -/
theorem BlockPlan.setUp_fieldNames {p : BlockPlan} {r : Registry} {n : Nat} {t : String}
    {b : Block} (h : p.setUp r { id := n, typeName := t } = .ok b) :
    b.fieldNames = p.variants.fieldNames := by
  obtain ⟨b₀, b₁, v, -, hb₀, hcons, ⟨-, rfl⟩ | ⟨l, -, rfl⟩⟩ := p.setUp_cases h
  all_goals
    have hnames := VariantPlan.construct_fieldNames _ hcons
    rw [show b₀.fieldNames = [] by simp [Block.fieldNames, hb₀], List.nil_append] at hnames
  · exact hnames
  · exact (p.fieldNames_configure b₁ l).trans hnames

/-! ### Unambiguous blocks -/

/-- The variant tree `v` is unambiguous for the block `b`: every branch offers its children in a
dropdown named for it, no two branches share a name, and no other field of the block, shown or
not, carries a branch's name. -/
structure Block.Unambiguous (b : Block) (v : Variant) : Prop where
  nodup : (v.choices.map Choice.name).Nodup
  offers : ∀ ch ∈ v.choices, ∃ f, b.Offers ch f
  alone : ∀ ch ∈ v.choices, ∀ i f, b.field? i = some f → f.name = some ch.name → i = ch.dropdown

/-- The block's own variant tree, when it has one, is unambiguous for it. -/
def Block.BranchesUnambiguous (b : Block) : Prop := ∀ v, b.variants = some v → b.Unambiguous v

namespace Block.Unambiguous

variable {b b' : Block} {v : Variant}

/-- The property reads the block only through its fields. -/
theorem of_field? (h : b.Unambiguous v) (hf : ∀ i, b'.field? i = b.field? i) :
    b'.Unambiguous v := by
  refine ⟨h.nodup, fun ch hch => ?_, fun ch hch i f hi hn => h.alone ch hch i f ?_ hn⟩
  · obtain ⟨f, hf₁, hf₂, hf₃⟩ := h.offers ch hch
    exact ⟨f, (hf _).trans hf₁, hf₂, hf₃⟩
  · rw [← hf i]
    exact hi

/-- A value a field accepts changes neither its name nor its kind. -/
theorem setValue (h : b.Unambiguous v) {i : Nat} {f f' : Field} (hf : b.field? i = some f)
    {val : Json} (hset : f.setValue val = .ok f') :
    (b.modifyField i fun _ => f').Unambiguous v := by
  obtain ⟨w, -, rfl⟩ := Field.setValue_eq hset
  have hfield := Block.field?_modifyField_const b hf { f with value := w }
  refine ⟨h.nodup, fun ch hch => ?_, fun ch hch j g hj hg => ?_⟩
  · obtain ⟨g, hg₁, hg₂, hg₃⟩ := h.offers ch hch
    by_cases hi : i = ch.dropdown
    · -- the dropdown itself was set: it keeps its name and its options
      rw [← hi, hf] at hg₁
      cases hg₁
      exact ⟨{ f with value := w }, by rw [hfield, if_pos hi], hg₂, hg₃⟩
    · exact ⟨g, by rw [hfield, if_neg hi]; exact hg₁, hg₂, hg₃⟩
  · rw [hfield] at hj
    split at hj
    · rename_i hij
      cases hj
      rw [← hij]
      exact h.alone ch hch i f hf hg
    · exact h.alone ch hch j g hj hg

/-- A selection changes only which child a branch has selected. -/
theorem select (h : b.Unambiguous v) {br c : String} {v' : Variant} {d : Nat}
    (hs : v.select br c = some (.ok (v', d))) : b.Unambiguous v' := by
  obtain ⟨-, -, -, -, j, -, hv'⟩ := Variant.choices_select_of_nodup h.nodup hs
  have hmem : ∀ x ∈ v'.choices, ∃ y ∈ v.choices,
      x.name = y.name ∧ x.dropdown = y.dropdown ∧ x.options = y.options := by
    intro x hx
    rw [hv', List.mem_map] at hx
    obtain ⟨y, hy, rfl⟩ := hx
    refine ⟨y, hy, ?_⟩
    split <;> exact ⟨rfl, rfl, rfl⟩
  have hnames : v'.choices.map Choice.name = v.choices.map Choice.name := by
    rw [hv', List.map_map]
    congr 1
    funext x
    simp only [Function.comp]
    split <;> rfl
  refine ⟨hnames ▸ h.nodup, fun x hx => ?_, fun x hx i f hi hn => ?_⟩
  · obtain ⟨y, hy, hxn, hxd, hxo⟩ := hmem x hx
    obtain ⟨f, hf₁, hf₂, hf₃⟩ := h.offers y hy
    exact ⟨f, hxd ▸ hf₁, hxn ▸ hf₂, hxo ▸ hf₃⟩
  · obtain ⟨y, hy, hxn, hxd, -⟩ := hmem x hx
    rw [hxd]
    exact h.alone y hy i f hi (hxn ▸ hn)

end Block.Unambiguous

namespace Block.BranchesUnambiguous

variable {b b' : Block}

/-- The property reads the block only through its tree and its fields. -/
theorem of_eq (h : b.BranchesUnambiguous) (hv : b'.variants = b.variants)
    (hf : b'.fieldArena = b.fieldArena) : b'.BranchesUnambiguous := by
  intro v hv'
  exact (h v (hv.symm.trans hv')).of_field? fun i => by simp only [Block.field?, hf]

theorem setValue (h : b.BranchesUnambiguous) {i : Nat} {f f' : Field} (hf : b.field? i = some f)
    {val : Json} (hset : f.setValue val = .ok f') :
    (b.modifyField i fun _ => f').BranchesUnambiguous :=
  fun v hv => (h v hv).setValue hf hset

end Block.BranchesUnambiguous

namespace BlockPlan

variable {p : BlockPlan} {b b' : Block}

theorem selectVariant_unambiguous (hb : b.BranchesUnambiguous) {br c : String}
    (h : p.selectVariant b br c = .ok b') : b'.BranchesUnambiguous := by
  obtain ⟨v, v', d, b₁, hv, hs, hset, hb'⟩ := selectVariant_cases h
  have hu₁ : b₁.Unambiguous v := by
    rcases hset with ⟨-, rfl⟩ | ⟨f, f', hf, hf', rfl⟩
    · exact hb v hv
    · exact (hb v hv).setValue hf hf'
  have hu' : b₁.Unambiguous v' := hu₁.select hs
  rintro w hw
  rcases hb' with ⟨-, rfl⟩ | ⟨leaf, -, rfl⟩
  · cases hw
    exact hu'.of_field? fun _ => rfl
  · cases hw
    exact hu'.of_field? fun i => p.field?_configure b₁ leaf i

/-- A reaction to a changed field leaves an unambiguous block. -/
theorem fieldChanged_unambiguous (hb : b.BranchesUnambiguous) {n : String}
    (h : p.fieldChanged b n = .ok b') : b'.BranchesUnambiguous := by
  rcases fieldChanged_cases h with rfl | ⟨c, hc⟩
  · exact hb
  · exact selectVariant_unambiguous hb hc

/-- **The reaction to a value a field accepted succeeds** on an unambiguous block. The field set
under a branch's name is that branch's dropdown, which accepts only the branch's children, and
the selection of a child of the one branch of that name succeeds. -/
theorem fieldChanged_ok (hb : b.BranchesUnambiguous) {n : String} {i : Nat} {f f' : Field}
    (hn : b.fieldNamed? n = some i) (hf : b.field? i = some f) {val : Json}
    (hset : f.setValue val = .ok f') :
    ∃ b₂, p.fieldChanged (b.modifyField i fun _ => f') n = .ok b₂ := by
  set b₁ := b.modifyField i fun _ => f'
  have hname : f'.name = f.name := Field.setValue_name hset
  have hn₁ : b₁.fieldNamed? n = some i := by
    rw [b.fieldNamed?_modifyField (fun g hg => by rw [hf] at hg; cases hg; exact hname) n]
    exact hn
  have hf₁ : b₁.field? i = some f' := by
    rw [Block.field?_modifyField_const b hf, if_pos rfl]
  unfold fieldChanged
  rcases hv : b.variants with _ | v
  · exact ⟨b₁, by simp only [b₁, Block.modifyField, hv]; rfl⟩
  have hv₁ : b₁.variants = some v := hv
  rw [hv₁]
  by_cases hbr : v.hasBranch n = true
  · -- the field of the name is the dropdown of the one branch of the name
    obtain ⟨ch, hch, rfl⟩ := (Variant.hasBranch_iff _ v).mp hbr
    have hu := hb v hv
    obtain ⟨g, hg, hgn⟩ := b.fieldNamed?_spec hn
    rw [hf] at hg
    cases hg
    have hid : i = ch.dropdown := hu.alone ch hch i f hf hgn
    subst hid
    obtain ⟨g, hg, -, hgk⟩ := hu.offers ch hch
    rw [hf] at hg
    cases hg
    obtain ⟨o, ho, rfl, rfl⟩ := Field.setValue_of_dropdown hgk hset
    obtain ⟨b₂, hb₂⟩ := selectVariant_isOk (p := p) hv₁ hu.nodup (hu.setValue hf hset).offers
      hch rfl ho
    refine ⟨b₂, ?_⟩
    simp only [hbr, if_true, hn₁, hf₁, Option.bind_some]
    exact hb₂
  · simp only [hbr]
    exact ⟨b₁, rfl⟩

/-- **A new block of an unambiguous checked plan is unambiguous**, when dropdowns are made by the
built-in constructor. -/
theorem setUp_unambiguous {r : Registry} (hr : r.field? "dropdown" = .ok .dropdown)
    (hc : p.variants.Checked) (hu : p.variants.Unambiguous) {n : Nat} {t : String}
    (h : p.setUp r { id := n, typeName := t } = .ok b) : b.BranchesUnambiguous := by
  have hnames := setUp_fieldNames h
  obtain ⟨b₀, b₁, v, -, -, hcons, hb⟩ := p.setUp_cases h
  obtain ⟨-, hbranches, hshows⟩ := VariantPlan.construct_shows hr hc hcons
  -- the block is `b₁` laid out, which keeps its fields, with the tree `v`
  have hfield : ∀ i, b.field? i = b₁.field? i := by
    rcases hb with ⟨-, rfl⟩ | ⟨l, -, rfl⟩
    · exact fun _ => rfl
    · exact fun i => p.field?_configure b₁ l i
  have hv : b.variants = some v := by
    rcases hb with ⟨-, rfl⟩ | ⟨l, -, rfl⟩ <;> rfl
  rintro w hw
  rw [hv] at hw
  cases hw
  have hoffers : ∀ ch ∈ v.choices, ∃ f, b.Offers ch f := by
    intro ch hch
    obtain ⟨f, ⟨hf, hfn, hfk⟩, -⟩ := hshows ch hch
    exact ⟨f, (hfield _).trans hf, hfn, hfk⟩
  refine ⟨by rw [hbranches]; exact VariantPlan.Unambiguous.nodup hc hu, hoffers,
    fun ch hch i f hi hn => ?_⟩
  -- the plan declares one field of the branch's name, and the block holds one
  have hone : b.fieldNames.count ch.name ≤ 1 := by
    rw [hnames, hu ch.name (hbranches ▸ List.mem_map_of_mem hch)]
  obtain ⟨g, hg, hgn, -⟩ := hoffers ch hch
  exact Block.eq_of_fieldNames_count hone hi hn hg hgn

end BlockPlan

end Blockwork
