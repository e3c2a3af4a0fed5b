import Blockwork.Proofs.Workspace.Session

/-!
# Dropdowns follow the selected variants

A block whose type has variants carries a tree of branch choices beside its fields: every branch
offers its children in a dropdown field named for it, and the leaf the selections reach decides
the block's layout. `Block.Agrees` is that agreement: each dropdown shows the child its branch
has selected, and configuring the block from the active leaf changes nothing.

The plan keeps the agreement step by step (`BlockPlan.setUp_agrees`,
`BlockPlan.fieldChanged_agrees`, `BlockPlan.agrees_selectVariant`). Here it is carried through
the workspace: setting a field writes the new value back before the plan reacts, so a reaction
that fails leaves the new value in place, and the agreement has to hold of that block too. A block
made in a workspace then agrees after any list of edits, provided the branches of its type have
distinct names; with two branches of one name, a set dropdown can be taken for the wrong branch.
-/

namespace Blockwork

open Workspace WorkspaceM

/-! ### The reaction to a set field -/

namespace BlockPlan

variable {p : BlockPlan} {b : Block} {v : Variant}

/-- **Setting a field keeps the agreement.** When the reaction to the new value succeeds, the
block it returns agrees; when it fails, the field was no branch's dropdown, and the block with the
new value agrees already. -/
theorem setValue_fieldChanged (hb : b.Agrees p v) {n : String} {i : Nat} {f f' : Field}
    (hn : b.fieldNamed? n = some i) (hf : b.field? i = some f) {val : Json}
    (hset : f.setValue val = .ok f') :
    (∀ b₂, p.fieldChanged (b.modifyField i fun _ => f') n = .ok b₂ → ∃ v', b₂.Agrees p v') ∧
      (∀ e, p.fieldChanged (b.modifyField i fun _ => f') n = .error e →
        ∃ v', (b.modifyField i fun _ => f').Agrees p v') := by
  by_cases hdrop : ∃ ch ∈ v.choices, ch.dropdown = i
  · -- a branch's dropdown takes only one of its children, and the reaction selects it
    obtain ⟨ch, hch, rfl⟩ := hdrop
    obtain ⟨g, ⟨hg, hgn, hgk⟩, -⟩ := hb.shows ch hch
    rw [hf] at hg
    cases hg
    obtain ⟨g, hg, hgname⟩ := b.fieldNamed?_spec hn
    rw [hf] at hg
    cases hg
    have hname : n = ch.name := Option.some.inj (hgname.symm.trans hgn)
    subst hname
    obtain ⟨o, ho, rfl, rfl⟩ := Field.setValue_of_dropdown hgk hset
    obtain ⟨b', hok, v', hv', -⟩ := fieldChanged_dropdown hb hch hf hn ho
    refine ⟨fun b₂ h₂ => ?_, fun e he => ?_⟩
    · rw [hok] at h₂
      cases h₂
      exact ⟨v', hv'⟩
    · rw [hok] at he
      cases he
  · -- any other field: every dropdown still shows what it showed
    simp only [not_exists, not_and] at hdrop
    have hb₁ := hb.modifyField hdrop fun _ => f'
    exact ⟨fun b₂ h₂ => fieldChanged_agrees hb₁ h₂, fun _ _ => ⟨v, hb₁⟩⟩

end BlockPlan

/-! ### The block in the workspace -/

namespace Workspace

/-- The block `id` is live under that id, of type `type`, and agrees with its variant tree
under `p`. -/
def AgreesAt (p : BlockPlan) (id : Nat) (type : String) (ws : Workspace) : Prop :=
  ∃ b v, ws.get? id = some b ∧ b.id = id ∧ b.typeName = type ∧ b.Agrees p v

theorem AgreesAt.write {p : BlockPlan} {id : Nat} {type : String} {ws : Workspace} {b : Block}
    {v : Variant} (hlt : id < ws.blocks.length) (hid : b.id = id) (ht : b.typeName = type)
    (hb : b.Agrees p v) : (ws.write id (some b)).AgreesAt p id type :=
  ⟨b, v, by simp [hlt], hid, ht, hb⟩

end Workspace

namespace WorkspaceM

variable {host : Host} {ws ws' : Workspace}

variable {p : BlockPlan} {type : String}

/-- **A new block agrees with the variant tree it is set up with**, when its type's branches have
distinct names and the host makes dropdowns with the built-in constructor. -/
theorem newBlock_agreesAt (hr : host.classes.field? "dropdown" = .ok .dropdown)
    (hp : host.definition type = .ok p) (hc : p.variants.Checked)
    (hnd : p.variants.branchNames.Nodup) {id : Nat}
    (h : (newBlock host type).run.run ws = (.ok id, ws')) : ws'.AgreesAt p id type := by
  obtain ⟨p', b, hp', hs, rfl, rfl⟩ := newBlock_ok h
  rw [hp] at hp'
  cases hp'
  obtain ⟨v, hv⟩ := BlockPlan.setUp_agrees hr hc hnd hs
  have hrel := BlockPlan.setUp_relaid hs
  exact ⟨b, v, by simp, hrel.id, hrel.typeName, hv⟩

/-- **Setting a field of the block keeps it agreeing**, whether the value is refused, the plan's
reaction fails, or both succeed. -/
theorem setField_agreesAt (hp : host.definition type = .ok p) {id : Nat} (n : String) (val : Json) :
    Keeps (AgreesAt p id type) (setField host id n val) := by
  rintro ws ⟨b, v, hb, hid, ht, hagree⟩
  have hlt := lt_length_of_get? hb
  rcases h : (setField host id n val).run.run ws with ⟨r, ws'⟩
  rcases setField_run_cases h with ⟨rfl, -⟩ | ⟨b', i, f, f', hb', hfn, hfd, hv, hfail | hdone⟩
  · -- a missing field or a refused value changes nothing
    exact ⟨b, v, hb, hid, ht, hagree⟩
  all_goals
    rw [hb] at hb'
    cases hb'
    have hplan : host.definition b.typeName = .ok p := by rw [ht]; exact hp
    have hid₁ : (b.modifyField i fun _ => f').id = id := hid
    obtain ⟨hok, herr⟩ := BlockPlan.setValue_fieldChanged hagree hfn hfd hv
  · -- the reaction failed: the new value stays, and agrees by itself
    obtain ⟨-, rfl, hfailed⟩ := hfail
    rcases hb₂ : p.fieldChanged (b.modifyField i fun _ => f') n with e | b₂
    · obtain ⟨v₁, hv₁⟩ := herr e hb₂
      rw [hid]
      exact AgreesAt.write hlt hid₁ ht hv₁
    · exact absurd hb₂ (hfailed p b₂ hplan)
  · obtain ⟨q, b₂, hq, hb₂, -, rfl⟩ := hdone
    rw [hplan] at hq
    cases hq
    have hr := BlockPlan.fieldChanged_relaid hb₂
    obtain ⟨v₂, hv₂⟩ := hok b₂ hb₂
    rw [hr.id, hid₁, hid]
    exact AgreesAt.write (by rw [length_write]; exact hlt) (hr.id.trans hid₁)
      (hr.typeName.trans ht) hv₂

/-- **Setting a shown branch dropdown to one of its children selects that child there**: the
set succeeds, and the block agrees with a tree whose branch of that name has the child
selected. -/
theorem setField_dropdown (hp : host.definition type = .ok p) {id : Nat} {b : Block} {v : Variant}
    (hb : ws.get? id = some b) (hid : b.id = id) (ht : b.typeName = type) (hagree : b.Agrees p v)
    {ch : Choice} (hch : ch ∈ v.choices) (hnamed : b.fieldNamed? ch.name = some ch.dropdown)
    {o : String} (ho : o ∈ ch.options) :
    ∃ ws' b' v', (setField host id ch.name (.str o)).run.run ws = (.ok (), ws') ∧
      ws'.get? id = some b' ∧ b'.Agrees p v' ∧ ∃ ch' ∈ v'.choices, ch'.name = ch.name ∧
        ch'.dropdown = ch.dropdown ∧ ch'.options[ch'.current]? = some o := by
  obtain ⟨f, ⟨hf, -, hfk⟩, -⟩ := hagree.shows ch hch
  obtain ⟨b', hok, v', hv', hpick⟩ := BlockPlan.fieldChanged_dropdown hagree hch hf hnamed ho
  refine ⟨(ws.write id (some (b.modifyField ch.dropdown fun _ => { f with value := .str o }))).write
    id (some b'), b', v', ?_, by simp [lt_length_of_get? hb], hv', hpick⟩
  -- the value is accepted and written back, then the plan's selection
  simp only [setField, run_bind, run_block hb, hnamed, hf, Field.setValue_dropdown hfk ho, run_put]
  set b₁ := b.modifyField ch.dropdown fun _ => { f with value := .str o }
  have hid₁ : b₁.id = id := hid
  have hplan : host.definition b₁.typeName = .ok p := by rw [← hp, ← ht]; rfl
  rw [hid₁, hplan]
  simp only [hok, run_put]
  rw [(BlockPlan.fieldChanged_relaid hok).id, hid₁]

end WorkspaceM

/-! ### Any list of edits -/

/-- An edit of one block: a field set through the workspace, or a variant selected by the plan
of the block's type, the block being written back when the selection succeeds. -/
inductive BlockEdit where
  | setField (name : String) (value : Json)
  | select (branch choice : String)

namespace BlockEdit

/-- Applies an edit to the block `id`; a selection that fails changes nothing. -/
def apply (host : Host) (p : BlockPlan) (id : Nat) (ws : Workspace) : BlockEdit → Workspace
  | .setField n val => ((WorkspaceM.setField host id n val).run.run ws).2
  | .select br c =>
    match ws.get? id with
    | none => ws
    | some b =>
      match p.selectVariant b br c with
      | .ok b' => ws.write id (some b')
      | .error _ => ws

variable {host : Host} {p : BlockPlan} {id : Nat} {type : String}

/-- One edit keeps the block agreeing. -/
theorem apply_agreesAt (hp : host.definition type = .ok p) {ws : Workspace}
    (h : ws.AgreesAt p id type) (e : BlockEdit) : (e.apply host p id ws).AgreesAt p id type := by
  cases e with
  | setField n val => exact WorkspaceM.setField_agreesAt hp n val ws h
  | select br c =>
    obtain ⟨b, v, hb, hid, ht, hagree⟩ := h
    rcases hsel : p.selectVariant b br c with e | b'
    · simp only [apply, hb, hsel]
      exact ⟨b, v, hb, hid, ht, hagree⟩
    · simp only [apply, hb, hsel]
      have hr := BlockPlan.selectVariant_relaid hsel
      obtain ⟨v', hv'⟩ := BlockPlan.agrees_selectVariant hagree hsel
      exact Workspace.AgreesAt.write (lt_length_of_get? hb) (hr.id.trans hid)
        (hr.typeName.trans ht) hv'

/-- A list of edits keeps the block agreeing; by induction on the list, one edit at a time. -/
theorem foldl_apply_agreesAt (hp : host.definition type = .ok p) (edits : List BlockEdit) :
    ∀ {ws : Workspace}, ws.AgreesAt p id type →
      (edits.foldl (apply host p id) ws).AgreesAt p id type := by
  induction edits with
  | nil => exact fun h => h
  | cons e edits ih => exact fun h => ih (apply_agreesAt hp h e)

end BlockEdit

/-- **Dropdowns follow the selected variants.** Take a type whose plan was built from a
declaration and whose branches have distinct names, on a host that makes dropdowns with the
built-in constructor, and a block made of it. After any list of field sets and variant
selections on that block, each succeeding or failing:

* every branch's dropdown is named for the branch and shows the child the branch has selected;
* the block is exactly what configuring it from the active leaf makes of it;
* setting the dropdown a branch shows under its name to one of its children succeeds, and selects
  that child on that very branch. -/
theorem dropdowns_follow_selection {host : Host} {type : String} {d : BlockData}
    {messages : Messages} {extra : List Nat} {p : BlockPlan}
    (hbuild : BlockPlan.build d messages extra = .ok p) (hnd : p.variants.branchNames.Nodup)
    (hp : host.definition type = .ok p) (hr : host.classes.field? "dropdown" = .ok .dropdown)
    {ws₀ ws : Workspace} {id : Nat} (hnew : (newBlock host type).run.run ws₀ = (.ok id, ws))
    (edits : List BlockEdit) :
    let ws' := edits.foldl (BlockEdit.apply host p id) ws
    ∃ b v leaf, ws'.get? id = some b ∧ b.variants = some v ∧
      (∀ ch ∈ v.choices, ∃ f o, b.field? ch.dropdown = some f ∧ f.name = some ch.name ∧
        ch.options[ch.current]? = some o ∧ f.value = .str o) ∧
      v.activeLeaf? = some leaf ∧ p.configure b leaf = b ∧
      ∀ ch ∈ v.choices, b.fieldNamed? ch.name = some ch.dropdown → ∀ o ∈ ch.options,
        ∃ ws'' b' v', (setField host id ch.name (.str o)).run.run ws' = (.ok (), ws'') ∧
          ws''.get? id = some b' ∧ b'.variants = some v' ∧
          ∃ ch' ∈ v'.choices, ch'.name = ch.name ∧ ch'.dropdown = ch.dropdown ∧
            ch'.options[ch'.current]? = some o := by
  intro ws'
  have hstart : ws.AgreesAt p id type :=
    newBlock_agreesAt hr hp (BlockPlan.build_checked hbuild) hnd hnew
  obtain ⟨b, v, hb, hid, ht, hagree⟩ := BlockEdit.foldl_apply_agreesAt hp edits hstart
  obtain ⟨leaf, hleaf, hfix⟩ := hagree.laidOut
  refine ⟨b, v, leaf, hb, hagree.variants_eq, fun ch hch => ?_, hleaf, hfix,
    fun ch hch hnamed o ho => ?_⟩
  · obtain ⟨f, ⟨hf, hfn, -⟩, o, ho, hfv⟩ := hagree.shows ch hch
    exact ⟨f, o, hf, hfn, ho, hfv⟩
  · obtain ⟨ws'', b', v', hrun, hb', hv', hpick⟩ :=
      setField_dropdown hp hb hid ht hagree hch hnamed ho
    exact ⟨ws'', b', v', hrun, hb', hv'.variants_eq, hpick⟩

/-- A statement type whose dropdown `S` picks `A` or `B`, where `B` offers `P` or `Q` in a
dropdown of its own. -/
def twoLevelData : BlockData :=
  { name := "S", kind := .statement,
    variants := some [
      { name := "A", message := some "%\x7bS\x7d" },
      { name := "B",
        variants := some [{ name := "P", message := some "%\x7bS\x7d %\x7bB\x7d" },
          { name := "Q", message := some "%\x7bS\x7d %\x7bB\x7d" }] }] }

/-- The plan built from `twoLevelData`. -/
def twoLevelPlan : BlockPlan :=
  { name := "S", kind := .statement, orientation := .horizontal, categories := [], tooltip := "",
    helpUrl := "", colours := [BlockPlan.defaultColour],
    variants := .branch ⟨"S", [], [("S", branchDropdown "S" ["A", "B"])], none, none⟩
      [.leaf ⟨"A", [], [], none, none⟩ "%\x7bS\x7d",
        .branch ⟨"B", [], [("B", branchDropdown "B" ["P", "Q"])], none, none⟩
          [.leaf ⟨"P", [], [], none, none⟩ "%\x7bS\x7d %\x7bB\x7d",
            .leaf ⟨"Q", [], [], none, none⟩ "%\x7bS\x7d %\x7bB\x7d"]] }

theorem twoLevel_build : BlockPlan.build twoLevelData {} [] = .ok twoLevelPlan := by
  simp only [BlockPlan.build, Messages.lookup_empty, Option.getD_none]
  rfl

/-- A block of the two-level type, with `B` picked through its dropdown and then `Q` selected
in `B`. -/
theorem twoLevel_follows_selection :
    let host : Host := { definitions := [("S", twoLevelPlan)] }
    BlockPlan.build twoLevelData {} [] = .ok twoLevelPlan ∧
      twoLevelPlan.variants.branchNames.Nodup ∧ host.definition "S" = .ok twoLevelPlan ∧
      host.classes.field? "dropdown" = .ok .dropdown ∧
      (newBlock host "S").run.run {} = (.ok 0, ((newBlock host "S").run.run {}).2) ∧
      let ws' := [BlockEdit.setField "S" (.str "B"), .select "B" "Q"].foldl
        (BlockEdit.apply host twoLevelPlan 0) ((newBlock host "S").run.run {}).2
      ∃ b v leaf, ws'.get? 0 = some b ∧ b.variants = some v ∧
        (∀ ch ∈ v.choices, ∃ f o, b.field? ch.dropdown = some f ∧ f.name = some ch.name ∧
          ch.options[ch.current]? = some o ∧ f.value = .str o) ∧
        v.activeLeaf? = some leaf ∧ twoLevelPlan.configure b leaf = b ∧
        ∀ ch ∈ v.choices, b.fieldNamed? ch.name = some ch.dropdown → ∀ o ∈ ch.options,
          ∃ ws'' b' v', (setField host 0 ch.name (.str o)).run.run ws' = (.ok (), ws'') ∧
            ws''.get? 0 = some b' ∧ b'.variants = some v' ∧
            ∃ ch' ∈ v'.choices, ch'.name = ch.name ∧ ch'.dropdown = ch.dropdown ∧
              ch'.options[ch'.current]? = some o := by
  intro host
  have hnd : twoLevelPlan.variants.branchNames.Nodup := by decide
  -- the new block is block 0, which the kernel confirms by running the set-up
  have hnew : (newBlock host "S").run.run {} = (.ok 0, ((newBlock host "S").run.run {}).2) := by
    have h : ((newBlock host "S").run.run {}).1.toOption = some 0 := by decide +kernel
    revert h
    generalize (newBlock host "S").run.run {} = r
    rcases r with ⟨_ | n, ws⟩
    · simp [Except.toOption]
    · simp only [Except.toOption, Option.some.injEq]
      rintro rfl
      rfl
  exact ⟨twoLevel_build, hnd, rfl, rfl, hnew,
    dropdowns_follow_selection twoLevel_build hnd rfl rfl hnew _⟩

/-- A value type whose only branch `S` has a single child that is itself a branch named `S`,
offering `P` or `Q`. -/
def sameNameData : BlockData :=
  { name := "S",
    variants := some [
      { name := "S",
        variants := some [{ name := "P", message := some "%\x7bS\x7d" },
          { name := "Q", message := some "%\x7bS\x7d" }] }] }

/-- The plan built from `sameNameData`. -/
def sameNamePlan : BlockPlan :=
  { name := "S", kind := .value, orientation := .horizontal, categories := [], tooltip := "",
    helpUrl := "", colours := [BlockPlan.defaultColour],
    variants := .branch ⟨"S", [], [("S", branchDropdown "S" ["S"])], none, none⟩
      [.branch ⟨"S", [], [("S", branchDropdown "S" ["P", "Q"])], none, none⟩
        [.leaf ⟨"P", [], [], none, none⟩ "%\x7bS\x7d", .leaf ⟨"Q", [], [], none, none⟩ "%\x7bS\x7d"]] }

/-- **Without distinct branch names the dropdowns can drift.** Setting the visible dropdown `S`
of a block of `sameNamePlan` to `Q` puts `Q` in the inner branch's dropdown, but the reaction looks
the name up as the outer branch, which has no child `Q`; the selection fails and the inner branch
keeps `P`. -/
theorem sameName_dropdown_drifts :
    let host : Host := { definitions := [("S", sameNamePlan)] }
    let ws := ((setField host 0 "S" (.str "Q")).run.run ((newBlock host "S").run.run {}).2).2
    BlockPlan.build sameNameData {} [] = .ok sameNamePlan ∧
      ¬ ∃ b v, ws.get? 0 = some b ∧ b.variants = some v ∧ ∀ ch ∈ v.choices, ∃ f o,
        b.field? ch.dropdown = some f ∧ ch.options[ch.current]? = some o ∧ f.value = .str o := by
  intro host ws
  refine ⟨by simp only [BlockPlan.build, Messages.lookup_empty, Option.getD_none]; rfl, ?_⟩
  rintro ⟨b, v, hb, hv, hall⟩
  -- the kernel runs the session and finds a branch whose dropdown shows another child
  have hbad : ((ws.get? 0).bind fun b => b.variants.map fun v => v.choices.any fun ch =>
      decide ((b.field? ch.dropdown).bind (·.value.str?) ≠ ch.options[ch.current]?)) =
        some true := by
    decide +kernel
  rw [hb] at hbad
  simp only [Option.bind_some, hv, Option.map_some, Option.some.injEq, List.any_eq_true,
    decide_eq_true_eq] at hbad
  obtain ⟨ch, hch, hne⟩ := hbad
  obtain ⟨f, o, hf, ho, hfv⟩ := hall ch hch
  rw [hf, ho] at hne
  exact hne (by simp [hfv, Json.str?])

end Blockwork
