import Blockwork.Plan.Block

/-!
# The choices of a variant tree

Each branch of a block's variant tree is a **choice**: the branch's name, the arena index of
its dropdown field, the index of the selected child and the names of the children in order.
`Variant.choices` lists them in the order a search meets the branches, a branch before the
branches below it.

Selecting `c` in the branch `n` (`Variant.select`) acts on the first choice named `n`: it fails
when no child is named `c`, and otherwise selects the first child named `c` there and changes no
other choice (`select_spec`). When the names of the branches are all different that choice is
the only one of its name (`choices_select_of_nodup`). A tree whose every choice selects a child
that exists has an active leaf (`activeLeaf?_isSome`).
-/

namespace Blockwork

/-- One branch of a variant tree as its dropdown shows it. -/
structure Choice where
  name : String
  dropdown : Nat
  current : Nat
  options : List String

namespace Variant

mutual
/-- The choices of a tree, each branch before the branches below it. -/
def choices : Variant → List Choice
  | .leaf _ => []
  | .branch n d cur cs => ⟨n, d, cur, cs.map name⟩ :: choicesAll cs

/-- The choices of a list of trees, tree by tree. -/
def choicesAll : List Variant → List Choice
  | [] => []
  | v :: vs => v.choices ++ choicesAll vs
end

/-! ### Where a branch is -/

mutual
theorem hasBranch_iff (n : String) :
    ∀ v : Variant, v.hasBranch n = true ↔ ∃ ch ∈ v.choices, ch.name = n
  | .leaf _ => by simp [hasBranch, choices]
  | .branch m d cur cs => by
    rw [hasBranch, choices, Bool.or_eq_true, anyHasBranch_iff n cs, beq_iff_eq]
    constructor
    · rintro (rfl | ⟨ch, hch, hn⟩)
      · exact ⟨_, List.mem_cons_self .., rfl⟩
      · exact ⟨ch, List.mem_cons_of_mem _ hch, hn⟩
    · rintro ⟨ch, hch, hn⟩
      rcases List.mem_cons.mp hch with rfl | hch
      · exact Or.inl hn
      · exact Or.inr ⟨ch, hch, hn⟩

theorem anyHasBranch_iff (n : String) :
    ∀ vs : List Variant, anyHasBranch n vs = true ↔ ∃ ch ∈ choicesAll vs, ch.name = n
  | [] => by simp [anyHasBranch, choicesAll]
  | v :: vs => by
    rw [anyHasBranch, choicesAll, Bool.or_eq_true, hasBranch_iff n v, anyHasBranch_iff n vs]
    simp only [List.mem_append]
    constructor
    · rintro (⟨ch, hch, hn⟩ | ⟨ch, hch, hn⟩)
      · exact ⟨ch, Or.inl hch, hn⟩
      · exact ⟨ch, Or.inr hch, hn⟩
    · rintro ⟨ch, hch | hch, hn⟩
      · exact Or.inl ⟨ch, hch, hn⟩
      · exact Or.inr ⟨ch, hch, hn⟩
end

mutual
/-- A selection answers exactly when the tree has a branch of the name. -/
theorem isSome_select (n c : String) : ∀ v : Variant, (v.select n c).isSome = v.hasBranch n
  | .leaf _ => rfl
  | .branch m d cur cs => by
    rw [select, hasBranch]
    by_cases h : m = n
    · simp [h]
    · simp [beq_false_of_ne h, isSome_selectAmong n c cs]

theorem isSome_selectAmong (n c : String) :
    ∀ vs : List Variant, (selectAmong n c vs).isSome = anyHasBranch n vs
  | [] => rfl
  | v :: vs => by
    rw [selectAmong, anyHasBranch]
    rcases h : select n c v with _ | r
    · have hv := isSome_select n c v
      rw [h] at hv
      simp [← hv, isSome_selectAmong n c vs]
    · have hv := isSome_select n c v
      rw [h] at hv
      simp [← hv]
end

/-! ### What a selection changes -/

mutual
/-- A selection keeps the name of the tree it changes. -/
theorem name_select {n c : String} :
    ∀ {v v' : Variant} {d : Nat}, v.select n c = some (.ok (v', d)) → v'.name = v.name
  | .leaf _, _, _, h => by cases h
  | .branch m dd cur cs, v', d, h => by
    rw [select] at h
    split at h
    · -- the branch itself is selected in
      split at h <;> cases h
      rfl
    · obtain ⟨r, hr, hr'⟩ := Option.map_eq_some_iff.mp h
      rcases r with e | ⟨cs', d'⟩
      · cases hr'
      · cases hr'
        rfl

theorem names_selectAmong {n c : String} :
    ∀ {vs vs' : List Variant} {d : Nat}, selectAmong n c vs = some (.ok (vs', d)) →
      vs'.map name = vs.map name
  | [], _, _, h => by cases h
  | v :: vs, vs', d, h => by
    rw [selectAmong] at h
    split at h
    · rename_i r hv
      rcases r with e | ⟨v', d'⟩
      · simp [Except.map] at h
      · simp only [Except.map, Option.some.injEq, Except.ok.injEq, Prod.mk.injEq] at h
        obtain ⟨rfl, rfl⟩ := h
        rw [List.map_cons, List.map_cons, name_select hv]
    · obtain ⟨r, hr, hr'⟩ := Option.map_eq_some_iff.mp h
      rcases r with e | ⟨vs'', d'⟩
      · cases hr'
      · cases hr'
        rw [List.map_cons, List.map_cons, names_selectAmong hr]
end

end Variant

/-- What selecting `c` gives when the choice `ch` is selected in, with the choices `pre` before
it and `post` after it: an error when no option is named `c`; otherwise the choice's dropdown,
and the same choices with the first option named `c` selected in `ch`. -/
def Choice.Selects {α : Type} (choicesOf : α → List Choice) (c : String)
    (pre : List Choice) (ch : Choice) (post : List Choice) : Except PlanError (α × Nat) → Prop
  | .error _ => ch.options.findIdx? (· == c) = none
  | .ok (x, d) => d = ch.dropdown ∧ ∃ j, ch.options.findIdx? (· == c) = some j ∧
      choicesOf x = pre ++ { ch with current := j } :: post

namespace Variant

/-- The options of a branch are searched like its children. -/
theorem findIdx?_options (c : String) (cs : List Variant) :
    (cs.map name).findIdx? (· == c) = indexOfName c cs := by
  rw [List.findIdx?_map]
  rfl

mutual
/-- **A selection acts on the first choice of its name**, as `Choice.Selects` says. -/
theorem select_spec {n c : String} :
    ∀ {v : Variant} {r}, v.select n c = some r →
      ∃ pre ch post, v.choices = pre ++ ch :: post ∧ (∀ x ∈ pre, x.name ≠ n) ∧ ch.name = n ∧
        ch.Selects choices c pre post r
  | .leaf _, _, h => by cases h
  | .branch m dd cur cs, r, h => by
    rw [select] at h
    split at h
    · -- the branch itself: no choice before it
      rename_i hm
      refine ⟨[], ⟨m, dd, cur, cs.map name⟩, choicesAll cs, rfl, by simp, beq_iff_eq.mp hm, ?_⟩
      cases h
      rcases hi : indexOfName c cs with _ | i
      · exact (findIdx?_options c cs).trans hi
      · exact ⟨rfl, i, (findIdx?_options c cs).trans hi, rfl⟩
    · -- below the branch: its own choice comes first and stays as it was
      rename_i hm
      obtain ⟨r₀, hr₀, rfl⟩ := Option.map_eq_some_iff.mp h
      obtain ⟨pre, ch, post, hcs, hpre, hn, hsel⟩ := selectAmong_spec hr₀
      refine ⟨⟨m, dd, cur, cs.map name⟩ :: pre, ch, post, by rw [choices, hcs]; rfl, ?_, hn, ?_⟩
      · intro x hx
        rcases List.mem_cons.mp hx with rfl | hx
        · exact fun h => hm (beq_iff_eq.mpr h)
        · exact hpre x hx
      · rcases r₀ with e | ⟨cs', d⟩
        · exact hsel
        · obtain ⟨hd, j, hj, hcs'⟩ := hsel
          refine ⟨hd, j, hj, ?_⟩
          show choices (.branch m dd cur cs') = _
          rw [choices, hcs', names_selectAmong hr₀]
          rfl

theorem selectAmong_spec {n c : String} :
    ∀ {vs : List Variant} {r}, selectAmong n c vs = some r →
      ∃ pre ch post, choicesAll vs = pre ++ ch :: post ∧ (∀ x ∈ pre, x.name ≠ n) ∧
        ch.name = n ∧ ch.Selects choicesAll c pre post r
  | [], _, h => by cases h
  | v :: vs, r, h => by
    rw [selectAmong] at h
    split at h
    · -- the first tree has the branch
      rename_i r₁ hv
      cases h
      obtain ⟨pre, ch, post, hc, hpre, hn, hsel⟩ := select_spec hv
      refine ⟨pre, ch, post ++ choicesAll vs, by rw [choicesAll, hc]; simp, hpre, hn, ?_⟩
      rcases r₁ with e | ⟨v', d⟩
      · exact hsel
      · obtain ⟨hd, j, hj, hc'⟩ := hsel
        refine ⟨hd, j, hj, ?_⟩
        show choicesAll (v' :: vs) = _
        rw [choicesAll, hc']
        simp
    · -- the first tree has no branch of the name: its choices all come before
      rename_i hv
      obtain ⟨r₀, hr₀, rfl⟩ := Option.map_eq_some_iff.mp h
      obtain ⟨pre, ch, post, hc, hpre, hn, hsel⟩ := selectAmong_spec hr₀
      have hnone : ∀ x ∈ v.choices, x.name ≠ n := by
        intro x hx hxn
        have hb := (hasBranch_iff n v).mpr ⟨x, hx, hxn⟩
        rw [← isSome_select n c v, hv] at hb
        cases hb
      refine ⟨v.choices ++ pre, ch, post, by rw [choicesAll, hc, List.append_assoc], ?_, hn, ?_⟩
      · intro x hx
        rcases List.mem_append.mp hx with hx | hx
        · exact hnone x hx
        · exact hpre x hx
      · rcases r₀ with e | ⟨vs', d⟩
        · exact hsel
        · obtain ⟨hd, j, hj, hc'⟩ := hsel
          refine ⟨hd, j, hj, ?_⟩
          show choicesAll (v :: vs') = _
          rw [choicesAll, hc', List.append_assoc]
end

/-- When the branches' names are all different, a successful selection of `c` in `n` selects a
child named `c` in the one choice named `n` and changes no other choice. -/
theorem choices_select_of_nodup {v v' : Variant} {n c : String} {d : Nat}
    (hnd : (v.choices.map Choice.name).Nodup) (h : v.select n c = some (.ok (v', d))) :
    ∃ ch ∈ v.choices, ch.name = n ∧ ch.dropdown = d ∧ ∃ j, ch.options[j]? = some c ∧
      v'.choices = v.choices.map fun x => if x.name = n then { x with current := j } else x := by
  obtain ⟨pre, ch, post, hc, hpre, hn, hd, j, hj, hc'⟩ := select_spec h
  have hpost : ∀ x ∈ post, x.name ≠ n := by
    rw [hc, List.map_append, List.map_cons] at hnd
    intro x hx hxn
    exact (List.nodup_cons.mp (List.nodup_append.mp hnd).2.1).1
      (by rw [hn, ← hxn]; exact List.mem_map_of_mem hx)
  obtain ⟨hlt, hjc, -⟩ := List.findIdx?_eq_some_iff_getElem.mp hj
  refine ⟨ch, by rw [hc]; simp, hn, hd.symm, j, ?_, ?_⟩
  · rw [List.getElem?_eq_getElem hlt, beq_iff_eq.mp hjc]
  · rw [hc', hc, List.map_append, List.map_cons, if_pos hn,
      List.map_congr_left fun x hx => if_neg (hpre x hx),
      List.map_congr_left fun x hx => if_neg (hpost x hx), List.map_id', List.map_id']

/-! ### The active leaf -/

theorem activeIn_eq (i : Nat) (cs : List Variant) :
    activeLeaf?.activeIn i cs = cs[i]?.bind activeLeaf? := by
  induction cs generalizing i with
  | nil => cases i <;> rfl
  | cons c cs ih =>
    cases i with
    | zero => rfl
    | succ i => exact ih i

mutual
/-- **Every tree whose choices select existing children has an active leaf.** -/
theorem activeLeaf?_isSome :
    ∀ v : Variant, (∀ ch ∈ v.choices, ch.current < ch.options.length) → v.activeLeaf?.isSome
  | .leaf _, _ => rfl
  | .branch n d cur cs, h => by
    have hcur := h _ (List.mem_cons_self ..)
    simp only [List.length_map] at hcur
    rw [activeLeaf?, activeIn_eq, List.getElem?_eq_getElem hcur, Option.bind_some]
    exact activeLeaf?_isSome_of_mem cs cs[cur] (List.getElem_mem hcur)
      fun ch hch => h ch (List.mem_cons_of_mem _ hch)

theorem activeLeaf?_isSome_of_mem :
    ∀ (vs : List Variant) (v : Variant), v ∈ vs →
      (∀ ch ∈ choicesAll vs, ch.current < ch.options.length) → v.activeLeaf?.isSome
  | [], _, hv, _ => by cases hv
  | w :: ws, v, hv, h => by
    rw [choicesAll] at h
    cases hv with
    | head => exact activeLeaf?_isSome w fun ch hch => h ch (List.mem_append_left _ hch)
    | tail _ hv =>
      exact activeLeaf?_isSome_of_mem ws v hv fun ch hch => h ch (List.mem_append_right _ hch)
end

end Variant

end Blockwork
