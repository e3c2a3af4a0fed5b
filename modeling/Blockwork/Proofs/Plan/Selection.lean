import Mathlib.Data.List.Find
import Blockwork.Proofs.Plan.Choices
import Blockwork.Proofs.Plan.Connections

/-!
# Selecting variants

A block **agrees** with its variant tree (`Block.Agrees`) when the names of the tree's branches
are all different, every branch's dropdown field offers the branch's children and shows the
selected one (`Block.Shows`), and laying the block out again from the tree's active leaf gives
the block back.

A layout sets the line and the field rows of its inputs and nothing else of the arenas, so it is
idempotent and commutes with setting a field (`configure_configure`, `configure_modifyField`).
Hence setting a field that is no branch's dropdown keeps the agreement (`Agrees.modifyField`),
and selecting a variant restores it even when the selected branch's dropdown shows something
else (`selectVariant_agrees`): the dropdown is set to the chosen child and the block laid out
from the new active leaf. A changed field that names a branch selects the variant its visible
value names, and so keeps the agreement too (`fieldChanged_agrees`).
-/

namespace Blockwork

/-! ### Dropdown values -/

namespace Field

/-- A dropdown field of the given options. -/
def IsDropdownOf (f : Field) (options : List String) : Prop :=
  f.kind = .dropdown (options.map fun o => ⟨o, o⟩)

theorem setValue_eq {f f' : Field} {v : Json} (h : f.setValue v = .ok f') :
    ∃ w, f.kind.accept v = some w ∧ f' = { f with value := w } := by
  unfold setValue check at h
  rcases hacc : f.kind.accept v with _ | w
  · simp [hacc, bind, Except.bind] at h
  · simp only [hacc, bind, Except.bind, pure, Except.pure, Except.ok.injEq] at h
    exact ⟨w, rfl, h.symm⟩

/-- A dropdown takes exactly the texts of its options. -/
theorem setValue_dropdown {f : Field} {options : List String} (hf : f.IsDropdownOf options)
    {o : String} (ho : o ∈ options) : f.setValue (.str o) = .ok { f with value := .str o } := by
  have hany : (options.map fun o => (⟨o, o⟩ : DropdownOption)).any (·.value == o) = true :=
    List.any_eq_true.mpr ⟨⟨o, o⟩, List.mem_map_of_mem ho, beq_self_eq_true o⟩
  simp only [setValue, check, IsDropdownOf] at hf ⊢
  rw [hf]
  simp only [FieldKind.accept, hany, if_true]
  rfl

theorem setValue_of_dropdown {f f' : Field} {options : List String} (hf : f.IsDropdownOf options)
    {v : Json} (h : f.setValue v = .ok f') : ∃ o ∈ options, v = .str o ∧ f' = { f with value := .str o } := by
  obtain ⟨w, hw, rfl⟩ := setValue_eq h
  rw [hf] at hw
  simp only [FieldKind.accept] at hw
  split at hw
  · rename_i s
    split at hw
    · rename_i hany
      cases hw
      obtain ⟨x, hx, hxs⟩ := List.any_eq_true.mp hany
      obtain ⟨o, ho, rfl⟩ := List.mem_map.mp hx
      have hos : o = s := beq_iff_eq.mp hxs
      subst hos
      exact ⟨o, ho, rfl, rfl⟩
    · cases hw
  · cases hw

theorem setValue_name {f f' : Field} {v : Json} (h : f.setValue v = .ok f') : f'.name = f.name := by
  obtain ⟨w, -, rfl⟩ := setValue_eq h
  rfl

end Field

/-! ### Laying out -/

namespace Block

variable (b : Block)

/-- The input arena with the field rows of a line's inputs set, entry by entry. -/
def setRows (line : List LineEntry) (inputs : Array Input) : Array Input :=
  line.foldl (fun a e => a.modify e.input fun i => { i with fieldRow := e.fields }) inputs

theorem setRows_cons (e : LineEntry) (line : List LineEntry) (a : Array Input) :
    setRows (e :: line) a = setRows line (a.modify e.input fun i => { i with fieldRow := e.fields }) :=
  rfl

/-- A layout puts the line's inputs on the line and sets their field rows, nothing else. -/
theorem layOut_eq (line : List LineEntry) :
    b.layOut line = { b with line := line.map (·.input), inputArena := setRows line b.inputArena } := by
  unfold layOut
  suffices h : ∀ (l : List LineEntry) (c : Block),
      l.foldl (fun b e => { (b.modifyInput e.input fun i => { i with fieldRow := e.fields }) with
        line := b.line ++ [e.input] }) c =
      { c with line := c.line ++ l.map (·.input), inputArena := setRows l c.inputArena } by
    rw [h]
    rfl
  intro l
  induction l with
  | nil => intro c; simp [setRows]
  | cons e l ih =>
    intro c
    rw [List.foldl_cons, ih]
    simp [setRows_cons, modifyInput]

/-- A row set at an index that the line sets again is overwritten. -/
theorem setRows_modify (line : List LineEntry) {i : Nat} (hi : i ∈ line.map (·.input))
    (rows : List Nat) (a : Array Input) :
    setRows line (a.modify i fun x => { x with fieldRow := rows }) = setRows line a := by
  induction line generalizing a with
  | nil => cases hi
  | cons e line ih =>
    rw [setRows_cons, setRows_cons]
    by_cases he : e.input = i
    · -- the first entry sets the same row again
      subst he
      congr 1
      apply Array.toList_inj.mp
      simp only [Array.toList_modify, List.modify_modify_eq]
      rfl
    · rw [List.map_cons, List.mem_cons] at hi
      have hi' : i ∈ line.map (·.input) := hi.resolve_left (Ne.symm he)
      have hcomm : (a.modify i fun x => { x with fieldRow := rows }).modify e.input
            (fun x => { x with fieldRow := e.fields }) =
          (a.modify e.input fun x => { x with fieldRow := e.fields }).modify i
            (fun x => { x with fieldRow := rows }) := by
        apply Array.toList_inj.mp
        simp only [Array.toList_modify]
        exact List.modify_modify_ne _ _ _ (Ne.symm he)
      rw [hcomm]
      exact ih hi' _

/-- **Setting a line's rows twice is setting them once.** -/
theorem setRows_setRows (line : List LineEntry) (a : Array Input) :
    setRows line (setRows line a) = setRows line a := by
  suffices h : ∀ (m : List LineEntry) (a : Array Input),
      (∀ e ∈ m, e.input ∈ line.map (·.input)) → setRows line (setRows m a) = setRows line a from
    h line a fun e he => List.mem_map_of_mem he
  intro m
  induction m with
  | nil => intro a _; rfl
  | cons e m ih =>
    intro a hm
    rw [setRows_cons, ih _ fun e' he' => hm e' (List.mem_cons_of_mem _ he'),
      setRows_modify line (hm e (List.mem_cons_self ..))]

theorem field?_modifyField (i j : Nat) (g : Field → Field) :
    (b.modifyField i g).field? j = if i = j then (b.field? j).map g else b.field? j := by
  simp only [modifyField, field?, Array.getElem?_modify]

theorem field?_modifyField_of_ne {i j : Nat} (h : i ≠ j) (g : Field → Field) :
    (b.modifyField i g).field? j = b.field? j := by
  rw [field?_modifyField, if_neg h]

/-- Replacing a field that exists puts the new one at its index and keeps every other. -/
theorem field?_modifyField_const {i : Nat} {f : Field} (hf : b.field? i = some f) (g : Field)
    (j : Nat) : (b.modifyField i fun _ => g).field? j = if i = j then some g else b.field? j := by
  rw [field?_modifyField]
  split
  · rename_i hij
    rw [← hij, hf]
    rfl
  · rfl

/-- The visible fields are fields of the block. -/
theorem field?_of_mem_visibleFields {x : Nat × Field} (hx : x ∈ b.visibleFields) :
    b.field? x.1 = some x.2 := by
  simp only [visibleFields, List.mem_flatMap, List.mem_filterMap, Option.map_eq_some_iff] at hx
  obtain ⟨-, -, j, -, g, hg, rfl⟩ := hx
  exact hg

/-- A field found by its name is a field of that name. -/
theorem fieldNamed?_spec {n : String} {i : Nat} (h : b.fieldNamed? n = some i) :
    ∃ f, b.field? i = some f ∧ f.name = some n := by
  obtain ⟨⟨i', f⟩, hfind, rfl⟩ := Option.map_eq_some_iff.mp h
  have hname := List.find?_some hfind
  rw [beq_iff_eq] at hname
  exact ⟨f, b.field?_of_mem_visibleFields (List.mem_of_find?_eq_some hfind), hname⟩

/-- Changing a field without renaming it leaves what a name finds where it was. -/
theorem fieldNamed?_modifyField {i : Nat} {g : Field → Field}
    (hg : ∀ f, b.field? i = some f → (g f).name = f.name) (n : String) :
    (b.modifyField i g).fieldNamed? n = b.fieldNamed? n := by
  let h : Nat × Field → Nat × Field := fun x => (x.1, if i = x.1 then g x.2 else x.2)
  have hvis : (b.modifyField i g).visibleFields = b.visibleFields.map h := by
    simp only [visibleFields, List.map_flatMap, List.map_filterMap]
    congr 1
    funext x
    congr 1
    funext j
    rw [field?_modifyField]
    by_cases hij : i = j
    · subst hij
      cases b.field? i <;> simp [h]
    · cases b.field? j <;> simp [h, hij]
  -- only the field at `i` changes, and it keeps its name
  have hsame : ∀ x ∈ b.visibleFields, (h x).2.name = x.2.name := by
    intro x hx
    simp only [h]
    split
    · rename_i hix
      subst hix
      exact hg x.2 (b.field?_of_mem_visibleFields hx)
    · rfl
  have hfind : b.visibleFields.find? ((fun x => x.2.name == some n) ∘ h) =
      b.visibleFields.find? (fun x => x.2.name == some n) :=
    List.find?_congr fun x hx => by simp only [Function.comp, hsame x hx]
  simp only [fieldNamed?, hvis, List.find?_map, Option.map_map, hfind]
  rfl

end Block

namespace BlockPlan

variable (p : BlockPlan) (b : Block) (leaf : Leaf)

@[simp] theorem field?_configure (i : Nat) : (p.configure b leaf).field? i = b.field? i := by
  simp only [configure, Block.layOut_eq]
  cases p.kind <;> rfl

@[simp] theorem variants_configure : (p.configure b leaf).variants = b.variants := by
  simp only [configure, Block.layOut_eq]

theorem configure_modifyField (i : Nat) (g : Field → Field) :
    p.configure (b.modifyField i g) leaf = (p.configure b leaf).modifyField i g := by
  simp only [configure, Block.layOut_eq, Block.modifyField]

theorem configure_variants (x : Option Variant) :
    p.configure { b with variants := x } leaf = { p.configure b leaf with variants := x } := by
  simp only [configure, Block.layOut_eq]

/-- **Laying a block out twice from one leaf is laying it out once.** -/
theorem configure_configure : p.configure (p.configure b leaf) leaf = p.configure b leaf := by
  simp only [configure, Block.layOut_eq, Block.setRows_setRows]
  cases p.kind <;> simp [Connection.toggle_toggle]

end BlockPlan

/-! ### Agreement -/

namespace Block

/-- The field at a choice's dropdown index is named for the branch and offers its children. -/
def Offers (b : Block) (ch : Choice) (f : Field) : Prop :=
  b.field? ch.dropdown = some f ∧ f.name = some ch.name ∧ f.IsDropdownOf ch.options

/-- A choice's dropdown offers the branch's children and shows the selected one. -/
def Shows (b : Block) (ch : Choice) : Prop :=
  ∃ f, b.Offers ch f ∧ ∃ o, ch.options[ch.current]? = some o ∧ f.value = .str o

/-- A block agrees with its variant tree `v`. -/
structure Agrees (p : BlockPlan) (b : Block) (v : Variant) : Prop where
  variants_eq : b.variants = some v
  nodup : (v.choices.map Choice.name).Nodup
  shows : ∀ ch ∈ v.choices, b.Shows ch
  laidOut : ∃ leaf, v.activeLeaf? = some leaf ∧ p.configure b leaf = b

theorem Shows.current_lt {b : Block} {ch : Choice} (h : b.Shows ch) :
    ch.current < ch.options.length := by
  obtain ⟨-, -, o, ho, -⟩ := h
  exact (List.getElem?_eq_some_iff.mp ho).1

/-- Two choices of different names have different dropdown fields. -/
theorem Offers.dropdown_ne {b : Block} {ch ch' : Choice} {f f' : Field} (h : b.Offers ch f)
    (h' : b.Offers ch' f') (hn : ch.name ≠ ch'.name) : ch.dropdown ≠ ch'.dropdown := by
  intro hd
  obtain ⟨h₁, h₂, -⟩ := h
  obtain ⟨h₁', h₂', -⟩ := h'
  rw [hd, h₁'] at h₁
  cases h₁
  exact hn (Option.some.inj (h₂.symm.trans h₂'))

variable {p : BlockPlan} {b : Block} {v : Variant} {ch : Choice} {f : Field}

/-- Changing another field keeps what a choice's dropdown offers. -/
theorem Offers.modifyField (h : b.Offers ch f) {i : Nat} (hi : i ≠ ch.dropdown)
    (g : Field → Field) : (b.modifyField i g).Offers ch f :=
  ⟨(field?_modifyField_of_ne b hi g).trans h.1, h.2⟩

/-- A dropdown given a new value still offers the branch's children. -/
theorem Offers.withValue (h : b.Offers ch f) (x : Json) :
    (b.modifyField ch.dropdown fun _ => { f with value := x }).Offers ch { f with value := x } := by
  refine ⟨?_, h.2⟩
  rw [field?_modifyField_const b h.1, if_pos rfl]

/-- Changing another field keeps what a choice's dropdown shows. -/
theorem Shows.modifyField (h : b.Shows ch) {i : Nat} (hi : i ≠ ch.dropdown) (g : Field → Field) :
    (b.modifyField i g).Shows ch := by
  obtain ⟨f, hf, hshown⟩ := h
  exact ⟨f, hf.modifyField hi g, hshown⟩

/-- A layout keeps what every dropdown shows. -/
theorem Shows.configure (h : b.Shows ch) (p : BlockPlan) (leaf : Leaf) :
    (p.configure b leaf).Shows ch := by
  obtain ⟨f, ⟨hf, hfn, hfk⟩, hshown⟩ := h
  exact ⟨f, ⟨(p.field?_configure b leaf ch.dropdown).trans hf, hfn, hfk⟩, hshown⟩

/-- Setting a field that is no branch's dropdown keeps the agreement. -/
theorem Agrees.modifyField (h : b.Agrees p v) {i : Nat} (hi : ∀ ch ∈ v.choices, ch.dropdown ≠ i)
    (g : Field → Field) : (b.modifyField i g).Agrees p v := by
  refine ⟨h.variants_eq, h.nodup, fun ch hch => ?_, ?_⟩
  · exact (h.shows ch hch).modifyField (hi ch hch).symm g
  · obtain ⟨leaf, hleaf, hfix⟩ := h.laidOut
    exact ⟨leaf, hleaf, by rw [BlockPlan.configure_modifyField, hfix]⟩

end Block

/-! ### Selecting -/

namespace BlockPlan

variable {p : BlockPlan} {b b' : Block} {v : Variant}

/-- **A selection restores the agreement.** Every dropdown must offer its branch's children, but
the branch selected in may show anything: its dropdown is set to the chosen child. The chosen
branch then shows the child named `c`. -/
theorem selectVariant_agrees {br c : String} (hv : b.variants = some v)
    (hnd : (v.choices.map Choice.name).Nodup) (hoff : ∀ ch ∈ v.choices, ∃ f, b.Offers ch f)
    (hshow : ∀ ch ∈ v.choices, ch.name ≠ br → b.Shows ch) (h : p.selectVariant b br c = .ok b') :
    ∃ v', b'.Agrees p v' ∧ ∀ ch ∈ v.choices, ch.name = br →
      ∃ ch' ∈ v'.choices, ch'.name = br ∧ ch'.dropdown = ch.dropdown ∧
        ch'.options[ch'.current]? = some c := by
  obtain ⟨v₀, v', d, b₁, hv₀, hs, hset, hb'⟩ := selectVariant_cases h
  rw [hv] at hv₀
  cases hv₀
  obtain ⟨ch, hch, hn, hd, j, hj, hv'⟩ := Variant.choices_select_of_nodup hnd hs
  obtain ⟨f, hfd, hfn, hfk⟩ := hoff ch hch
  -- the branch's dropdown takes the chosen child
  have hc : c ∈ ch.options := List.mem_of_getElem? hj
  have hb₁ : b₁ = b.modifyField d fun _ => { f with value := .str c } := by
    rcases hset with ⟨hnone, -⟩ | ⟨f₀, f', hf₀, hset₀, rfl⟩
    · rw [← hd, hfd] at hnone
      cases hnone
    · rw [← hd, hfd] at hf₀
      cases hf₀
      rw [Field.setValue_dropdown hfk hc] at hset₀
      cases hset₀
      rfl
  subst hb₁ hd
  have hshow' : ∀ x ∈ v'.choices,
      (b.modifyField ch.dropdown fun _ => { f with value := .str c }).Shows x := by
    intro x hx
    rw [hv', List.mem_map] at hx
    obtain ⟨y, hy, rfl⟩ := hx
    by_cases hyn : y.name = br
    · -- the selected branch is the one choice of its name
      have hych : y = ch := List.inj_on_of_nodup_map hnd hy hch (hyn.trans hn.symm)
      subst hych
      rw [if_pos hyn]
      exact ⟨_, Block.Offers.withValue ⟨hfd, hfn, hfk⟩ (.str c), c, hj, rfl⟩
    · rw [if_neg hyn]
      obtain ⟨g, hg, -⟩ := hshow y hy hyn
      have hne : ch.dropdown ≠ y.dropdown :=
        Block.Offers.dropdown_ne ⟨hfd, hfn, hfk⟩ hg (by rw [hn]; exact Ne.symm hyn)
      exact (hshow y hy hyn).modifyField hne _
  -- every choice selects a child that exists, so there is an active leaf
  obtain ⟨leaf, hleaf⟩ := Option.isSome_iff_exists.mp
    (Variant.activeLeaf?_isSome v' fun x hx => (hshow' x hx).current_lt)
  rcases hb' with ⟨hnone, -⟩ | ⟨l, hl, rfl⟩
  · rw [hleaf] at hnone
    cases hnone
  obtain rfl : leaf = l := Option.some.inj (hleaf.symm.trans hl)
  refine ⟨v', ⟨rfl, ?_, fun x hx => ?_, leaf, hleaf, ?_⟩, fun y hy hyn => ?_⟩
  · have hnames : v'.choices.map Choice.name = v.choices.map Choice.name := by
      rw [hv', List.map_map]
      congr 1
      funext x
      simp only [Function.comp]
      split <;> rfl
    rw [hnames]
    exact hnd
  · exact (hshow' x hx).configure p leaf
  · rw [configure_variants, configure_configure]
  · have hych : y = ch := List.inj_on_of_nodup_map hnd hy hch (hyn.trans hn.symm)
    subst hych
    refine ⟨{ y with current := j }, ?_, hyn, rfl, hj⟩
    rw [hv']
    exact List.mem_map.mpr ⟨y, hy, if_pos hyn⟩

/-- A selection that succeeds: a branch of the name and a child of the choice. -/
theorem selectVariant_isOk {br c : String} (hv : b.variants = some v)
    (hnd : (v.choices.map Choice.name).Nodup) (hoff : ∀ ch ∈ v.choices, ∃ f, b.Offers ch f)
    {ch : Choice} (hch : ch ∈ v.choices) (hn : ch.name = br) (hc : c ∈ ch.options) :
    ∃ b', p.selectVariant b br c = .ok b' := by
  have hsome : (v.select br c).isSome := by
    rw [Variant.isSome_select]
    exact (Variant.hasBranch_iff br v).mpr ⟨ch, hch, hn⟩
  obtain ⟨r, hr⟩ := Option.isSome_iff_exists.mp hsome
  obtain ⟨pre, ch₀, post, hcs, hpre, hn₀, hsel⟩ := Variant.select_spec hr
  -- the first choice of the name is `ch` itself
  have hch₀ : ch₀ = ch := by
    refine List.inj_on_of_nodup_map hnd (by rw [hcs]; simp) hch (hn₀.trans hn.symm)
  subst hch₀
  rcases r with e | ⟨v', d⟩
  · have hnone : ch₀.options.findIdx? (· == c) = none := hsel
    rw [List.findIdx?_eq_none_iff] at hnone
    have := hnone c hc
    simp at this
  obtain ⟨hd, -⟩ := hsel
  obtain ⟨f, hfd, -, hfk⟩ := hoff ch₀ hch
  rw [← hd] at hfd
  unfold selectVariant
  simp only [hv, hr, hfd, Field.setValue_dropdown hfk hc, bind, Except.bind, pure, Except.pure]
  exact ⟨_, rfl⟩

/-- A selection that succeeds on an agreeing block gives an agreeing block. -/
theorem agrees_selectVariant {br c : String} (hb : b.Agrees p v) (h : p.selectVariant b br c = .ok b') :
    ∃ v', b'.Agrees p v' := by
  obtain ⟨v', hv', -⟩ := selectVariant_agrees hb.variants_eq hb.nodup
    (fun ch hch => (hb.shows ch hch).imp fun _ h => h.1) (fun ch hch _ => hb.shows ch hch) h
  exact ⟨v', hv'⟩

/-- A changed field keeps the agreement. -/
theorem fieldChanged_agrees {n : String} (hb : b.Agrees p v) (h : p.fieldChanged b n = .ok b') :
    ∃ v', b'.Agrees p v' := by
  rcases fieldChanged_cases h with rfl | ⟨c, hc⟩
  · exact ⟨v, hb⟩
  · exact agrees_selectVariant hb hc

/-- **Setting a branch's dropdown to one of its children selects that child there.** The block
must show the dropdown under the branch's name; the reaction to the change then succeeds and
restores the agreement. -/
theorem fieldChanged_dropdown (hb : b.Agrees p v) {ch : Choice} (hch : ch ∈ v.choices)
    {f : Field} (hf : b.field? ch.dropdown = some f)
    (hnamed : b.fieldNamed? ch.name = some ch.dropdown) {o : String} (ho : o ∈ ch.options) :
    ∃ b', p.fieldChanged (b.modifyField ch.dropdown fun _ => { f with value := .str o }) ch.name =
        .ok b' ∧ ∃ v', b'.Agrees p v' ∧ ∃ ch' ∈ v'.choices, ch'.name = ch.name ∧
          ch'.dropdown = ch.dropdown ∧ ch'.options[ch'.current]? = some o := by
  set b₁ := b.modifyField ch.dropdown fun _ => { f with value := .str o }
  obtain ⟨g, ⟨hg, hgn, hgk⟩, -⟩ := hb.shows ch hch
  rw [hf] at hg
  cases hg
  -- every other dropdown is untouched, and still offers and shows
  have hoff : ∀ x ∈ v.choices, ∃ f', b₁.Offers x f' := by
    intro x hx
    obtain ⟨f', hf', -⟩ := hb.shows x hx
    by_cases hxd : ch.dropdown = x.dropdown
    · -- the branch's own dropdown: the same field with a new value
      obtain ⟨hf'd, hf'n, hf'k⟩ := hf'
      rw [← hxd, hf] at hf'd
      cases hf'd
      refine ⟨{ f with value := .str o }, ?_, hf'n, hf'k⟩
      rw [Block.field?_modifyField_const b hf, if_pos hxd]
    · exact ⟨f', hf'.modifyField hxd _⟩
  have hshow : ∀ x ∈ v.choices, x.name ≠ ch.name → b₁.Shows x := by
    intro x hx hxn
    obtain ⟨f', hf', -⟩ := hb.shows x hx
    have hne : ch.dropdown ≠ x.dropdown :=
      Block.Offers.dropdown_ne ⟨hf, hgn, hgk⟩ hf' (Ne.symm hxn)
    exact (hb.shows x hx).modifyField hne _
  have hv₁ : b₁.variants = some v := hb.variants_eq
  obtain ⟨b', hsel⟩ := selectVariant_isOk hv₁ hb.nodup hoff hch rfl ho
  -- the reaction finds the branch and the new value under its name
  have hreact : p.fieldChanged b₁ ch.name = p.selectVariant b₁ ch.name o := by
    have hbranch : v.hasBranch ch.name = true := (Variant.hasBranch_iff _ v).mpr ⟨ch, hch, rfl⟩
    have hnamed₁ : b₁.fieldNamed? ch.name = some ch.dropdown := by
      refine (Block.fieldNamed?_modifyField b (fun f' hf' => ?_) ch.name).trans hnamed
      rw [hf] at hf'
      cases hf'
      rfl
    have hval : b₁.field? ch.dropdown = some { f with value := .str o } := by
      rw [Block.field?_modifyField_const b hf, if_pos rfl]
    unfold fieldChanged
    simp only [hv₁, hbranch, if_true, hnamed₁, Option.bind_some, hval]
  obtain ⟨v', hagree, hpick⟩ := selectVariant_agrees hv₁ hb.nodup hoff hshow hsel
  exact ⟨b', hreact.trans hsel, v', hagree, hpick ch hch rfl⟩

end BlockPlan

end Blockwork
