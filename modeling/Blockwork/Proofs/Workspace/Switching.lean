import Mathlib.Data.List.Induction
import Blockwork.Proofs.Plan.Layout
import Blockwork.Proofs.Plan.Route
import Blockwork.Proofs.Workspace.Atomic
import Blockwork.Proofs.Workspace.Dropdowns
import Blockwork.Proofs.Workspace.Frame
import Blockwork.Proofs.Code.Reading

/-!
# Switching variants keeps what blocks hold

The variants of a block share its arenas: every input and field of every variant is made when the
block is, and a switch of variant (selecting a child of a branch, directly or by setting the
branch's dropdown) lays the block out again from another leaf. A layout sets the line, the rows of
fields the inputs show and the block's own connections; a selection also sets one dropdown. What
an input holds, and whose parent a block is, are nothing any of these touch: no edit of a block,
switch or field set, disconnects anything (`BlockEdit.Does.sameInputs`).

Coming back to a leaf restores the block. A selection changes only what one branch selects
(`Variant.shape_select`), so when the edits bring the block back to the route it was on, each
branch on the way to the active leaf selecting the child it selected, the block is laid out from
the same leaf again: it shows the same inputs in the same order, with the same rows and the same
children (`BlockEdit.foldl_apply_route`), whatever the branches off the route select. Its
code is the same too when the type is unambiguous, each branch being the one field of its name: a
switch then writes no field but a branch's dropdown (`BlockEdit.Does.switched`), and the active
leaf shows only the dropdowns of the branches on its route (`Variant.ShowsAbove.active`), which
show what they showed, so the block reads as it did (`Block.Switched.readsAlike`). Every block
then generates what it did (`BlockEdit.foldl_apply_switches_code`), as long as the type's
generator, when written as a function, reads the block only as a pass does (`Code.ReadsShown`).
`variant_switches_keep_children` puts these together for a block made from a declaration.

Without that condition a set of the field named for a branch writes the field the block shows
under that name, which may be a text field of the active variant, and then selects in the branch.
The branches all return to their children, but the text keeps the value, and the code shows it
(`ambiguous_switch_back_changes_code`).
-/

namespace Blockwork

open Workspace WorkspaceM

/-! ### Inputs apart from their rows, fields apart from their values -/

namespace Input

/-- An input apart from the row of fields it shows. -/
def withoutRow (i : Input) : Input := { i with fieldRow := [] }

@[simp] theorem target_withoutRow (i : Input) : i.withoutRow.target = i.target := rfl

@[simp] theorem withoutRow_setRow (i : Input) (row : List Nat) :
    ({ i with fieldRow := row } : Input).withoutRow = i.withoutRow := rfl

/-- Inputs alike apart from their rows are one input once they show one row. -/
theorem map_setRow_eq {o o' : Option Input} (h : o'.map withoutRow = o.map withoutRow)
    (row : List Nat) :
    o'.map (fun i => { i with fieldRow := row }) = o.map (fun i => { i with fieldRow := row }) := by
  rcases o with _ | ⟨name, kind, fieldRow, connection⟩ <;>
    rcases o' with _ | ⟨name', kind', fieldRow', connection'⟩
  · rfl
  · cases h
  · cases h
  · simp only [Option.map_some, withoutRow, Option.some.injEq, Input.mk.injEq] at h ⊢
    exact h

end Input

/-- A field apart from its value. -/
def Field.withoutValue (f : Field) : Field := { f with value := .null }

theorem Field.eq_of_withoutValue {f f' : Field} (h : f'.withoutValue = f.withoutValue)
    (hv : f'.value = f.value) : f' = f := by
  rcases f with ⟨name, typeName, kind, value⟩
  rcases f' with ⟨name', typeName', kind', value'⟩
  simp only [withoutValue, Field.mk.injEq] at h hv ⊢
  exact ⟨h.1, h.2.1, h.2.2.1, hv⟩

/-! ### Edits keep every input's block -/

namespace Block

/-- `b'` is `b` with the rows of its inputs perhaps changed: the same block, under the same parent,
with the same inputs, each holding what it held. -/
structure SameInputs (b b' : Block) : Prop where
  id : b'.id = b.id
  typeName : b'.typeName = b.typeName
  parent : b'.parent = b.parent
  input? : ∀ k, (b'.input? k).map Input.withoutRow = (b.input? k).map Input.withoutRow

namespace SameInputs

variable {b b' b'' : Block}

@[refl] theorem refl (b : Block) : b.SameInputs b := ⟨rfl, rfl, rfl, fun _ => rfl⟩

@[trans] theorem trans (h₁ : b.SameInputs b') (h₂ : b'.SameInputs b'') : b.SameInputs b'' :=
  ⟨h₂.id.trans h₁.id, h₂.typeName.trans h₁.typeName, h₂.parent.trans h₁.parent,
    fun k => (h₂.input? k).trans (h₁.input? k)⟩

/-- Every input holds what it held. -/
theorem holds (h : b.SameInputs b') (k : Nat) : b'.holds (.input k) = b.holds (.input k) := by
  have hk := congrArg (Option.bind · Input.target) (h.input? k)
  simpa [Block.holds, Option.bind_map, Function.comp_def] using hk

end SameInputs

theorem sameInputs_modifyField (b : Block) (i : Nat) (f : Field → Field) :
    b.SameInputs (b.modifyField i f) :=
  ⟨rfl, rfl, rfl, fun _ => rfl⟩

theorem sameInputs_variants (b : Block) (v : Option Variant) :
    b.SameInputs { b with variants := v } :=
  ⟨rfl, rfl, rfl, fun _ => rfl⟩

/-- Setting rows changes nothing of an input but its row. -/
theorem withoutRow_setRows (line : List LineEntry) (a : Array Input) (k : Nat) :
    (setRows line a)[k]?.map Input.withoutRow = a[k]?.map Input.withoutRow := by
  induction line generalizing a with
  | nil => rfl
  | cons e line ih =>
    rw [setRows_cons, ih, Array.getElem?_modify]
    split
    · simp [Option.map_map, Function.comp_def]
    · rfl

/-- Two arenas whose inputs are alike apart from their rows agree at every input of a line, once
the line's rows are set. -/
theorem getElem?_setRows_congr {a a' : Array Input}
    (h : ∀ k : Nat, a'[k]?.map Input.withoutRow = a[k]?.map Input.withoutRow)
    (line : List LineEntry) :
    ∀ k ∈ line.map (·.input), (setRows line a')[k]? = (setRows line a)[k]? := by
  -- by induction from the last entry: the last entry naming an input sets its row in both
  induction line using List.reverseRecOn with
  | nil => intro k hk; cases hk
  | append_singleton line e ih =>
    intro k hk
    have hnil : ∀ x : Array Input, setRows [] x = x := fun _ => rfl
    rw [setRows_append, setRows_append, setRows_cons, setRows_cons, hnil, hnil,
      Array.getElem?_modify, Array.getElem?_modify]
    by_cases hek : e.input = k
    · rw [if_pos hek, if_pos hek]
      apply Input.map_setRow_eq
      rw [withoutRow_setRows, withoutRow_setRows, h]
    · rw [if_neg hek, if_neg hek]
      simp only [List.map_append, List.map_cons, List.map_nil, List.mem_append,
        List.mem_singleton] at hk
      exact ih k (hk.resolve_right (Ne.symm hek))

end Block

namespace BlockPlan

variable (p : BlockPlan)

theorem generator_configure (b : Block) (leaf : Leaf) :
    (p.configure b leaf).generator = leaf.generator := by
  simp only [configure, Block.layOut_eq]

/-- A layout keeps the block, its parent and what its inputs hold. -/
theorem sameInputs_configure (b : Block) (leaf : Leaf) : b.SameInputs (p.configure b leaf) := by
  refine ⟨?_, ?_, ?_, fun k => ?_⟩
  · simp only [configure, Block.layOut_eq]
  · simp only [configure, Block.layOut_eq]
  · simp only [configure, Block.layOut_eq]
  · rw [input?_configure]
    exact Block.withoutRow_setRows leaf.line b.inputArena k

/-- **Laid out from one leaf, blocks whose inputs are alike apart from their rows show the same
inputs**, with the same rows and the same children. -/
theorem visibleInputs_configure {b b' : Block}
    (h : ∀ k, (b'.input? k).map Input.withoutRow = (b.input? k).map Input.withoutRow)
    (leaf : Leaf) : (p.configure b' leaf).visibleInputs = (p.configure b leaf).visibleInputs := by
  unfold Block.visibleInputs
  rw [line_configure, line_configure]
  refine List.filterMap_congr fun k hk => ?_
  rw [input?_configure, input?_configure, Block.getElem?_setRows_congr h leaf.line k hk]

/-- A block laid out from a leaf keeps the block chained after it through any other layout: a
value block has no next connection, and the other kinds keep theirs. -/
theorem next_configure {b : Block} {l₀ : Leaf} (hb : p.configure b l₀ = b) (leaf : Leaf) :
    (p.configure b leaf).next.bind (·.target) = b.next.bind (·.target) := by
  have hnext : ∀ c l, (p.configure c l).next.bind (·.target) =
      if p.kind = .value then none else c.next.bind (·.target) := by
    intro c l
    simp only [configure, Block.layOut_eq]
    cases p.kind <;> simp
  rw [hnext]
  split
  · rename_i hk
    have h₀ := hnext b l₀
    rw [hb, if_pos hk] at h₀
    exact h₀.symm
  · rfl

variable {p}

/-- **A selection disconnects nothing**, on any block of any plan. -/
theorem selectVariant_sameInputs {b b' : Block} {br c : String}
    (h : p.selectVariant b br c = .ok b') : b.SameInputs b' :=
  selectVariant_induct Block.SameInputs Block.SameInputs.refl Block.SameInputs.trans
    Block.sameInputs_modifyField p.sameInputs_configure Block.sameInputs_variants h

theorem fieldChanged_sameInputs {b b' : Block} {n : String} (h : p.fieldChanged b n = .ok b') :
    b.SameInputs b' :=
  fieldChanged_induct Block.SameInputs Block.SameInputs.refl Block.SameInputs.trans
    Block.sameInputs_modifyField p.sameInputs_configure Block.sameInputs_variants h

end BlockPlan

/-! ### Switches write dropdowns only -/

namespace Block

/-- `b'` is `b` switched to other variants: the same block with the same inputs, each holding what
it held, the same block chained after it, and the same fields, where only the dropdowns at `D` may
show other values. -/
structure Switched (D : List Nat) (b b' : Block) : Prop where
  sameInputs : b.SameInputs b'
  next : b'.next.bind (·.target) = b.next.bind (·.target)
  field? : ∀ i, (b'.field? i).map Field.withoutValue = (b.field? i).map Field.withoutValue
  kept : ∀ i, i ∉ D → b'.field? i = b.field? i

namespace Switched

variable {D : List Nat} {b b' b'' : Block}

theorem refl (D : List Nat) (b : Block) : b.Switched D b :=
  ⟨.refl b, rfl, fun _ => rfl, fun _ _ => rfl⟩

theorem trans (h₁ : b.Switched D b') (h₂ : b'.Switched D b'') : b.Switched D b'' :=
  ⟨h₁.sameInputs.trans h₂.sameInputs, h₂.next.trans h₁.next,
    fun i => (h₂.field? i).trans (h₁.field? i), fun i hi => (h₂.kept i hi).trans (h₁.kept i hi)⟩

/-- Setting a value a dropdown at `D` accepts. -/
theorem modifyField {i : Nat} (hi : i ∈ D) {f f' : Field} (hf : b.field? i = some f) {val : Json}
    (hset : f.setValue val = .ok f') : b.Switched D (b.modifyField i fun _ => f') := by
  obtain ⟨w, -, rfl⟩ := Field.setValue_eq hset
  refine ⟨sameInputs_modifyField b i _, rfl, fun j => ?_, fun j hj => ?_⟩
  · rw [field?_modifyField]
    split
    · rename_i hij
      rw [← hij, hf]
      rfl
    · rfl
  · exact field?_modifyField_of_ne b (fun hij : i = j => hj (hij ▸ hi)) _

/-- Laying a laid out block out again, from any leaf. -/
theorem configure {p : BlockPlan} {l₀ : Leaf} (hb : p.configure b l₀ = b) (leaf : Leaf) :
    b.Switched D (p.configure b leaf) :=
  ⟨p.sameInputs_configure b leaf, p.next_configure hb leaf,
    fun i => by rw [BlockPlan.field?_configure], fun i _ => BlockPlan.field?_configure p b leaf i⟩

theorem variants (D : List Nat) (b : Block) (v : Option Variant) :
    b.Switched D { b with variants := v } :=
  ⟨sameInputs_variants b v, rfl, fun _ => rfl, fun _ _ => rfl⟩

end Switched

end Block

namespace BlockPlan

variable {p : BlockPlan} {b b' : Block} {v : Variant} {br c : String}

/-- **A selection on a laid out block switches it**: it sets the dropdown of the branch selected
in and lays the block out again. -/
theorem selectVariant_switched (hv : b.variants = some v) {l₀ : Leaf} (hb : p.configure b l₀ = b)
    (h : p.selectVariant b br c = .ok b') : b.Switched (v.choices.map Choice.dropdown) b' := by
  obtain ⟨v₀, v', d, b₁, hv₀, hs, hset, hb'⟩ := selectVariant_cases h
  rw [hv] at hv₀
  cases hv₀
  -- the dropdown set is the dropdown of the branch selected in
  obtain ⟨pre, ch, post, hc, -, -, hd, -⟩ := Variant.select_spec hs
  have hdD : d ∈ v.choices.map Choice.dropdown := by
    rw [hc, hd]
    simp
  have h₁ : b.Switched (v.choices.map Choice.dropdown) b₁ ∧ p.configure b₁ l₀ = b₁ := by
    rcases hset with ⟨-, hb₁⟩ | ⟨f, f', hf, hf', rfl⟩
    · rw [hb₁]
      exact ⟨.refl _ b, hb⟩
    · exact ⟨.modifyField hdD hf hf', by rw [configure_modifyField, hb]⟩
  rcases hb' with ⟨-, rfl⟩ | ⟨leaf, -, rfl⟩
  · exact h₁.1.trans (.variants _ _ _)
  · exact h₁.1.trans ((Block.Switched.configure h₁.2 leaf).trans (.variants _ _ _))

/-- A selection keeps the shape of the block's tree. -/
theorem selectVariant_shape (hv : b.variants = some v) (h : p.selectVariant b br c = .ok b') :
    ∃ v', b'.variants = some v' ∧ v'.shape = v.shape := by
  obtain ⟨v₀, v', d, b₁, hv₀, hs, -, hb'⟩ := selectVariant_cases h
  rw [hv] at hv₀
  cases hv₀
  exact ⟨v', by rcases hb' with ⟨-, rfl⟩ | ⟨leaf, -, rfl⟩ <;> rfl, Variant.shape_select hs⟩

end BlockPlan

/-! ### Edits of one block -/

namespace Workspace

theorem write_write (ws : Workspace) (i : Nat) (o o' : Option Block) :
    (ws.write i o).write i o' = ws.write i o' := by
  simp only [write, List.set_set]

/-- `ws'` is `ws` after edits of its block `id` alone: the store keeps its length, no other block
changes, and the block under `id` changes as `R` allows. -/
structure EditedAt (R : Block → Block → Prop) (id : Nat) (ws ws' : Workspace) : Prop where
  length : ws'.blocks.length = ws.blocks.length
  others : ∀ y, y ≠ id → ws'.get? y = ws.get? y
  block : ∀ b, ws.get? id = some b → ∃ b', ws'.get? id = some b' ∧ R b b'

namespace EditedAt

variable {R S : Block → Block → Prop} {id : Nat} {ws ws' ws'' : Workspace}

theorem refl (hR : ∀ b, R b b) (ws : Workspace) : ws.EditedAt R id ws :=
  ⟨rfl, fun _ _ => rfl, fun b hb => ⟨b, hb, hR b⟩⟩

theorem trans (hR : ∀ {b₁ b₂ b₃}, R b₁ b₂ → R b₂ b₃ → R b₁ b₃) (h₁ : ws.EditedAt R id ws')
    (h₂ : ws'.EditedAt R id ws'') : ws.EditedAt R id ws'' := by
  refine ⟨h₂.length.trans h₁.length, fun y hy => (h₂.others y hy).trans (h₁.others y hy),
    fun b hb => ?_⟩
  obtain ⟨b', hb', hbb'⟩ := h₁.block b hb
  obtain ⟨b'', hb'', hb'b''⟩ := h₂.block b' hb'
  exact ⟨b'', hb'', hR hbb' hb'b''⟩

/-- Writing back the block under its id, changed as `R` allows. -/
theorem write {b b' : Block} (hb : ws.get? id = some b) (h : R b b') :
    ws.EditedAt R id (ws.write id (some b')) := by
  refine ⟨length_write .., fun y hy => ?_, fun c hc => ?_⟩
  · rw [get?_write, if_neg (Ne.symm hy)]
  · rw [hb] at hc
    cases hc
    exact ⟨b', by simp [lt_length_of_get? hb], h⟩

theorem mono (h : ws.EditedAt R id ws')
    (hRS : ∀ b b', ws.get? id = some b → ws'.get? id = some b' → R b b' → S b b') :
    ws.EditedAt S id ws' := by
  refine ⟨h.length, h.others, fun b hb => ?_⟩
  obtain ⟨b', hb', hbb'⟩ := h.block b hb
  exact ⟨b', hb', hRS b b' hb hb' hbb'⟩

/-- Edits that keep the edited block's inputs change no block's parent and no input's block. -/
theorem parentOf_holds (h : ws.EditedAt Block.SameInputs id ws') {b : Block}
    (hb : ws.get? id = some b) (y : Nat) :
    ws'.parentOf y = ws.parentOf y ∧ ∀ k, ws'.holds y (.input k) = ws.holds y (.input k) := by
  by_cases hy : y = id
  · subst hy
    obtain ⟨b', hb', hs⟩ := h.block b hb
    refine ⟨by simp only [parentOf, hb, hb', Option.bind_some, hs.parent], fun k => ?_⟩
    simp only [Workspace.holds, hb, hb', Option.bind_some, hs.holds]
  · simp only [parentOf, Workspace.holds, h.others y hy, implies_true, and_self]

/-- Edits after which the edited block reads as before, and gives each generator written as a
function the same steps, leave every pass over the store reading alike. -/
theorem alike (h : ws.EditedAt Block.ReadsAlike id ws') {b : Block} (hb : ws.get? id = some b)
    (host : Host) (config : Code.Config)
    (hfun : ∀ b b' steps, ws.get? id = some b → ws'.get? id = some b' →
      host.generatorFor b = some (.function steps) → steps b'.view config = steps b.view config) :
    Code.Pass.Alike ⟨host, ws, config⟩ ⟨host, ws', config⟩ := by
  refine ⟨rfl, rfl, h.length, fun x => ?_, fun x c c' steps hc hc' hgen => ?_⟩
  · show Option.Rel Block.ReadsAlike (ws.get? x) (ws'.get? x)
    by_cases hx : x = id
    · subst hx
      obtain ⟨b', hb', hbb'⟩ := h.block b hb
      rw [hb, hb']
      exact .some hbb'
    · rw [h.others x hx]
      rcases ws.get? x with _ | c
      · exact .none
      · exact .some (.refl c)
  · by_cases hx : x = id
    · subst hx
      exact hfun c c' steps hc hc' hgen
    · -- every other block is the one it was
      rw [h.others x hx, hc, Option.some.injEq] at hc'
      rw [hc']

end EditedAt

end Workspace

/-! ### What every edit keeps -/

namespace Block

/-- What a block of the type `type` made from the plan `p` under the id `id` keeps through every
edit: it agrees with its variant tree, which is unambiguous for it and has the plan's branches. -/
structure Switchable (p : BlockPlan) (id : Nat) (type : String) (b : Block) (v : Variant) : Prop where
  id : b.id = id
  typeName : b.typeName = type
  agrees : b.Agrees p v
  unambiguous : b.Unambiguous v
  names : v.choices.map Choice.name = p.variants.branchNames

namespace Switchable

variable {p : BlockPlan} {id : Nat} {type : String} {b b' : Block} {v v' : Variant}

theorem branchesUnambiguous (h : b.Switchable p id type v) : b.BranchesUnambiguous := by
  intro w hw
  rw [h.agrees.variants_eq] at hw
  cases hw
  exact h.unambiguous

/-- The next state of a switchable block: same id and type, agreeing with a tree of the same
shape. -/
theorem step (h : b.Switchable p id type v) (hs : b.SameInputs b') (hag : b'.Agrees p v')
    (hu : b'.BranchesUnambiguous) (hshape : v'.shape = v.shape) : b'.Switchable p id type v' :=
  ⟨hs.id.trans h.id, hs.typeName.trans h.typeName, hag, hu v' hag.variants_eq,
    (Variant.map_choices_eq_of_shape hshape Choice.name fun _ => rfl).trans h.names⟩

/-- A field named for a branch of the plan is the branch's dropdown. -/
theorem mem_dropdowns (h : b.Switchable p id type v) {n : String}
    (hn : n ∈ p.variants.branchNames) {i : Nat} (hi : b.fieldNamed? n = some i) :
    i ∈ v.choices.map Choice.dropdown := by
  rw [← h.names] at hn
  obtain ⟨ch, hch, rfl⟩ := List.mem_map.mp hn
  obtain ⟨f, hf, hfn⟩ := b.fieldNamed?_spec hi
  rw [h.unambiguous.alone ch hch i f hf hfn]
  exact List.mem_map_of_mem hch

end Switchable

end Block

namespace BlockEdit

/-- An edit that switches a variant: a selection, or a set of the field named for one of the
plan's branches. -/
def Switches (p : BlockPlan) : BlockEdit → Prop
  | .setField n _ => n ∈ p.variants.branchNames
  | .select _ _ => True

/-- What an edit does to the block it edits when it changes it: the plan selects a variant, or a
field takes a value it accepts, followed by the reaction of the plan of the block's type unless
that failed. -/
inductive Does (host : Host) (p : BlockPlan) (b : Block) : BlockEdit → Block → Prop
  | select {br c : String} {b' : Block} (h : p.selectVariant b br c = .ok b') :
      Does host p b (.select br c) b'
  | set {n : String} {val : Json} {i : Nat} {f f' : Field} (hn : b.fieldNamed? n = some i)
      (hf : b.field? i = some f) (hset : f.setValue val = .ok f')
      (hfail : ∀ q b₂, host.definition b.typeName = .ok q →
        q.fieldChanged (b.modifyField i fun _ => f') n ≠ .ok b₂) :
      Does host p b (.setField n val) (b.modifyField i fun _ => f')
  | react {n : String} {val : Json} {i : Nat} {f f' : Field} {q : BlockPlan} {b' : Block}
      (hn : b.fieldNamed? n = some i) (hf : b.field? i = some f) (hset : f.setValue val = .ok f')
      (hq : host.definition b.typeName = .ok q)
      (hr : q.fieldChanged (b.modifyField i fun _ => f') n = .ok b') :
      Does host p b (.setField n val) b'

variable {host : Host} {p : BlockPlan} {id : Nat} {type : String}

/-- An edit of a live block under its own id leaves the store as it was, or writes back under the
id the block the edit made of it. -/
theorem apply_cases {ws : Workspace} {b : Block} (hb : ws.get? id = some b) (hid : b.id = id)
    (e : BlockEdit) :
    e.apply host p id ws = ws ∨
      ∃ b', e.Does host p b b' ∧ e.apply host p id ws = ws.write id (some b') := by
  cases e with
  | select br c =>
    rcases hs : p.selectVariant b br c with err | b'
    · exact Or.inl (by simp only [apply, hb, hs])
    · exact Or.inr ⟨b', .select hs, by simp only [apply, hb, hs]⟩
  | setField n val =>
    rcases hrun : (WorkspaceM.setField host id n val).run.run ws with ⟨r, ws'⟩
    have happly : (BlockEdit.setField n val).apply host p id ws = ws' := by
      simp only [apply, hrun]
    rw [happly]
    rcases setField_run_cases hrun with ⟨rfl, -⟩ |
      ⟨b₀, i, f, f', hb₀, hn, hf, hset, ⟨-, rfl, hfail⟩ | ⟨q, b₂, hq, hr, -, rfl⟩⟩
    · exact Or.inl rfl
    · rw [hb] at hb₀
      cases hb₀
      rw [hid]
      exact Or.inr ⟨_, .set hn hf hset hfail, rfl⟩
    · rw [hb] at hb₀
      cases hb₀
      -- the reaction's block keeps the id, so its write replaces the first one
      have hid₂ : b₂.id = id := (BlockPlan.fieldChanged_relaid hr).id.trans hid
      rw [hid, hid₂, write_write]
      exact Or.inr ⟨b₂, .react hn hf hset hq hr, rfl⟩

variable {b b' : Block} {e : BlockEdit}

/-- **No edit disconnects anything**: the edited block keeps its id, type and parent, and every
input of it the block it holds. -/
theorem Does.sameInputs (h : e.Does host p b b') : b.SameInputs b' := by
  cases h with
  | select h => exact BlockPlan.selectVariant_sameInputs h
  | set => exact Block.sameInputs_modifyField _ _ _
  | react _ _ _ _ hr =>
    exact (Block.sameInputs_modifyField _ _ _).trans (BlockPlan.fieldChanged_sameInputs hr)

/-- **Every edit keeps a block agreeing**, with a tree of the same shape: a selection changes only
what one branch selects, and a set field either keeps the tree or makes the plan select. -/
theorem Does.agrees (hp : host.definition type = .ok p) (ht : b.typeName = type) {v : Variant}
    (hb : b.Agrees p v) (h : e.Does host p b b') : ∃ v', b'.Agrees p v' ∧ v'.shape = v.shape := by
  have hdef : host.definition b.typeName = .ok p := by rw [ht, hp]
  cases h with
  | select h =>
    obtain ⟨v', hv', hshape⟩ := BlockPlan.selectVariant_shape hb.variants_eq h
    obtain ⟨w, hw⟩ := BlockPlan.agrees_selectVariant hb h
    obtain rfl := Option.some.inj (hv'.symm.trans hw.variants_eq)
    exact ⟨v', hw, hshape⟩
  | @set n val i f f' hn hf hset hfail =>
    -- the reaction failed, so the block with the new value agrees by itself, with its tree
    obtain ⟨-, herr⟩ := BlockPlan.setValue_fieldChanged hb hn hf hset
    rcases hfc : p.fieldChanged (b.modifyField i fun _ => f') n with err | b₂
    · obtain ⟨w, hw⟩ := herr err hfc
      obtain rfl := Option.some.inj (hb.variants_eq.symm.trans hw.variants_eq)
      exact ⟨v, hw, rfl⟩
    · exact absurd hfc (hfail p b₂ hdef)
  | @react n val i f f' q b' hn hf hset hq hr =>
    rw [hdef] at hq
    cases hq
    obtain ⟨hok, -⟩ := BlockPlan.setValue_fieldChanged hb hn hf hset
    obtain ⟨w, hw⟩ := hok _ hr
    refine ⟨w, hw, ?_⟩
    -- the reaction keeps the tree or selects in it
    have hv₁ : (b.modifyField i fun _ => f').variants = some v := hb.variants_eq
    rcases BlockPlan.fieldChanged_cases hr with hb' | ⟨c, hc⟩
    · rw [hb'] at hw
      rw [Option.some.inj (hw.variants_eq.symm.trans hv₁)]
    · obtain ⟨v', hv', hshape⟩ := BlockPlan.selectVariant_shape hv₁ hc
      rw [Option.some.inj (hw.variants_eq.symm.trans hv')]
      exact hshape

/-- Every edit keeps a block switchable, with a tree of the same shape: a value a field accepts
keeps the block unambiguous, and so does what the plan does about it. -/
theorem Does.switchable (hp : host.definition type = .ok p) {v : Variant}
    (hs : b.Switchable p id type v) (h : e.Does host p b b') :
    ∃ v', b'.Switchable p id type v' ∧ v'.shape = v.shape := by
  obtain ⟨v', hag, hshape⟩ := h.agrees hp hs.typeName hs.agrees
  refine ⟨v', hs.step h.sameInputs hag ?_ hshape, hshape⟩
  have hdef : host.definition b.typeName = .ok p := by rw [hs.typeName, hp]
  cases h with
  | select h => exact BlockPlan.selectVariant_unambiguous hs.branchesUnambiguous h
  | set _ hf hset => exact hs.branchesUnambiguous.setValue hf hset
  | react _ hf hset hq hr =>
    rw [hdef] at hq
    cases hq
    exact BlockPlan.fieldChanged_unambiguous (hs.branchesUnambiguous.setValue hf hset) hr

/-- **A switch writes no field but a dropdown**, on a switchable block: the field named for a
branch is the branch's dropdown, and a selection sets a dropdown and lays the block out. -/
theorem Does.switched (hp : host.definition type = .ok p) {v : Variant}
    (hs : b.Switchable p id type v) (hsw : e.Switches p) (h : e.Does host p b b') :
    b.Switched (v.choices.map Choice.dropdown) b' := by
  obtain ⟨l₀, -, hl₀⟩ := hs.agrees.laidOut
  cases h with
  | select h => exact BlockPlan.selectVariant_switched hs.agrees.variants_eq hl₀ h
  | set hn hf hset => exact .modifyField (hs.mem_dropdowns hsw hn) hf hset
  | @react n val i f f' q b' hn hf hset hq hr =>
    rw [hs.typeName, hp] at hq
    cases hq
    have h₁ := Block.Switched.modifyField (hs.mem_dropdowns hsw hn) hf hset
    have hv₁ : (b.modifyField i fun _ => f').variants = some v := hs.agrees.variants_eq
    rcases BlockPlan.fieldChanged_cases hr with rfl | ⟨c, hc⟩
    · exact h₁
    · exact h₁.trans (BlockPlan.selectVariant_switched hv₁
        (by rw [BlockPlan.configure_modifyField, hl₀]) hc)

/-! ### Runs of edits -/

/-- By induction on the edits: **edits of the block `id`, whatever they are, change no other
block**, and keep the block's id, type and parent and the block each of its inputs holds. -/
theorem foldl_apply_sameInputs :
    ∀ (edits : List BlockEdit) {ws : Workspace} {b : Block}, ws.get? id = some b → b.id = id →
      ws.EditedAt Block.SameInputs id (edits.foldl (apply host p id) ws)
  | [], ws, _, _, _ => .refl Block.SameInputs.refl ws
  | e :: edits, ws, b, hb, hid => by
    rw [List.foldl_cons]
    rcases apply_cases hb hid e with h | ⟨b', hdo, h⟩
    · rw [h]
      exact foldl_apply_sameInputs edits hb hid
    · rw [h]
      have hs := hdo.sameInputs
      have hb' : (ws.write id (some b')).get? id = some b' := by simp [lt_length_of_get? hb]
      exact EditedAt.trans Block.SameInputs.trans (EditedAt.write hb hs)
        (foldl_apply_sameInputs edits hb' (hs.id.trans hid))

/-- By induction on the edits: **what every edit keeps of the block `id` holds after every list
of edits**. -/
theorem foldl_apply_keeps (I : Block → Prop) (hid : ∀ {b}, I b → b.id = id)
    (hI : ∀ {b b' : Block} {e : BlockEdit}, I b → e.Does host p b b' → I b') :
    ∀ (edits : List BlockEdit) {ws : Workspace} {b : Block}, ws.get? id = some b → I b →
      ∃ b', (edits.foldl (apply host p id) ws).get? id = some b' ∧ I b'
  | [], _, b, hb, h => ⟨b, hb, h⟩
  | e :: edits, ws, b, hb, h => by
    rw [List.foldl_cons]
    rcases apply_cases hb (hid h) e with he | ⟨b', hdo, he⟩
    · rw [he]
      exact foldl_apply_keeps I hid hI edits hb h
    · rw [he]
      have hb' : (ws.write id (some b')).get? id = some b' := by simp [lt_length_of_get? hb]
      exact foldl_apply_keeps I hid hI edits hb' (hI h hdo)

/-- Every list of edits keeps the block agreeing, with a tree of the same shape. -/
theorem foldl_apply_agrees (hp : host.definition type = .ok p) (edits : List BlockEdit)
    {ws : Workspace} {b : Block} {v : Variant} (hb : ws.get? id = some b) (hid : b.id = id)
    (ht : b.typeName = type) (hag : b.Agrees p v) :
    ∃ b' v', (edits.foldl (apply host p id) ws).get? id = some b' ∧ b'.Agrees p v' ∧
      v'.shape = v.shape := by
  obtain ⟨b', hb', -, -, v', hag', hshape⟩ := foldl_apply_keeps
    (fun c => c.id = id ∧ c.typeName = type ∧ ∃ w, c.Agrees p w ∧ w.shape = v.shape) (·.1)
    (fun ⟨hid, ht, w, hw, hshape⟩ hdo => by
      obtain ⟨w', hw', hshape'⟩ := hdo.agrees hp ht hw
      exact ⟨hdo.sameInputs.id.trans hid, hdo.sameInputs.typeName.trans ht, w', hw',
        hshape'.trans hshape⟩)
    edits hb ⟨hid, ht, v, hag, rfl⟩
  exact ⟨b', v', hb', hag', hshape⟩

/-- Every list of edits keeps a block switchable, with a tree of the same shape. -/
theorem foldl_apply_switchable (hp : host.definition type = .ok p) (edits : List BlockEdit)
    {ws : Workspace} {b : Block} {v : Variant} (hb : ws.get? id = some b)
    (hs : b.Switchable p id type v) :
    ∃ b' v', (edits.foldl (apply host p id) ws).get? id = some b' ∧
      b'.Switchable p id type v' ∧ v'.shape = v.shape := by
  obtain ⟨b', hb', v', hs', hshape⟩ := foldl_apply_keeps
    (fun c => ∃ w, c.Switchable p id type w ∧ w.shape = v.shape) (fun ⟨_, hw, _⟩ => hw.id)
    (fun ⟨w, hw, hshape⟩ hdo => by
      obtain ⟨w', hw', hshape'⟩ := hdo.switchable hp hw
      exact ⟨w', hw', hshape'.trans hshape⟩)
    edits hb ⟨v, hs, rfl⟩
  exact ⟨b', v', hb', hs', hshape⟩

/-- By induction on the switches: **switches write no field but the dropdowns** of the block's
branches, which stay where they are. -/
theorem foldl_apply_switched (hp : host.definition type = .ok p) :
    ∀ (switches : List BlockEdit), (∀ e ∈ switches, e.Switches p) →
      ∀ {ws : Workspace} {b : Block} {v : Variant}, ws.get? id = some b → b.Switchable p id type v →
        ws.EditedAt (Block.Switched (v.choices.map Choice.dropdown)) id
          (switches.foldl (apply host p id) ws)
  | [], _, ws, _, _, _, _ => .refl (Block.Switched.refl _) ws
  | e :: switches, hsw, ws, b, v, hb, hs => by
    rw [List.foldl_cons]
    have hsw' : ∀ e ∈ switches, e.Switches p := fun e he => hsw e (List.mem_cons_of_mem _ he)
    rcases apply_cases hb hs.id e with h | ⟨b', hdo, h⟩
    · rw [h]
      exact foldl_apply_switched hp switches hsw' hb hs
    · rw [h]
      obtain ⟨v', hs', hshape⟩ := hdo.switchable hp hs
      have hb' : (ws.write id (some b')).get? id = some b' := by simp [lt_length_of_get? hb]
      have hrest := foldl_apply_switched hp switches hsw' hb' hs'
      rw [Variant.map_choices_eq_of_shape hshape Choice.dropdown fun _ => rfl] at hrest
      exact EditedAt.trans Block.Switched.trans
        (EditedAt.write hb (hdo.switched hp hs (hsw e List.mem_cons_self))) hrest

end BlockEdit

/-! ### Switching back -/

namespace Block

variable {p : BlockPlan} {v v' : Variant} {b b' : Block}

/-- **Blocks with the same inputs, laid out from one leaf, show the same inputs**, with the same
rows and the same children. -/
theorem SameInputs.visibleInputs_eq (h : b.SameInputs b') (hb : b.Agrees p v)
    (hb' : b'.Agrees p v') (hl : v'.activeLeaf? = v.activeLeaf?) :
    b'.visibleInputs = b.visibleInputs := by
  obtain ⟨leaf, hleaf, hfix⟩ := hb.laidOut
  obtain ⟨leaf', hleaf', hfix'⟩ := hb'.laidOut
  rw [hl, hleaf, Option.some.injEq] at hleaf'
  subst hleaf'
  rw [← hfix, ← hfix']
  exact p.visibleInputs_configure h.input? leaf

/-- A field on the row of a visible input stands on the line of the active leaf. -/
theorem Agrees.mem_row (hb : b.Agrees p v) {leaf : Leaf} (hl : v.activeLeaf? = some leaf)
    {k : Nat} {inp : Input} (hx : (k, inp) ∈ b.visibleInputs) {i : Nat} (hi : i ∈ inp.fieldRow) :
    ∃ e ∈ leaf.line, i ∈ e.fields := by
  obtain ⟨leaf', hleaf', hfix⟩ := hb.laidOut
  rw [hl, Option.some.injEq] at hleaf'
  subst hleaf'
  rw [← hfix, mem_visibleInputs, BlockPlan.line_configure, BlockPlan.input?_configure] at hx
  obtain ⟨-, -, -, hrow, -⟩ := setRows_getElem? _ _ hx.2
  obtain ⟨e, he, -, hrow⟩ := hrow hx.1
  exact ⟨e, he, hrow ▸ hi⟩

/-- Two branches of a block's tree with one dropdown are one branch. -/
theorem Agrees.choice_eq_of_dropdown (hb : b.Agrees p v) {ch ch' : Choice} (hch : ch ∈ v.choices)
    (hch' : ch' ∈ v.choices) (hd : ch'.dropdown = ch.dropdown) : ch' = ch := by
  obtain ⟨f, hf, -⟩ := hb.shows ch hch
  obtain ⟨f', hf', -⟩ := hb.shows ch' hch'
  by_contra hne
  exact Offers.dropdown_ne hf' hf (fun hn => hne (List.inj_on_of_nodup_map hb.nodup hch' hch hn)) hd

/-- **Switched back to its route, a block reads as it did.** Both states are laid out from the
same leaf, so they show the same inputs and take the same generator. A field that is no dropdown
was never written; a dropdown the leaf shows is one of a branch on the route, which selects the
same child in both, whatever the branches off the route select. -/
theorem Switched.readsAlike (h : b.Switched (v.choices.map Choice.dropdown) b')
    (hb : b.Agrees p v) (hb' : b'.Agrees p v') (hshape : v'.shape = v.shape)
    (hroute : v'.route = v.route) (hshows : v.ShowsAbove) : b.ReadsAlike b' := by
  obtain ⟨hchoices, hleaf⟩ := Variant.activeChoices_eq_of_route hshape hroute
  obtain ⟨leaf, hl, hfix⟩ := hb.laidOut
  obtain ⟨leaf', hl', hfix'⟩ := hb'.laidOut
  rw [hleaf, hl, Option.some.injEq] at hl'
  subst hl'
  refine ⟨h.sameInputs.id, h.sameInputs.typeName, ?_, h.next,
    h.sameInputs.visibleInputs_eq hb hb' hleaf, fun k inp hx i hi => ?_⟩
  · rw [← hfix, ← hfix', BlockPlan.generator_configure, BlockPlan.generator_configure]
  by_cases hD : i ∈ v.choices.map Choice.dropdown
  · obtain ⟨e, he, hie⟩ := hb.mem_row hl hx hi
    obtain ⟨ch, hch, rfl⟩ := List.mem_map.mp hD
    -- the dropdown is the one of a branch on the route, which is a branch of both trees
    obtain ⟨ch', hch', hd⟩ := List.mem_map.mp (hshows.active hl e he _ hie hD)
    have hch₂ : ch ∈ v'.choices := by
      rw [← hb.choice_eq_of_dropdown hch (Variant.activeChoices_subset v ch' hch') hd]
      exact Variant.activeChoices_subset v' ch' (hchoices ▸ hch')
    obtain ⟨f, ⟨hf, -, -⟩, o, ho, hfv⟩ := hb.shows ch hch
    obtain ⟨f', ⟨hf', -, -⟩, o', ho', hfv'⟩ := hb'.shows ch hch₂
    rw [ho] at ho'
    cases ho'
    have hw := h.field? ch.dropdown
    rw [hf, hf', Option.map_some, Option.map_some] at hw
    rw [hf, hf', Field.eq_of_withoutValue (Option.some.inj hw) (hfv'.trans hfv.symm)]
  · exact h.kept i hD

end Block

namespace BlockEdit

variable {host : Host} {p : BlockPlan} {id : Nat} {type : String}

/-- **Edits that bring a block back to its route bring it back to its leaf**, showing the inputs
it showed. -/
theorem foldl_apply_route (hp : host.definition type = .ok p) (switches : List BlockEdit)
    {ws : Workspace} {b b₂ : Block} {v v₂ : Variant} (hb : ws.get? id = some b) (hid : b.id = id)
    (ht : b.typeName = type) (hag : b.Agrees p v)
    (hb₂ : (switches.foldl (apply host p id) ws).get? id = some b₂) (hv₂ : b₂.variants = some v₂)
    (hroute : v₂.route = v.route) :
    v₂.activeLeaf? = v.activeLeaf? ∧ b₂.visibleInputs = b.visibleInputs := by
  obtain ⟨a, w, ha, hag₂, hshape⟩ := foldl_apply_agrees hp switches hb hid ht hag
  obtain rfl := Option.some.inj (hb₂.symm.trans ha)
  obtain rfl := Option.some.inj (hv₂.symm.trans hag₂.variants_eq)
  obtain ⟨-, hleaf⟩ := Variant.activeChoices_eq_of_route hshape hroute
  obtain ⟨a', ha', hsame⟩ := (foldl_apply_sameInputs switches hb hid).block b hb
  obtain rfl := Option.some.inj (hb₂.symm.trans ha')
  exact ⟨hleaf, hsame.visibleInputs_eq hag hag₂ hleaf⟩

/-- **Switches that bring a block back to its route change no block's code**, when the block's
leaves show only the dropdowns above them and its generator, if written as a function, reads only
what the block shows. -/
theorem foldl_apply_switches_code (hp : host.definition type = .ok p) {switches : List BlockEdit}
    (hsw : ∀ e ∈ switches, e.Switches p) {ws : Workspace} {b b₂ : Block} {v v₂ : Variant}
    (hb : ws.get? id = some b) (hs : b.Switchable p id type v) (hshows : v.ShowsAbove)
    (hb₂ : (switches.foldl (apply host p id) ws).get? id = some b₂) (hv₂ : b₂.variants = some v₂)
    (hroute : v₂.route = v.route)
    (hfun : ∀ steps, host.generatorFor b = some (.function steps) → Code.ReadsShown steps)
    (config : Code.Config) (x : Nat) :
    Code.Pass.blockToCode ⟨host, switches.foldl (apply host p id) ws, config⟩ x =
      Code.Pass.blockToCode ⟨host, ws, config⟩ x := by
  obtain ⟨a, w, ha, hs₂, hshape⟩ := foldl_apply_switchable hp switches hb hs
  obtain rfl := Option.some.inj (hb₂.symm.trans ha)
  obtain rfl := Option.some.inj (hv₂.symm.trans hs₂.agrees.variants_eq)
  -- the switches wrote dropdowns only, so the block reads as before and every other is as it was
  have hedit := foldl_apply_switched hp switches hsw hb hs
  obtain ⟨a', ha', hswitched⟩ := hedit.block b hb
  obtain rfl := Option.some.inj (hb₂.symm.trans ha')
  have hreads := hswitched.readsAlike hs.agrees hs₂.agrees hshape hroute hshows
  have halike := hedit.mono fun c c' hc hc' _ => by
    rw [Option.some.inj (hc.symm.trans hb), Option.some.inj (hc'.symm.trans hb₂)]
    exact hreads
  refine Code.Pass.blockToCode_congr (halike.alike hb host config fun c c' steps hc hc' hgen => ?_) x
  rw [Option.some.inj (hc.symm.trans hb)] at hgen ⊢
  rw [Option.some.inj (hc'.symm.trans hb₂)]
  exact hfun steps hgen b b₂ config hreads

end BlockEdit

/-- **A new block of an unambiguous checked plan is switchable**, when dropdowns are made by the
built-in constructor. -/
theorem BlockPlan.setUp_switchable {p : BlockPlan} {r : Registry} {b : Block}
    (hr : r.field? "dropdown" = .ok .dropdown) (hc : p.variants.Checked)
    (hu : p.variants.Unambiguous) {n : Nat} {t : String}
    (h : p.setUp r { id := n, typeName := t } = .ok b) : ∃ v, b.Switchable p n t v := by
  obtain ⟨v, hv⟩ := setUp_agrees hr hc (VariantPlan.Unambiguous.nodup hc hu) h
  have hrel := setUp_relaid h
  -- the tree made for the block has the plan's branches
  obtain ⟨b₀, b₁, w, -, -, hcons, hb⟩ := p.setUp_cases h
  obtain ⟨-, hnames, -⟩ := VariantPlan.construct_shows hr hc hcons
  have hw : b.variants = some w := by
    rcases hb with ⟨-, rfl⟩ | ⟨l, -, rfl⟩ <;> rfl
  have hwv : w = v := Option.some.inj (hw.symm.trans hv.variants_eq)
  rw [hwv] at hnames
  exact ⟨v, hrel.id, hrel.typeName, hv, setUp_unambiguous hr hc hu h v hv.variants_eq, hnames⟩

/-- **Variant switches never disconnect anything, and coming back to a leaf restores the block.**
Take a type whose plan was built from a declaration, on a host that makes dropdowns with the
built-in constructor, and a block made of it, then edited by any list of field sets and
selections. After any further list of edits of that block:

* every block keeps its parent, and every input of every block the block it holds;
* when the plan's branch names are all different and the edits bring the block back to the route
  it was on, selecting the same child at each branch on the way to its active leaf (whatever they
  left selected off that route), the block is on the same active leaf and shows the same inputs,
  in the same order, with the same rows and the same children;
* when moreover the plan is unambiguous, each edit is a switch (a selection, or a set of the field
  named for a branch) and the block's generator, if written as a function, reads the block only as
  a pass does, every block generates the code it generated before. -/
theorem variant_switches_keep_children {host : Host} {type : String} {d : BlockData}
    {messages : Messages} {extra : List Nat} {p : BlockPlan}
    (hbuild : BlockPlan.build d messages extra = .ok p) (hp : host.definition type = .ok p)
    (hr : host.classes.field? "dropdown" = .ok .dropdown) {ws₀ ws : Workspace} {id : Nat}
    (hnew : (newBlock host type).run.run ws₀ = (.ok id, ws)) (edits switches : List BlockEdit) :
    let ws₁ := edits.foldl (BlockEdit.apply host p id) ws
    let ws₂ := switches.foldl (BlockEdit.apply host p id) ws₁
    (∀ y, ws₂.parentOf y = ws₁.parentOf y ∧ ∀ k, ws₂.holds y (.input k) = ws₁.holds y (.input k)) ∧
    (p.variants.branchNames.Nodup → ∀ b₁ b₂ v₁ v₂, ws₁.get? id = some b₁ → ws₂.get? id = some b₂ →
      b₁.variants = some v₁ → b₂.variants = some v₂ → v₂.route = v₁.route →
      v₂.activeLeaf? = v₁.activeLeaf? ∧ b₂.visibleInputs = b₁.visibleInputs ∧
        (p.variants.Unambiguous → (∀ e ∈ switches, e.Switches p) →
          (∀ steps, host.generatorFor b₁ = some (.function steps) → Code.ReadsShown steps) →
          ∀ config x, Code.Pass.blockToCode ⟨host, ws₂, config⟩ x =
            Code.Pass.blockToCode ⟨host, ws₁, config⟩ x)) := by
  intro ws₁ ws₂
  have hc : p.variants.Checked := BlockPlan.build_checked hbuild
  obtain ⟨p', b, hp', hs, rfl, rfl⟩ := newBlock_ok hnew
  rw [hp] at hp'
  cases hp'
  have hb : (ws₀.push b).get? ws₀.blocks.length = some b := by simp
  have hrel := BlockPlan.setUp_relaid hs
  -- the block stays live under its id, with its inputs, through both lists of edits
  have h₁ := @BlockEdit.foldl_apply_sameInputs host p _ edits _ _ hb hrel.id
  obtain ⟨b₁, hb₁, hs₁⟩ := h₁.block b hb
  have h₂ := @BlockEdit.foldl_apply_sameInputs host p _ switches _ _ hb₁
    (hs₁.id.trans hrel.id)
  refine ⟨h₂.parentOf_holds hb₁, fun hnd c₁ c₂ v₁ v₂ hc₁ hc₂ hv₁ hv₂ hroute => ?_⟩
  obtain rfl := Option.some.inj (hb₁.symm.trans hc₁)
  -- the new block's leaves show only the dropdowns above them, and after the first edits the
  -- block agrees with a tree of the new tree's shape
  obtain ⟨w, hw⟩ := BlockPlan.setUp_agrees hr hc hnd hs
  have hshows := BlockPlan.setUp_showsAbove hc
    (VariantPlan.build_distinct (BlockPlan.build_variants hbuild)) hs w hw.variants_eq
  obtain ⟨a₁, w₁, ha₁, hag₁, hshape₁⟩ :=
    BlockEdit.foldl_apply_agrees hp edits hb hrel.id hrel.typeName hw
  obtain rfl := Option.some.inj (hb₁.symm.trans ha₁)
  obtain rfl := Option.some.inj (hv₁.symm.trans hag₁.variants_eq)
  obtain ⟨hleaf, hinputs⟩ := BlockEdit.foldl_apply_route hp switches hb₁ (hs₁.id.trans hrel.id)
    (hs₁.typeName.trans hrel.typeName) hag₁ hc₂ hv₂ hroute
  refine ⟨hleaf, hinputs, fun hu hsw hfun config x => ?_⟩
  obtain ⟨u, hu₀⟩ := BlockPlan.setUp_switchable hr hc hu hs
  obtain ⟨a, u₁, ha, hu₁, -⟩ := BlockEdit.foldl_apply_switchable hp edits hb hu₀
  obtain rfl := Option.some.inj (hb₁.symm.trans ha)
  obtain rfl := Option.some.inj (hv₁.symm.trans hu₁.agrees.variants_eq)
  exact BlockEdit.foldl_apply_switches_code hp hsw hb₁ hu₁ (hshows.of_shape hshape₁) hc₂ hv₂ hroute
    hfun config x

/-- A run that returned `a` is `a` with the store it left. -/
theorem WorkspaceM.run_eq_of_toOption {α : Type} {r : Except HostError α × Workspace} {a : α}
    (h : r.1.toOption = some a) : r = (.ok a, r.2) := by
  rcases r with ⟨_ | a', ws⟩
  · cases h
  · simp only [Except.toOption, Option.some.injEq] at h
    rw [h]

/-- Switches of the two-level type: `B` picked through its dropdown, `Q` selected in `B`, then `A`
picked again. -/
def twoLevelSwitches : List BlockEdit :=
  [.setField "S" (.str "B"), .select "B" "Q", .setField "S" (.str "A")]

/-- A new block of the two-level type, whose plan is unambiguous, switched to `Q` under `B` and
back to `A`: the block is back on its route while `B`, off the route, keeps `Q` selected, and it
shows the inputs and generates the code it did. -/
theorem twoLevel_switches_back :
    let host : Host := { definitions := [("S", twoLevelPlan)] }
    let ws := ((newBlock host "S").run.run {}).2
    let ws₂ := twoLevelSwitches.foldl (BlockEdit.apply host twoLevelPlan 0) ws
    let tree := fun ws : Workspace => (ws.get? 0).bind (·.variants)
    (tree ws₂).map Variant.route = (tree ws).map Variant.route ∧
      (tree ws₂).map (·.choices.map Choice.current) ≠
        (tree ws).map (·.choices.map Choice.current) ∧
      (ws₂.get? 0).map (·.visibleInputs) = (ws.get? 0).map (·.visibleInputs) ∧
      ∀ config x, Code.Pass.blockToCode ⟨host, ws₂, config⟩ x =
        Code.Pass.blockToCode ⟨host, ws, config⟩ x := by
  intro host ws ws₂ tree
  have hnew : (newBlock host "S").run.run {} = (.ok 0, ws) :=
    WorkspaceM.run_eq_of_toOption (by decide +kernel)
  have hroute : (tree ws₂).map Variant.route = (tree ws).map Variant.route := by decide +kernel
  -- the blocks and trees before and after the switches
  obtain ⟨b₁, hb₁⟩ : ∃ b, ws.get? 0 = some b := Option.isSome_iff_exists.mp (by decide +kernel)
  obtain ⟨b₂, hb₂⟩ : ∃ b, ws₂.get? 0 = some b := Option.isSome_iff_exists.mp (by decide +kernel)
  have htree : ∀ {w : Workspace} {b : Block}, w.get? 0 = some b → tree w = b.variants :=
    fun h => by simp only [tree, h, Option.bind_some]
  obtain ⟨v₁, hv₁⟩ : ∃ v, b₁.variants = some v :=
    Option.isSome_iff_exists.mp (by rw [← htree hb₁]; decide +kernel)
  obtain ⟨v₂, hv₂⟩ : ∃ v, b₂.variants = some v :=
    Option.isSome_iff_exists.mp (by rw [← htree hb₂]; decide +kernel)
  have hroute' : v₂.route = v₁.route := by
    rw [htree hb₁, htree hb₂, hv₁, hv₂, Option.map_some, Option.map_some] at hroute
    exact Option.some.inj hroute
  have hu : twoLevelPlan.variants.Unambiguous := by
    unfold VariantPlan.Unambiguous
    decide
  have hsw : ∀ e ∈ twoLevelSwitches, e.Switches twoLevelPlan := by
    intro e he
    simp only [twoLevelSwitches, List.mem_cons, List.not_mem_nil, or_false] at he
    rcases he with rfl | rfl | rfl <;> simp [BlockEdit.Switches, twoLevelPlan, VariantPlan.branchNames,
      VariantPlan.branchNamesAll]
  -- the host writes no generator as a function
  have hfun : ∀ steps, host.generatorFor b₁ = some (.function steps) → Code.ReadsShown steps := by
    intro steps h
    simp [Host.generatorFor, Host.generator?, host] at h
  obtain ⟨-, hvis, hcode⟩ :=
    (variant_switches_keep_children twoLevel_build rfl rfl hnew [] twoLevelSwitches).2 (by decide)
      b₁ b₂ v₁ v₂ hb₁ hb₂ hv₁ hv₂ hroute'
  refine ⟨hroute, by decide +kernel, ?_, hcode hu hsw hfun⟩
  rw [hb₁, hb₂, Option.map_some, Option.map_some, hvis]

/-- Makes `ambiguousPlan` generate, for each block of `T`, the value of the field it shows under
`X`, and makes a block of it. -/
def ambiguousCodeSession : List Op :=
  [.define ambiguousPlan, .setGenerator "T" (.field "X" .atomic), .newBlock "T"]

/-- Sets the field `X`, the text field of `A`, to `P`, which selects `P` in the branch `X`; then
switches the root to `X` and back to `A`. -/
def ambiguousRoundTrip : List BlockEdit :=
  [.setField "X" (.str "P"), .setField "T" (.str "X"), .setField "T" (.str "A")]

/-- **Switching back can change the code of an ambiguous block.** Every edit of
`ambiguousRoundTrip` is a switch, and afterwards every branch shows the child it showed before and
the block is on the leaf `A` again; but the text field `X` of `A` took the value `P` on the way,
and the block's code, the value of that field, is `P` where it was empty. -/
theorem ambiguous_switch_back_changes_code :
    let σ := Session.init.run ambiguousCodeSession
    let ws' := ambiguousRoundTrip.foldl (BlockEdit.apply σ.host ambiguousPlan 0) σ.ws
    let selections := fun ws : Workspace => ((ws.get? 0).bind (·.variants)).map fun v =>
      (v.choices.map fun ch => (ch.name, ch.dropdown, ch.current), v.activeLeaf?.map (·.name))
    (∀ e ∈ ambiguousRoundTrip, e.Switches ambiguousPlan) ∧ selections ws' = selections σ.ws ∧
      (Code.Pass.blockToCode ⟨σ.host, σ.ws, {}⟩ 0).toOption.map Code.Fragment.text = some "" ∧
      (Code.Pass.blockToCode ⟨σ.host, ws', {}⟩ 0).toOption.map Code.Fragment.text = some "P" := by
  intro σ ws' selections
  have hsw : ∀ e ∈ ambiguousRoundTrip, e.Switches ambiguousPlan := by
    intro e he
    simp only [ambiguousRoundTrip, List.mem_cons, List.not_mem_nil, or_false] at he
    rcases he with rfl | rfl | rfl <;> simp [BlockEdit.Switches, ambiguousPlan,
      VariantPlan.branchNames, VariantPlan.branchNamesAll]
  -- the kernel runs the session, the round trip and both generations
  exact ⟨hsw, by decide +kernel⟩

end Blockwork
