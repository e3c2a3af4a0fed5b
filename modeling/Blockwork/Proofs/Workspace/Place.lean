import Blockwork.Proofs.Workspace.Session

/-!
# Placing a block tree is all or nothing

`place host s` makes the blocks of the state `s` one by one: a block, its fields, what its inputs
hold and the block chained after it, each child placed in full before it is plugged in. Whatever
fails, each level disposes of what it made, so a failed placement leaves every block of the
workspace as it was, and only the store has grown by empty slots; a placement that succeeds adds
exactly one top-level tree and changes no block that was there before (`place_all_or_nothing`).

The invariant is `ws.AddsTree host ws₀ root`: `ws` is `ws₀` with the blocks `ws₀` has
as they were, and the new blocks are exactly the subtree of `root`, which is top-level. A child
placed in full is a second such tree; plugging it into a free socket of the root grafts it onto
the root's tree (`AddsTree.graft`), and disposing of it instead gives back the workspace before it
(`AddsTree.discard`).

The sockets the state fills must be free. A state names each input once, as the maps a state is
read from do (`BlockState.UniqueInputs`): an input named twice would have its first block unplugged
by the second, and that block would be left over as a second tree.
-/

namespace Blockwork

/-- Every node of a block state tree names each of its inputs once. -/
inductive BlockState.UniqueInputs : BlockState → Prop
  | mk {type : String} {fields : List (String × Json)} {inputs : List (String × Plug BlockState)}
      {next : Option (Plug BlockState)} (names : (inputs.map (·.1)).Nodup)
      (blocks : ∀ p ∈ inputs.map (·.2), ∀ s ∈ p.block, UniqueInputs s)
      (shadows : ∀ p ∈ inputs.map (·.2), ∀ s ∈ p.shadow, UniqueInputs s)
      (chained : ∀ p ∈ next, ∀ s ∈ p.block, UniqueInputs s) :
      UniqueInputs ⟨type, fields, inputs, next⟩

namespace Block

variable {b : Block}

theorem input?_of_mem_visibleInputs {x : Nat × Input} (hx : x ∈ b.visibleInputs) :
    b.input? x.1 = some x.2 := by
  obtain ⟨k, -, hk⟩ := List.mem_filterMap.mp hx
  obtain ⟨i, hi, rfl⟩ := Option.map_eq_some_iff.mp hk
  exact hi

theorem inputNamed?_spec {n : String} {k : Nat} (h : b.inputNamed? n = some k) :
    ∃ i, b.input? k = some i ∧ i.name = some n := by
  obtain ⟨⟨k', i⟩, hfind, rfl⟩ := Option.map_eq_some_iff.mp h
  have hname := List.find?_some hfind
  rw [beq_iff_eq] at hname
  exact ⟨i, b.input?_of_mem_visibleInputs (List.mem_of_find?_eq_some hfind), hname⟩

theorem input?_plugInput (k j c : Nat) :
    (b.plugInput k c).input? j = if k = j then (b.input? j).map (fun i =>
      { i with connection := i.connection.map fun x => { x with target := some c } })
    else b.input? j := by
  unfold plugInput modifyInput input?
  exact Array.getElem?_modify

/-- Plugging into an input keeps the names of all inputs. -/
theorem name_plugInput (k j c : Nat) :
    ((b.plugInput k c).input? j).bind (·.name) = (b.input? j).bind (·.name) := by
  rw [input?_plugInput]
  split
  · cases b.input? j <;> rfl
  · rfl

/-- Block `b` is free for the input names `names`: its next connection holds nothing, and no
input that holds a block has one of the names. -/
def Free (names : List String) (b : Block) : Prop :=
  b.next.bind (·.target) = none ∧
    ∀ k c, b.HoldsAt k c → ∀ n ∈ names, (b.input? k).bind (·.name) ≠ some n

/-- A block that holds nothing is free for any names. -/
theorem free_of_sockets (h : b.sockets = []) (names : List String) : b.Free names := by
  refine ⟨?_, fun k c hk => absurd (h ▸ hk.mem_sockets) (List.not_mem_nil)⟩
  rcases hn : b.next.bind (·.target) with _ | c
  · rfl
  · have : c ∈ b.sockets := by simp [sockets, hn]
    rw [h] at this
    cases this

theorem Free.mono {names names' : List String} (h : b.Free names) (hsub : names' ⊆ names) :
    b.Free names' :=
  ⟨h.1, fun k c hk n hn => h.2 k c hk n (hsub hn)⟩

/-- The input a free block shows under a name it is free for holds nothing. -/
theorem Free.target_none {n : String} {names : List String} (h : b.Free (n :: names)) {k : Nat}
    (hk : b.inputNamed? n = some k) {i : Input} {conn : Connection} (hi : b.input? k = some i)
    (hc : i.connection = some conn) : conn.target = none := by
  rcases ht : conn.target with _ | o
  · rfl
  · have hheld : b.HoldsAt k o := by simp [HoldsAt, hi, Input.target, hc, ht]
    obtain ⟨i', hi', hname⟩ := inputNamed?_spec hk
    rw [hi] at hi'
    cases hi'
    exact absurd (by simp [hi, hname]) (h.2 k o hheld n List.mem_cons_self)

/-- Plugging a block into the input of a name keeps the block free for the other names. -/
theorem Free.plugInput {n : String} {names : List String} (h : b.Free (n :: names))
    (hn : n ∉ names) {k : Nat} (hk : b.inputNamed? n = some k) (c : Nat) :
    (b.plugInput k c).Free names := by
  refine ⟨h.1, fun j d hj m hm => ?_⟩
  rw [name_plugInput]
  by_cases hkj : k = j
  · -- the input just filled has the name `n`, which is none of the others
    subst hkj
    obtain ⟨i, hi, hname⟩ := inputNamed?_spec hk
    rw [hi, Option.bind_some, hname]
    exact fun he => hn (Option.some.inj he ▸ hm)
  · have hold : b.HoldsAt j d := by
      simpa [HoldsAt, input?_plugInput, hkj] using hj
    exact h.2 j d hold m (List.mem_cons_of_mem n hm)

end Block

namespace Workspace

variable {ws ws' ws₀ : Workspace}

/-! ### Subtrees among old and new blocks -/

/-- The parent of a block of a forest is a block of its store. -/
theorem Forest.parentOf_lt (hF : ws.Forest) {a p : Nat} (h : ws.parentOf a = some p) :
    p < ws.blocks.length := by
  obtain ⟨b, hb⟩ := live_of_mem_socketsOf (hF.held_by_parent h)
  exact lt_length_of_get? hb

/-- A path up from one of the first `n` blocks stays among them when their parents lie among
them; where the two stores agree on those parents, it is a path of both. -/
theorem Below.transfer {n x i : Nat} (hsame : ∀ a, a < n → ws'.parentOf a = ws.parentOf a)
    (hclosed : ∀ a p, a < n → ws.parentOf a = some p → p < n) (hi : i < n)
    (h : ws.Below x i) : ws'.Below x i := by
  induction h using Relation.ReflTransGen.head_induction_on with
  | refl => exact Below.refl x
  | @head a c hac _ ih =>
    exact Relation.ReflTransGen.head (by rw [hsame a hi]; exact hac) (ih (hclosed a c hi hac))

/-- Hanging the top-level block `c` from `p` adds the subtree of `c` to the subtree of `p`. -/
theorem Below.graft {c p i : Nat} (hpar : ∀ j, j ≠ c → ws'.parentOf j = ws.parentOf j)
    (hc : ws'.parentOf c = some p) (htop : ws.parentOf c = none) :
    ws'.Below p i ↔ ws.Below p i ∨ ws.Below c i := by
  -- every link of `ws` is a link of `ws'`: only `c` changed, and it had no parent
  have hmono : ∀ a q, ws.parentOf a = some q → ws'.parentOf a = some q := fun a q h => by
    by_cases hac : a = c
    · rw [hac, htop] at h
      cases h
    · rw [hpar a hac]
      exact h
  constructor
  · intro h
    induction h using Relation.ReflTransGen.head_induction_on with
    | refl => exact Or.inl (Below.refl p)
    | @head a d had _ ih =>
      by_cases hac : a = c
      · exact Or.inr (hac ▸ Below.refl a)
      · have had' : ws.parentOf a = some d := by rw [← hpar a hac]; exact had
        exact ih.imp (Relation.ReflTransGen.head had') (Relation.ReflTransGen.head had')
  · rintro (h | h)
    · exact Relation.ReflTransGen.mono hmono _ _ h
    · exact (Relation.ReflTransGen.mono hmono _ _ h).tail hc

/-- A store that reads the same everywhere is a forest too. -/
theorem Forest.of_get?_eq (hF : ws.Forest) (heq : ∀ i, ws'.get? i = ws.get? i) : ws'.Forest := by
  have hpar : ∀ i, ws'.parentOf i = ws.parentOf i := fun i => by simp only [parentOf, heq]
  have hsock : ∀ i, ws'.socketsOf i = ws.socketsOf i := fun i => by simp only [socketsOf, heq]
  exact hF.congr (fun hb => hF.id_eq (by rw [← heq]; exact hb)) hpar (fun i => by rw [hsock])

/-- A change of one block keeps which blocks are live. -/
theorem live_change (k : Nat) (f : Block → Block) (i : Nat) :
    (∃ b, (ws.change k f).get? i = some b) ↔ ∃ b, ws.get? i = some b := by
  rw [get?_change]
  split
  · rcases ws.get? i with _ | b <;> simp
  · rfl

/-! ### One new tree -/

/-- `ws` is `ws₀` with one new top-level tree, rooted at `root`, of blocks that fit `host`: the
blocks of `ws₀` are as they were, and the new blocks are exactly the subtree of `root`. -/
structure AddsTree (ws : Workspace) (host : Host) (ws₀ : Workspace) (root : Nat) : Prop where
  forest : ws.Forest
  length_le : ws₀.blocks.length ≤ ws.blocks.length
  old : ∀ i, i < ws₀.blocks.length → ws.get? i = ws₀.get? i
  root_new : ws₀.blocks.length ≤ root
  root_top : ws.parentOf root = none
  root_live : ∃ b, ws.get? root = some b
  new_iff : ∀ i, ws₀.blocks.length ≤ i → ((∃ b, ws.get? i = some b) ↔ ws.Below root i)
  fits : ws.All fun b => ws₀.blocks.length ≤ b.id → b.Fits host

namespace AddsTree

variable {host : Host} {root : Nat}

/-- The new root is a block of its own with no parent. -/
theorem root_free (h : ws.AddsTree host ws₀ root) : ∃ b, ws.get? root = some b ∧ b.parent = none := by
  obtain ⟨b, hb⟩ := h.root_live
  exact ⟨b, hb, (parentOf_of_get? hb).symm.trans h.root_top⟩

theorem root_lt (h : ws.AddsTree host ws₀ root) : root < ws.blocks.length := by
  obtain ⟨b, hb⟩ := h.root_live
  exact lt_length_of_get? hb

/-- A tree placed after another has a root apart from the other's. -/
theorem later_root_ne {w₁ w₂ : Workspace} {child : Nat} (hA : w₁.AddsTree host ws₀ root)
    (hC : w₂.AddsTree host w₁ child) : child ≠ root := by
  have := hA.root_lt
  have := hC.root_new
  omega

theorem parentOf_old (h : ws.AddsTree host ws₀ root) {i : Nat} (hi : i < ws₀.blocks.length) :
    ws.parentOf i = ws₀.parentOf i := by
  simp only [parentOf, h.old i hi]

/-- Seen from one of the blocks of `ws₀`, the subtrees are those of `ws₀`. -/
theorem below_old_iff (hF₀ : ws₀.Forest) (h : ws.AddsTree host ws₀ root) {x i : Nat}
    (hi : i < ws₀.blocks.length) : ws.Below x i ↔ ws₀.Below x i := by
  have hclosed : ∀ a p, a < ws₀.blocks.length → ws₀.parentOf a = some p →
      p < ws₀.blocks.length := fun _ _ _ hp => hF₀.parentOf_lt hp
  constructor
  · refine Below.transfer (fun a ha => (h.parentOf_old ha).symm) (fun a p ha hp => ?_) hi
    rw [h.parentOf_old ha] at hp
    exact hclosed a p ha hp
  · exact Below.transfer (fun a ha => h.parentOf_old ha) hclosed hi

/-- The subtree of the root holds new blocks only. -/
theorem new_of_below (hF₀ : ws₀.Forest) (h : ws.AddsTree host ws₀ root) {i : Nat}
    (hb : ws.Below root i) : ws₀.blocks.length ≤ i := by
  have hroot := h.root_new
  by_contra hi
  have hb₀ := (h.below_old_iff hF₀ (Nat.lt_of_not_le hi)).mp hb
  -- in `ws₀` a path up from an old block ends at an old block
  rcases Relation.ReflTransGen.cases_tail hb₀ with heq | ⟨a, -, ha⟩
  · omega
  · have := hF₀.parentOf_lt ha
    omega

/-- A step that keeps every parent link, which blocks are live and the blocks of `ws₀` keeps the
new tree. -/
theorem of_same (h : ws.AddsTree host ws₀ root) (hF : ws'.Forest)
    (hlen : ws.blocks.length ≤ ws'.blocks.length)
    (hold : ∀ i, i < ws₀.blocks.length → ws'.get? i = ws.get? i)
    (hlive : ∀ i, (∃ b, ws'.get? i = some b) ↔ ∃ b, ws.get? i = some b)
    (hpar : ∀ i, ws'.parentOf i = ws.parentOf i)
    (hfits : ws'.All fun b => ws₀.blocks.length ≤ b.id → b.Fits host) :
    ws'.AddsTree host ws₀ root := by
  have hbelow : ∀ i, ws'.Below root i ↔ ws.Below root i := fun i =>
    ⟨Below.congr fun j _ => hpar j, Below.congr fun j _ => (hpar j).symm⟩
  refine ⟨hF, Nat.le_trans h.length_le hlen, fun i hi => (hold i hi).trans (h.old i hi), h.root_new,
    (hpar root).trans h.root_top, (hlive root).mpr h.root_live, fun i hi => ?_, hfits⟩
  rw [hlive, hbelow]
  exact h.new_iff i hi

/-- The same blocks in a store as long or longer. -/
theorem of_get?_eq (h : ws.AddsTree host ws₀ root) (hlen : ws.blocks.length ≤ ws'.blocks.length)
    (heq : ∀ i, ws'.get? i = ws.get? i) : ws'.AddsTree host ws₀ root :=
  h.of_same (h.forest.of_get?_eq heq) hlen (fun i _ => heq i) (fun i => by rw [heq])
    (fun i => by simp only [parentOf, heq]) (fun i b hb => h.fits i b (by rw [← heq]; exact hb))

/-- Changing a new block in a way the links do not see keeps the new tree. -/
theorem change (h : ws.AddsTree host ws₀ root) {i : Nat} (hi : ws₀.blocks.length ≤ i)
    {f : Block → Block} (hf : ∀ b : Block, b.SameLinks (f b)) :
    (ws.change i f).AddsTree host ws₀ root := by
  refine h.of_same (h.forest.change i hf) (by simp) (fun j hj => ?_) (live_change i f)
    (parentOf_change_of_parent (fun b => (hf b).parent) i)
    (h.fits.change (fun b hb hle => ?_) i)
  · rw [get?_change, if_neg (by omega)]
  · rw [(hf b).id] at hle
    exact (hb hle).of_links (hf b).typeName (by rw [(hf b).next])

/-- Writing back a new block laid out again by its type's plan keeps the new tree. -/
theorem write_relaid (h : ws.AddsTree host ws₀ root) {i : Nat} {b b' : Block} {p : BlockPlan}
    (hb : ws.get? i = some b) (hi : ws₀.blocks.length ≤ i)
    (hp : host.definitions.lookup b.typeName = some p) (hr : b.Relaid p.kind b') :
    (ws.write i (some b')).AddsTree host ws₀ root := by
  have hlt := lt_length_of_get? hb
  have hfit : b.Fits host := h.fits i b hb (by rw [h.forest.id_eq hb]; exact hi)
  refine h.of_same (h.forest.write_relaid hb hfit hp hr) (by simp) (fun j hj => ?_)
    (fun j => ?_) (fun j => ?_) (h.fits.write i fun c hc _ => ?_)
  · rw [get?_write, if_neg (by omega)]
  · rw [get?_write]
    split
    · rename_i hij
      subst hij
      simp [hb]
    · rfl
  · rw [parentOf_write_some hlt]
    split
    · rename_i hij
      subst hij
      rw [hr.parent, parentOf_of_get? hb]
    · rfl
  · cases hc
    exact hfit.relaid hp hr

/-- A new block appended to a forest is a tree of its own. -/
theorem push (hF₀ : ws₀.Forest) {b : Block} (hid : b.id = ws₀.blocks.length)
    (hpar : b.parent = none) (hs : b.sockets = []) (hfit : b.Fits host) :
    (ws₀.push b).AddsTree host ws₀ ws₀.blocks.length := by
  have hget : (ws₀.push b).get? ws₀.blocks.length = some b := by simp
  refine ⟨hF₀.append hid hpar hs, by simp, fun i hi => ?_, Nat.le_refl _, ?_, ⟨b, hget⟩,
    fun i hi => ⟨fun ⟨b', hb'⟩ => ?_, fun hb => ?_⟩, fun i b' hb' hle => ?_⟩
  · rw [get?_push, if_neg (Nat.ne_of_lt hi)]
  · rw [parentOf_of_get? hget, hpar]
  · -- the only new block is the root
    rw [get?_push] at hb'
    split at hb'
    · rename_i hi'
      rw [hi']
      exact Below.refl _
    · exact absurd (lt_length_of_get? hb') (Nat.not_lt.mpr hi)
  · exact below_live ⟨b, hget⟩ hb
  · rw [get?_push] at hb'
    split at hb'
    · cases hb'
      exact hfit
    · have := hF₀.id_eq hb'
      have := lt_length_of_get? hb'
      omega

/-- **Grafting.** A second new tree, placed after the first, hung from a free socket of the first
tree's root, makes one tree with it. -/
theorem graft {w₁ w₂ : Workspace} {child : Nat} (hA : w₁.AddsTree host ws₀ root) (hC : w₂.AddsTree host w₁ child) (F : Block.Filling child)
    (s : Bool) (hopen : ∃ b, w₂.get? root = some b ∧ F.Open b) :
    ((w₂.change root F.plug).change child (·.hangFrom root s)).AddsTree host ws₀ root := by
  obtain ⟨cb, hcb, hctop⟩ := hC.root_free
  obtain ⟨rb, hrb, hrbOpen⟩ := hopen
  have hroot := hA.root_lt
  have hchild := hC.root_new
  have hn₀ := hA.length_le
  have hrn := hA.root_new
  have hlen₂ := hC.length_le
  have hne : child ≠ root := hA.later_root_ne hC
  -- the root is not below the child, whose tree holds blocks placed after the root only
  have hanc : ¬ w₂.Ancestor child root := fun hanc => by
    have := hC.new_of_below hA.forest hanc.to_reflTransGen
    omega
  have hF₃ := WorkspaceM.plug_forest F s hC.forest ⟨rb, hrb, hrbOpen⟩ ⟨cb, hcb⟩ hne hanc
  simp only [WorkspaceM.run_bind, WorkspaceM.run_disconnect_top hcb hctop,
    WorkspaceM.run_update] at hF₃
  have hpar : ∀ j, j ≠ child →
      ((w₂.change root F.plug).change child (·.hangFrom root s)).parentOf j = w₂.parentOf j :=
    fun j hj => by rw [parentOf_change, if_neg (Ne.symm hj), parentOf_change_of_parent F.plug_parent]
  have hpc : ((w₂.change root F.plug).change child (·.hangFrom root s)).parentOf child =
      some root := by
    simp [Ne.symm hne, hcb]
  have hlive : ∀ i, (∃ b, ((w₂.change root F.plug).change child (·.hangFrom root s)).get? i =
      some b) ↔ ∃ b, w₂.get? i = some b := fun i =>
    (live_change child _ i).trans (live_change root _ i)
  have hfits₂ : w₂.All fun b => ws₀.blocks.length ≤ b.id → b.Fits host := by
    intro i b hb hle
    by_cases hi₁ : i < w₁.blocks.length
    · exact hA.fits i b (by rw [← hC.old i hi₁]; exact hb) hle
    · exact hC.fits i b hb (by rw [hC.forest.id_eq hb]; omega)
  refine ⟨hF₃, by simp only [length_change]; omega, fun i hi => ?_, hrn, ?_,
    (hlive root).mpr ⟨rb, hrb⟩, fun i hi => ?_, ?_⟩
  · rw [get?_change, if_neg (by omega), get?_change, if_neg (by omega), hC.old i (by omega),
      hA.old i hi]
  · rw [hpar root (Ne.symm hne), hC.parentOf_old hroot, hA.root_top]
  · rw [hlive, Below.graft hpar hpc hC.root_top]
    by_cases hi₁ : i < w₁.blocks.length
    · -- a block of the root's tree
      rw [hC.old i hi₁, hA.new_iff i hi, hC.below_old_iff hA.forest hi₁]
      refine ⟨Or.inl, fun h => h.resolve_right fun hc => ?_⟩
      have := hC.new_of_below hA.forest hc
      omega
    · -- a block of the child's tree
      rw [hC.new_iff i (by omega)]
      exact ⟨Or.inr, fun h => h.elim (fun hr => (hC.new_iff i (by omega)).mp
        (below_live ⟨rb, hrb⟩ hr)) id⟩
  · refine (hfits₂.change (fun b hb hle => ?_) root).change (fun b hb hle => ?_) child
    · rw [F.plug_id] at hle
      exact (hb hle).of_links (F.plug_typeName b) (F.plug_next_isSome b)
    · rw [Block.hangFrom_id] at hle
      exact (hb hle).hangFrom root s

/-- **Disposing of the new tree** gives back the blocks of `ws₀`. -/
theorem discard (hF₀ : ws₀.Forest) (h : ws.AddsTree host ws₀ root) :
    ∃ ws', (WorkspaceM.discard root).run.run ws = (.ok (), ws') ∧
      ws'.blocks.length = ws.blocks.length ∧ ∀ i, ws'.get? i = ws₀.get? i := by
  obtain ⟨b, hb⟩ := h.root_live
  obtain ⟨ws', hrun, hlen, hgone, hkept⟩ := WorkspaceM.run_dispose h.forest hb
  refine ⟨ws', by simp only [WorkspaceM.discard, WorkspaceM.run_tryCatch, hrun], hlen, fun i => ?_⟩
  by_cases hi : ws.Below root i
  · rw [hgone i hi, get?_eq_none_of_le (h.new_of_below hF₀ hi)]
  · rw [hkept i hi, h.root_top, if_neg nofun]
    by_cases hold : i < ws₀.blocks.length
    · exact h.old i hold
    · -- a new block outside the tree is no block at all
      rw [get?_eq_none_of_le (Nat.le_of_not_lt hold)]
      rcases hlive : ws.get? i with _ | b'
      · rfl
      · exact absurd ((h.new_iff i (Nat.le_of_not_lt hold)).mp ⟨b', hlive⟩) hi

end AddsTree

/-- The new tree while its root's fields are set: the root holds nothing yet. -/
def BareTree (ws : Workspace) (host : Host) (ws₀ : Workspace) (root : Nat) : Prop :=
  ws.AddsTree host ws₀ root ∧ ∃ b, ws.get? root = some b ∧ b.sockets = []

/-- The new tree while its root's inputs are filled: the root is free for the names to come. -/
def OpenTree (ws : Workspace) (host : Host) (ws₀ : Workspace) (root : Nat)
    (names : List String) : Prop :=
  ws.AddsTree host ws₀ root ∧ ∃ b, ws.get? root = some b ∧ b.Free names

theorem BareTree.openTree {host : Host} {root : Nat} (h : ws.BareTree host ws₀ root)
    (names : List String) : ws.OpenTree host ws₀ root names := by
  obtain ⟨hA, b, hb, hs⟩ := h
  exact ⟨hA, b, hb, Block.free_of_sockets hs names⟩

theorem OpenTree.mono {host : Host} {root : Nat} {names names' : List String}
    (h : ws.OpenTree host ws₀ root names) (hsub : names' ⊆ names) :
    ws.OpenTree host ws₀ root names' := by
  obtain ⟨hA, b, hb, hfree⟩ := h
  exact ⟨hA, b, hb, hfree.mono hsub⟩

end Workspace

namespace WorkspaceM

open Workspace

variable {host : Host} {α β : Type}

/-! ### Runs that leave a property -/

/-- From a workspace with `P`, `m` leaves one with `Q`, whether it succeeds or fails. -/
def Leaves (P Q : Workspace → Prop) (m : WorkspaceM α) : Prop :=
  ∀ ws, P ws → Q (m.run.run ws).2

theorem Leaves.of_keeps {P : Workspace → Prop} {m : WorkspaceM α} (h : Keeps P m) : Leaves P P m :=
  h

/-- A failure of the first step leaves what it left, which must give `R` by itself. -/
theorem Leaves.bind {P Q R : Workspace → Prop} {x : WorkspaceM α} {f : α → WorkspaceM β}
    (hx : Leaves P Q x) (hQR : ∀ ws, Q ws → R ws) (hf : ∀ a, Leaves Q R (f a)) :
    Leaves P R (x >>= f) := by
  intro ws hP
  have hQ := hx ws hP
  rw [run_bind]
  rcases hr : x.run.run ws with ⟨_ | a, ws'⟩
  · rw [hr] at hQ
    exact hQR ws' hQ
  · rw [hr] at hQ
    exact hf a ws' hQ

/-- `m` succeeds only with `a`. -/
def Yields (a : α) (m : WorkspaceM α) : Prop :=
  ∀ ws b ws', m.run.run ws = (.ok b, ws') → b = a

theorem Yields.pure (a : α) : Yields a (Pure.pure a : WorkspaceM α) := by
  intro ws b ws' h
  rw [run_pure] at h
  cases h
  rfl

theorem Yields.bind {a : α} {x : WorkspaceM β} {f : β → WorkspaceM α} (hf : ∀ c, Yields a (f c)) :
    Yields a (x >>= f) := by
  intro ws b ws' h
  rw [run_bind] at h
  rcases hr : x.run.run ws with ⟨_ | c, w⟩
  · rw [hr] at h
    cases h
  · rw [hr] at h
    exact hf c w b ws' h

/-! ### The steps of a placement -/

/-- What placing a tree from `ws` leaves: after a failure the blocks of `ws` as they were, in a
store as long or longer; after a success one new tree. -/
def Placed (host : Host) (ws : Workspace) : Except HostError Nat × Workspace → Prop
  | (.error _, ws') => ws.blocks.length ≤ ws'.blocks.length ∧ ∀ i, ws'.get? i = ws.get? i
  | (.ok root, ws') => ws'.AddsTree host ws root

/-- **A new block is a new tree**, or nothing changes. -/
theorem newBlock_bare {ws ws' : Workspace} (hF : ws.Forest) {type : String}
    {r : Except HostError Nat} (h : (newBlock host type).run.run ws = (r, ws')) :
    (ws' = ws ∧ ∃ e, r = .error e) ∨
      r = .ok ws.blocks.length ∧ ws'.BareTree host ws ws.blocks.length := by
  rcases r with e | id
  · exact Or.inl ⟨newBlock_error h, e, rfl⟩
  · obtain ⟨p, b, hd, hs, rfl, rfl⟩ := newBlock_ok h
    have hr := BlockPlan.setUp_relaid hs
    have hsock : b.sockets = [] := hr.sockets fun _ => rfl
    exact Or.inr ⟨rfl, AddsTree.push hF hr.id hr.parent hsock (setUp_fits hd hs), b, by simp, hsock⟩

/-- Marking the root as a shadow keeps the bare tree. -/
theorem markShadow_bare {ws₀ : Workspace} (id : Nat) (s : Bool) :
    Keeps (·.BareTree host ws₀ id) (update id fun b => { b with shadow := s }) := by
  rintro w ⟨hA, b, hb, hs⟩
  simp only [run_update]
  exact ⟨hA.change hA.root_new fun _ => ⟨rfl, rfl, rfl, rfl, rfl⟩, { b with shadow := s },
    by simp [hb], hs⟩

/-- **Setting a field of the root keeps the bare tree**, whether the value is refused, the plan's
reaction fails, or both succeed: the layouts keep what the root holds. -/
theorem setField_bare {ws₀ : Workspace} (id : Nat) (n : String) (v : Json) :
    Keeps (·.BareTree host ws₀ id) (setField host id n v) := by
  rintro w ⟨hA, b, hb, hs⟩
  rcases h : (setField host id n v).run.run w with ⟨r, w'⟩
  rcases setField_cases h with rfl | ⟨b', i, g, hb', rfl | ⟨p, b₂, hp, hb₂, rfl⟩⟩
  · exact ⟨hA, b, hb, hs⟩
  all_goals
    rw [hb] at hb'
    cases hb'
    have hid : b.id = id := hA.forest.id_eq hb
    -- the new value is written back first: the root keeps holding nothing
    obtain ⟨p₀, hp₀, -⟩ := hA.fits id b hb (by rw [hid]; exact hA.root_new)
    have hr₁ : b.Relaid p₀.kind (b.modifyField i g) := b.relaid_modifyField p₀.kind i g
    have hA₁ := hA.write_relaid hb hA.root_new hp₀ hr₁
    have hget₁ : (w.write id (some (b.modifyField i g))).get? id = some (b.modifyField i g) := by
      simp [lt_length_of_get? hb]
    have hs₁ : (b.modifyField i g).sockets = [] := by
      rw [hr₁.sockets ((hA.fits id b hb (by rw [hid]; exact hA.root_new)).kind_value hp₀), hs]
    rw [hid]
  · exact ⟨hA₁, _, hget₁, hs₁⟩
  · -- then the layout the type's plan makes of it
    have hfit₁ : (b.modifyField i g).Fits host :=
      hA₁.fits id _ hget₁ (by rw [show (b.modifyField i g).id = id from hid]; exact hA.root_new)
    have hr := BlockPlan.fieldChanged_relaid hb₂
    have hlookup := Host.lookup_of_definition hp
    rw [show b₂.id = id from hr.id.trans hid]
    refine ⟨hA₁.write_relaid hget₁ hA.root_new hlookup hr, b₂, by simp [lt_length_of_get? hb], ?_⟩
    rw [hr.sockets (hfit₁.kind_value hlookup), hs₁]

/-- **Plugging a placed child into the root's input of a name**: refused with nothing changed, or
done, and the child's tree is grafted on while the root stays free for the other names. -/
theorem connect_grafts {ws₀ w₁ w₂ w₃ : Workspace} {id child : Nat}
    {name : String} {names : List String} {r : Except HostError Unit}
    (hA : w₁.AddsTree host ws₀ id) (hC : w₂.AddsTree host w₁ child) {b : Block}
    (hb : w₂.get? id = some b) (hfree : b.Free (name :: names)) (hn : name ∉ names)
    (h : (connect id name child).run.run w₂ = (r, w₃)) :
    (w₃ = w₂ ∧ ∃ e, r = .error e) ∨ r = .ok () ∧ w₃.OpenTree host ws₀ id names := by
  rcases connect_cases h with hsame | ⟨pb, k, input, socket, hpb, -, hk, hi, hs, -, -, hlink⟩
  · exact Or.inl hsame
  rw [hb] at hpb
  cases hpb
  obtain ⟨cb, hcb, hctop⟩ := hC.root_free
  have hne : child ≠ id := hA.later_root_ne hC
  -- the input of the name holds nothing, so the child goes straight in
  have htarget : socket.target = none := hfree.target_none hk hi hs
  rw [htarget, run_link_free _ hcb hctop] at hlink
  obtain ⟨rfl, rfl⟩ := Prod.mk.inj hlink
  refine Or.inr ⟨rfl, hA.graft hC (Block.Filling.input k child) _
    ⟨b, hb, input, socket, hi, hs, htarget⟩, b.plugInput k child, ?_, hfree.plugInput hn hk child⟩
  simp [hb, hne]

/-- **Chaining a placed child after the root**: refused with nothing changed, or done, and the
child's tree is grafted on. -/
theorem connectNext_grafts {ws₀ w₁ w₂ w₃ : Workspace} {id child : Nat}
    {r : Except HostError Unit} (hA : w₁.AddsTree host ws₀ id) (hC : w₂.AddsTree host w₁ child)
    {b : Block} (hb : w₂.get? id = some b) (hfree : b.next.bind (·.target) = none)
    (h : (connectNext id child).run.run w₂ = (r, w₃)) :
    (w₃ = w₂ ∧ ∃ e, r = .error e) ∨ r = .ok () ∧ w₃.AddsTree host ws₀ id := by
  rcases connectNext_cases h with hsame | ⟨pb, socket, hpb, -, hs, -, -, hlink⟩
  · exact Or.inl hsame
  rw [hb] at hpb
  cases hpb
  obtain ⟨cb, hcb, hctop⟩ := hC.root_free
  have htarget : socket.target = none := by simpa [hs] using hfree
  rw [htarget, run_link_free _ hcb hctop] at hlink
  obtain ⟨rfl, rfl⟩ := Prod.mk.inj hlink
  exact Or.inr ⟨rfl, hA.graft hC (Block.Filling.next child) _ ⟨b, hb, socket, hs, htarget⟩⟩

/-- Placing a child tree and then plugging it in, or disposing of it again when plugging in is
refused. `Q` holds afterwards when it holds of every workspace reading as the one before, and
plugging a placed child in either changes nothing or gives `Q`. -/
theorem placeChild_leaves {w : Workspace} {Q : Workspace → Prop} {isShadow : Bool}
    {s : BlockState} {plug : Nat → WorkspaceM Unit} (hF : w.Forest)
    (hplaced : Placed host w ((placeAs host isShadow s).run.run w))
    (hback : ∀ w', w.blocks.length ≤ w'.blocks.length → (∀ i, w'.get? i = w.get? i) → Q w')
    (hplug : ∀ child w₂ r w₃, w₂.AddsTree host w child → (plug child).run.run w₂ = (r, w₃) →
      (w₃ = w₂ ∧ ∃ e, r = .error e) ∨ r = .ok () ∧ Q w₃) :
    Q ((do
      let child ← placeAs host isShadow s
      tryCatch (plug child) fun e => do discard child; throw e : WorkspaceM Unit).run.run w).2 := by
  rw [run_bind]
  rcases hr : (placeAs host isShadow s).run.run w with ⟨_ | child, w₂⟩
  · rw [hr] at hplaced
    exact hback w₂ hplaced.1 hplaced.2
  · rw [hr] at hplaced
    dsimp only
    rw [run_tryCatch]
    rcases hc : (plug child).run.run w₂ with ⟨r, w₃⟩
    rcases hplug child w₂ r w₃ hplaced hc with ⟨rfl, e, rfl⟩ | ⟨rfl, hQ⟩
    · -- refused: the child's tree is disposed of again
      obtain ⟨w₄, hdis, hlen, heq⟩ := hplaced.discard hF
      simp only [run_bind, hdis, run_throw]
      exact hback w₄ (by rw [hlen]; exact hplaced.length_le) heq
    · exact hQ

/-- A body that keeps one new tree and succeeds only with its root, under a handler that disposes
of the tree, places all or nothing. -/
theorem placed_tryCatch {ws₀ : Workspace} (hF₀ : ws₀.Forest) {root : Nat} {body : WorkspaceM Nat}
    {P : Workspace → Prop} (hbody : Leaves P (·.AddsTree host ws₀ root) body)
    (hval : Yields root body) {w : Workspace} (hw : P w) :
    Placed host ws₀ ((tryCatch body fun e => do discard root; throw e).run.run w) := by
  rw [run_tryCatch]
  have hA := hbody w hw
  rcases hr : body.run.run w with ⟨_ | a, w₂⟩
  · rw [hr] at hA
    obtain ⟨w₃, hdis, hlen, heq⟩ := hA.discard hF₀
    simp only [run_bind, hdis, run_throw, Placed]
    exact ⟨by rw [hlen]; exact hA.length_le, heq⟩
  · rw [hr] at hA
    rw [hval w a w₂ hr]
    exact hA

/-! ### Placing a whole tree -/

mutual
/-- **Placing a block tree from a forest is all or nothing** (see `Placed`): the new block is a
new tree, its fields keep it bare, its inputs and next connection graft the children's trees on,
and a failure anywhere disposes of the tree again. -/
theorem placeAs_placed (isShadow : Bool) : ∀ s : BlockState, s.UniqueInputs →
    ∀ ws : Workspace, ws.Forest → Placed host ws ((placeAs host isShadow s).run.run ws)
  | ⟨type, fields, inputs, next⟩, hs, ws, hF => by
    cases hs with
    | mk hnames hblocks hshadows hchained =>
    rw [placeAs, run_bind]
    rcases hnew : (newBlock host type).run.run ws with ⟨r₁, w₁⟩
    rcases newBlock_bare hF hnew with ⟨rfl, e, rfl⟩ | ⟨rfl, hbare⟩
    · exact ⟨Nat.le_refl _, fun _ => rfl⟩
    dsimp only
    refine placed_tryCatch (P := (·.BareTree host ws ws.blocks.length)) hF ?_ ?_ hbare
    · refine Leaves.bind (.of_keeps (markShadow_bare _ isShadow)) (fun _ h => h.1) fun _ => ?_
      refine Leaves.bind (.of_keeps (Keeps.forIn fields _ fun ⟨name, value⟩ _ =>
        Keeps.bind (setField_bare _ name value) fun _ => Keeps.pure _)) (fun _ h => h.1)
        fun _ => ?_
      refine Leaves.bind (Q := (·.OpenTree host ws ws.blocks.length []))
        (fun w h => placeInputs_opens _ inputs hnames hblocks hshadows w (h.openTree _))
        (fun _ h => h.1) fun _ => ?_
      exact Leaves.bind (placeNext_grafts _ next hchained) (fun _ h => h) fun _ _ h => h
    · exact Yields.bind fun _ => Yields.bind fun _ => Yields.bind fun _ =>
        Yields.bind fun _ => Yields.pure _
termination_by s => sizeOf s

/-- Filling the root's inputs in order keeps the new tree; each name is filled once. -/
theorem placeInputs_opens (id : Nat) {ws₀ : Workspace} :
    ∀ l : List (String × Plug BlockState),
    (l.map (·.1)).Nodup → (∀ p ∈ l.map (·.2), ∀ s ∈ p.block, s.UniqueInputs) →
    (∀ p ∈ l.map (·.2), ∀ s ∈ p.shadow, s.UniqueInputs) →
    Leaves (·.OpenTree host ws₀ id (l.map (·.1))) (·.OpenTree host ws₀ id [])
      (placeInputs host id l)
  | [], _, _, _ => by
    rw [placeInputs]
    exact fun _ h => h
  | (name, ⟨some s, sh⟩) :: rest, hnames, hblocks, hshadows => by
    rw [placeInputs]
    obtain ⟨hn, hrest⟩ := List.nodup_cons.mp hnames
    refine Leaves.bind (plugInto_opens id name false s (hblocks _ List.mem_cons_self s rfl) hn)
      (fun _ h => h.mono (List.nil_subset _)) fun _ => ?_
    exact placeInputs_opens id rest hrest (fun p hp => hblocks p (List.mem_cons_of_mem _ hp))
      (fun p hp => hshadows p (List.mem_cons_of_mem _ hp))
  | (name, ⟨none, some s⟩) :: rest, hnames, hblocks, hshadows => by
    rw [placeInputs]
    obtain ⟨hn, hrest⟩ := List.nodup_cons.mp hnames
    refine Leaves.bind (plugInto_opens id name true s (hshadows _ List.mem_cons_self s rfl) hn)
      (fun _ h => h.mono (List.nil_subset _)) fun _ => ?_
    exact placeInputs_opens id rest hrest (fun p hp => hblocks p (List.mem_cons_of_mem _ hp))
      (fun p hp => hshadows p (List.mem_cons_of_mem _ hp))
  | (name, ⟨none, none⟩) :: rest, hnames, hblocks, hshadows => by
    rw [placeInputs]
    -- nothing to place: the name is passed over
    intro w h
    exact placeInputs_opens id rest (List.nodup_cons.mp hnames).2
      (fun p hp => hblocks p (List.mem_cons_of_mem _ hp))
      (fun p hp => hshadows p (List.mem_cons_of_mem _ hp)) w
      (h.mono (List.subset_cons_self _ _))
termination_by l => sizeOf l

/-- Placing a child and plugging it into the root's input of a free name grafts it on, or leaves
the workspace reading as before. -/
theorem plugInto_opens (id : Nat) (name : String) (isShadow : Bool) (s : BlockState)
    (hs : s.UniqueInputs) {names : List String} (hn : name ∉ names) {ws₀ : Workspace} :
    Leaves (·.OpenTree host ws₀ id (name :: names)) (·.OpenTree host ws₀ id names)
      (plugInto host id name isShadow s) := by
  rintro w ⟨hA, b, hb, hfree⟩
  rw [plugInto]
  refine placeChild_leaves (Q := (·.OpenTree host ws₀ id names)) hA.forest
    (placeAs_placed isShadow s hs w hA.forest)
    (fun w' hlen heq => ?_) (fun child w₂ r w₃ hC hc => ?_)
  · exact ⟨hA.of_get?_eq hlen heq, b, by rw [heq]; exact hb,
      hfree.mono (List.subset_cons_self _ _)⟩
  · exact connect_grafts hA hC (by rw [hC.old id (lt_length_of_get? hb)]; exact hb) hfree hn hc
termination_by sizeOf s + 1

/-- Placing the block chained after the root and chaining it grafts it on, or leaves the
workspace reading as before. -/
theorem placeNext_grafts (id : Nat) {ws₀ : Workspace} : ∀ next : Option (Plug BlockState),
    (∀ p ∈ next, ∀ s ∈ p.block, s.UniqueInputs) →
    Leaves (·.OpenTree host ws₀ id []) (·.AddsTree host ws₀ id) (placeNext host id next)
  | some ⟨some s, sh⟩, hs => by
    rw [placeNext]
    rintro w ⟨hA, b, hb, hfree⟩
    refine placeChild_leaves (Q := (·.AddsTree host ws₀ id)) hA.forest
      (placeAs_placed false s (hs _ rfl s rfl) w hA.forest)
      (fun w' hlen heq => hA.of_get?_eq hlen heq) (fun child w₂ r w₃ hC hc => ?_)
    exact connectNext_grafts hA hC (by rw [hC.old id (lt_length_of_get? hb)]; exact hb) hfree.1 hc
  | some ⟨none, _⟩, _ => by
    unfold placeNext
    exact fun _ h => h.1
  | none, _ => by
    unfold placeNext
    exact fun _ h => h.1
termination_by next => sizeOf next
end

/-- **Placing a block tree is all or nothing.** From a forest, and for a state whose every node
names each input once, placing the state either fails and leaves every block as it was, the
store only grown by empty slots, or succeeds with a block `id` and leaves every block there was
as it was, while the new blocks are exactly the subtree of `id`, which is new and top-level. The
workspace stays a forest either way. -/
theorem place_all_or_nothing {host : Host} {ws ws' : Workspace} {s : BlockState}
    {r : Except HostError Nat} (hF : ws.Forest) (hs : s.UniqueInputs)
    (h : (place host s).run.run ws = (r, ws')) :
    ws'.Forest ∧ ws.blocks.length ≤ ws'.blocks.length ∧
      (∀ e, r = .error e → ∀ i, ws'.get? i = ws.get? i) ∧
      ∀ id, r = .ok id → (∀ i, i < ws.blocks.length → ws'.get? i = ws.get? i) ∧
        ws.blocks.length ≤ id ∧ ws'.parentOf id = none ∧
        ∀ i, ws.blocks.length ≤ i → ((∃ b, ws'.get? i = some b) ↔ ws'.Below id i) := by
  have hP : Placed host ws ((place host s).run.run ws) := placeAs_placed false s hs ws hF
  rw [h] at hP
  rcases r with e | id
  · obtain ⟨hlen, heq⟩ := hP
    exact ⟨hF.of_get?_eq heq, hlen, fun _ _ => heq, fun _ h => by cases h⟩
  · have hA : ws'.AddsTree host ws id := hP
    refine ⟨hA.forest, hA.length_le, fun _ h => (by cases h), fun id' h => ?_⟩
    cases h
    exact ⟨hA.old, hA.root_new, hA.root_top, hA.new_iff⟩

/-- A statement block with its dropdown set and a second block chained after it, placed in an
empty workspace. -/
theorem chained_place_all_or_nothing :
    let host : Host := { definitions := [("S", Op.switchPlan .statement)] }
    let s : BlockState :=
      { type := "S", fields := [("S", .str "B")], next := some { block := some { type := "S" } } }
    let r := (place host s).run.run {}
    ({} : Workspace).Forest ∧ s.UniqueInputs ∧
      r.2.Forest ∧ ({} : Workspace).blocks.length ≤ r.2.blocks.length ∧
      (∀ e, r.1 = .error e → ∀ i, r.2.get? i = ({} : Workspace).get? i) ∧
      ∀ id, r.1 = .ok id → (∀ i, i < ({} : Workspace).blocks.length →
          r.2.get? i = ({} : Workspace).get? i) ∧
        ({} : Workspace).blocks.length ≤ id ∧ r.2.parentOf id = none ∧
        ∀ i, ({} : Workspace).blocks.length ≤ i → ((∃ b, r.2.get? i = some b) ↔ r.2.Below id i) := by
  intro host s r
  have hF : ({} : Workspace).Forest := (wellFormed_empty host).forest
  have hleaf : ({ type := "S" } : BlockState).UniqueInputs :=
    .mk List.nodup_nil (by simp) (by simp) (by simp)
  have hs : s.UniqueInputs := .mk List.nodup_nil (by simp) (by simp) (by simpa using hleaf)
  exact ⟨hF, hs, place_all_or_nothing hF hs rfl⟩

end WorkspaceM

end Blockwork
