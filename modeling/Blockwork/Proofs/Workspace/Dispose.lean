import Blockwork.Proofs.Workspace.Connect

/-!
# Disposing of a block

`dispose x` unplugs `x` and then removes it with everything plugged below it, visible or not.
`removeAll` keeps a worklist of blocks still to remove: it removes the first and puts the blocks
its sockets hold in front of the rest. On a forest this removes exactly the subtree of `x`
(`run_dispose`), so disposing keeps the forest (`dispose_forest`).

The worklist is followed against the forest `ws₀` it started from (`Pending`): the workspace is
`ws₀` with the part of the target already done removed, and what is left of the target is the
union of the worklist entries' subtrees, which are disjoint. Each pass removes one live block, so
the number of live blocks bounds the passes, and the fuel `dispose` gives is enough.
-/

namespace Blockwork

namespace Workspace

variable {ws ws' : Workspace}

/-! ### Subtrees -/

/-- `i` lies in the subtree of `x`: following parent links from `i` reaches `x`. -/
def Below (ws : Workspace) (x i : Nat) : Prop :=
  Relation.ReflTransGen (fun a b => ws.parentOf a = some b) i x

theorem Below.refl (x : Nat) : ws.Below x x := Relation.ReflTransGen.refl

/-- Climbing from a block of the subtree other than its root stays in the subtree. -/
theorem Below.parent {x i q : Nat} (h : ws.Below x i) (hne : i ≠ x)
    (hq : ws.parentOf i = some q) : ws.Below x q := by
  rcases Relation.ReflTransGen.cases_head h with rfl | ⟨d, hd, hdx⟩
  · exact absurd rfl hne
  · rw [hq] at hd
    cases hd
    exact hdx

/-- The path up from a block is a single chain, so two blocks a block lies below lie one below
the other. -/
theorem Below.total {a b i : Nat} (ha : ws.Below a i) (hb : ws.Below b i) :
    ws.Below a b ∨ ws.Below b a := by
  induction ha with
  | refl => exact Or.inr hb
  | tail _ hca ih =>
    rename_i c a
    rcases ih with hbc | hcb
    · exact Or.inl (hbc.tail hca)
    · rcases Relation.ReflTransGen.cases_head hcb with rfl | ⟨d, hcd, hdb⟩
      · exact Or.inl (Relation.ReflTransGen.single hca)
      · rw [hca] at hcd
        cases hcd
        exact Or.inr hdb

/-- A block does not lie below its own child. -/
theorem Forest.not_below_child (hF : ws.Forest) {c w : Nat} (hc : ws.parentOf c = some w) :
    ¬ ws.Below c w := fun h => hF.acyclic w (Relation.TransGen.tail' h hc)

/-- A block held by a socket of a block of the subtree is in the subtree. -/
theorem Forest.below_of_mem_socketsOf (hF : ws.Forest) {x i c : Nat} (hi : ws.Below x i)
    (hc : c ∈ ws.socketsOf i) : ws.Below x c :=
  Relation.ReflTransGen.head (hF.parent_of_held hc) hi

/-- The subtree of `w` is `w` and the subtrees of the blocks its sockets hold. -/
theorem Forest.below_iff (hF : ws.Forest) {w i : Nat} :
    ws.Below w i ↔ i = w ∨ ∃ c ∈ ws.socketsOf w, ws.Below c i := by
  constructor
  · intro h
    rcases Relation.ReflTransGen.cases_tail h with rfl | ⟨c, hic, hcw⟩
    · exact Or.inl rfl
    · exact Or.inr ⟨c, hF.held_by_parent hcw, hic⟩
  · rintro (rfl | ⟨c, hc, hic⟩)
    · exact Below.refl _
    · exact hic.tail (hF.parent_of_held hc)

/-- Two different blocks held by one block have disjoint subtrees. -/
theorem Forest.below_disjoint (hF : ws.Forest) {w c c' i : Nat} (hc : c ∈ ws.socketsOf w)
    (hc' : c' ∈ ws.socketsOf w) (hne : c ≠ c') (h : ws.Below c i) (h' : ws.Below c' i) :
    False := by
  have hpc := hF.parent_of_held hc
  have hpc' := hF.parent_of_held hc'
  -- the one lower down would have `w` above it on the way up to the other
  rcases Below.total h h' with hcc' | hc'c
  · exact hF.not_below_child hpc (hcc'.parent (Ne.symm hne) hpc')
  · exact hF.not_below_child hpc' (hc'c.parent hne hpc)

/-- Every block of the subtree of a live block is live. -/
theorem below_live {x i : Nat} (hx : ∃ b, ws.get? x = some b) (h : ws.Below x i) :
    ∃ b, ws.get? i = some b := by
  rcases Relation.ReflTransGen.cases_head h with rfl | ⟨d, hd, -⟩
  · exact hx
  · exact live_of_parentOf hd

/-- Emptying the slot of a live block leaves one live block fewer. -/
theorem size_write_none {i : Nat} {b : Block} (h : ws.get? i = some b) :
    (ws.write i none).size + 1 = ws.size := by
  have hlt := lt_length_of_get? h
  have hi : ws.blocks[i] = some b := by
    unfold get? at h
    rw [List.getElem?_eq_getElem hlt] at h
    simpa using h
  have hpos : 0 < ws.blocks.countP Option.isSome :=
    List.countP_pos_iff.mpr ⟨some b, List.mem_of_getElem hi, rfl⟩
  simp only [size, write, ← List.countP_eq_length_filter, List.countP_set hlt, hi]
  simp
  omega

theorem size_le_length (ws : Workspace) : ws.size ≤ ws.blocks.length := List.length_filter_le _ _

/-! ### The worklist -/

/-- Where `removeAll` stands, against the forest `ws₀` it started from, when removing the
target `T` with the worklist `W`: the blocks of `T` outside the subtrees of `W` are gone, nothing
else has changed, and `W` holds live blocks whose subtrees are disjoint and inside `T`. -/
structure Pending (ws₀ : Workspace) (T : Nat → Prop) (ws : Workspace) (W : List Nat) :
    Prop where
  gone : ∀ i, T i → (∀ w ∈ W, ¬ ws₀.Below w i) → ws.get? i = none
  kept : ∀ i, (¬ T i ∨ ∃ w ∈ W, ws₀.Below w i) → ws.get? i = ws₀.get? i
  length_eq : ws.blocks.length = ws₀.blocks.length
  live : ∀ w ∈ W, ∃ b, ws₀.get? w = some b
  inside : ∀ w ∈ W, ∀ i, ws₀.Below w i → T i
  disjoint : W.Pairwise fun a b => ∀ i, ws₀.Below a i → ¬ ws₀.Below b i

variable {ws₀ : Workspace} {T : Nat → Prop}

/-- The blocks `removeAll` queues after a block are the ones its sockets hold. -/
theorem mem_queued {b : Block} {c : Nat} :
    c ∈ (b.arenaTargets ++ (b.next.bind (·.target)).toList).reverse ↔ c ∈ b.sockets := by
  simp [Block.sockets, or_comm]

/-- Off `w`, the subtrees of a worklist headed by `w` are those of the blocks `w` holds, queued
in its place, and those of the rest. -/
theorem Forest.below_queued_iff (hF : ws₀.Forest) {w i : Nat} {b : Block}
    (hb : ws₀.get? w = some b) (hwi : i ≠ w) (rest : List Nat) :
    (∃ u ∈ w :: rest, ws₀.Below u i) ↔
      ∃ u ∈ (b.arenaTargets ++ (b.next.bind (·.target)).toList).reverse ++ rest,
        ws₀.Below u i := by
  simp only [List.mem_cons, List.mem_append, mem_queued, ← socketsOf_of_get? hb]
  constructor
  · rintro ⟨u, rfl | hu, hui⟩
    · rcases hF.below_iff.mp hui with rfl | ⟨c, hc, hci⟩
      · exact absurd rfl hwi
      · exact ⟨c, Or.inl hc, hci⟩
    · exact ⟨u, Or.inr hu, hui⟩
  · rintro ⟨u, hu | hu, hui⟩
    · exact ⟨w, Or.inl rfl, hF.below_iff.mpr (Or.inr ⟨u, hu, hui⟩)⟩
    · exact ⟨u, Or.inr hu, hui⟩

/-- Queueing the blocks `w` holds in its place keeps the subtrees of the worklist apart. -/
theorem Forest.queued_disjoint (hF : ws₀.Forest) {w : Nat} {b : Block} (hb : ws₀.get? w = some b)
    {rest : List Nat}
    (hW : (w :: rest).Pairwise fun a c => ∀ i, ws₀.Below a i → ¬ ws₀.Below c i) :
    ((b.arenaTargets ++ (b.next.bind (·.target)).toList).reverse ++ rest).Pairwise
      fun a c => ∀ i, ws₀.Below a i → ¬ ws₀.Below c i := by
  have hsock : ws₀.socketsOf w = b.sockets := socketsOf_of_get? hb
  have hhead := List.pairwise_cons.mp hW
  have hnd : (b.arenaTargets ++ (b.next.bind (·.target)).toList).reverse.Nodup := by
    have h := hF.sockets_nodup w
    rw [hsock] at h
    rw [List.nodup_reverse]
    have hperm : ((b.next.bind (·.target)).toList ++ b.arenaTargets).Perm
        (b.arenaTargets ++ (b.next.bind (·.target)).toList) := List.perm_append_comm
    exact hperm.nodup_iff.mp h
  refine List.pairwise_append.mpr ⟨?_, hhead.2, fun c hc r hr i hci hri => ?_⟩
  · refine hnd.imp_of_mem fun {c c'} hc hc' hne i hci hc'i => ?_
    rw [mem_queued, ← hsock] at hc hc'
    exact hF.below_disjoint hc hc' hne hci hc'i
  · -- a block held by `w` lies below `w`, whose subtree misses the rest of the worklist
    rw [mem_queued, ← hsock] at hc
    exact hhead.1 r hr i (hci.tail (hF.parent_of_held hc)) hri

/-- **One pass of the worklist.** The first block is live and is the one `ws₀` had; emptying its
slot and queueing what its sockets hold keeps `Pending`. -/
theorem Pending.step (hF : ws₀.Forest) {w : Nat} {rest : List Nat}
    (hP : Pending ws₀ T ws (w :: rest)) :
    ∃ b, ws.get? w = some b ∧ ws₀.get? w = some b ∧
      Pending ws₀ T (ws.write w none)
        ((b.arenaTargets ++ (b.next.bind (·.target)).toList).reverse ++ rest) := by
  obtain ⟨b, hb⟩ := hP.live w List.mem_cons_self
  have hw : ws.get? w = some b := by
    rw [hP.kept w (Or.inr ⟨w, List.mem_cons_self, Below.refl w⟩), hb]
  have hsock : ws₀.socketsOf w = b.sockets := socketsOf_of_get? hb
  have hhead := List.pairwise_cons.mp hP.disjoint
  refine ⟨b, hw, hb, ⟨fun i hT hi => ?_, fun i hi => ?_, ?_, fun c hc => ?_, fun c hc i hci => ?_,
    hF.queued_disjoint hb hP.disjoint⟩⟩
  · rw [get?_write]
    by_cases hwi : w = i
    · rw [if_pos hwi, ite_self]
    · rw [if_neg hwi]
      refine hP.gone i hT fun u hu hui => ?_
      obtain ⟨u', hu', hu'i⟩ := (hF.below_queued_iff hb (Ne.symm hwi) rest).mp ⟨u, hu, hui⟩
      exact hi u' hu' hu'i
  · rw [get?_write]
    by_cases hwi : w = i
    · -- the emptied block is in `T` and in no subtree still queued
      subst hwi
      exfalso
      rcases hi with hT | ⟨c, hc, hcw⟩
      · exact hT (hP.inside w List.mem_cons_self w (Below.refl w))
      rcases List.mem_append.mp hc with hc | hc
      · rw [mem_queued, ← hsock] at hc
        exact hF.not_below_child (hF.parent_of_held hc) hcw
      · exact hhead.1 c hc w (Below.refl w) hcw
    · rw [if_neg hwi]
      refine hP.kept i ?_
      rcases hi with hT | hu
      · exact Or.inl hT
      · exact Or.inr ((hF.below_queued_iff hb (Ne.symm hwi) rest).mpr hu)
  · rw [length_write, hP.length_eq]
  · rcases List.mem_append.mp hc with hc | hc
    · rw [mem_queued, ← hsock] at hc
      exact live_of_parentOf (hF.parent_of_held hc)
    · exact hP.live c (List.mem_cons_of_mem w hc)
  · rcases List.mem_append.mp hc with hc | hc
    · rw [mem_queued, ← hsock] at hc
      exact hP.inside w List.mem_cons_self i (hci.tail (hF.parent_of_held hc))
    · exact hP.inside c (List.mem_cons_of_mem w hc) i hci

/-- The subtree of `x` only depends on the parent links of the blocks other than `x`. -/
theorem Below.congr {x i : Nat} (h : ∀ j, j ≠ x → ws'.parentOf j = ws.parentOf j)
    (hb : ws'.Below x i) : ws.Below x i := by
  induction hb using Relation.ReflTransGen.head_induction_on with
  | refl => exact Below.refl x
  | @head a c hac _ ih =>
    by_cases hax : a = x
    · subst hax
      exact Below.refl a
    · exact Relation.ReflTransGen.head (by rw [← h a hax]; exact hac) ih

end Workspace

namespace WorkspaceM

open Workspace

variable {ws ws₀ : Workspace} {T : Nat → Prop}

/-- **The worklist run.** From where `Pending` stands, with more fuel than there are live blocks,
`removeAll` succeeds and removes what is left of the target. -/
theorem run_removeAll (hF : ws₀.Forest) :
    ∀ (fuel : Nat) (ws : Workspace) (W : List Nat), Pending ws₀ T ws W → ws.size < fuel →
      ∃ ws', (removeAll fuel W).run.run ws = (.ok (), ws') ∧ Pending ws₀ T ws' []
  | 0, _, _, _, h => absurd h (Nat.not_lt_zero _)
  | fuel + 1, ws, [], hP, _ => ⟨ws, rfl, hP⟩
  | fuel + 1, ws, w :: rest, hP, hfuel => by
    obtain ⟨b, hw, -, hP'⟩ := hP.step hF
    -- the pass empties a live slot, so the fuel left still beats the live blocks
    have hsize := size_write_none hw
    obtain ⟨ws', hrun, hdone⟩ := run_removeAll hF fuel _ _ hP' (by omega)
    refine ⟨ws', ?_, hdone⟩
    simp only [removeAll, run_bind, run_block hw, run_modify]
    exact hrun

/-- Removing the subtree of a live block of a forest, with the fuel `dispose` gives. -/
theorem run_removeAll_subtree (hF : ws.Forest) {x : Nat} (hx : ∃ b, ws.get? x = some b) :
    ∃ ws', (removeAll (ws.blocks.length + 1) [x]).run.run ws = (.ok (), ws') ∧
      Pending ws (ws.Below x) ws' [] := by
  refine run_removeAll hF _ ws [x] ⟨fun i hT hi => ?_, fun i _ => rfl, rfl, ?_, ?_, ?_⟩
    (Nat.lt_succ_of_le (size_le_length ws))
  · exact absurd hT (hi x List.mem_cons_self)
  · intro w hw
    rw [List.mem_singleton.mp hw]
    exact hx
  · intro w hw i hi
    rw [List.mem_singleton.mp hw] at hi
    exact hi
  · exact List.pairwise_singleton _ _

/-- Disposing of a live block of a forest: it is unplugged, and then its subtree in the
unplugged workspace is removed. -/
theorem dispose_cases (hF : ws.Forest) {x : Nat} {xb : Block} (hx : ws.get? x = some xb) :
    ∃ ws₁ ws', (disconnect x).run.run ws = (.ok (), ws₁) ∧ (dispose x).run.run ws = (.ok (), ws') ∧
      Pending ws₁ (ws₁.Below x) ws' [] := by
  obtain ⟨ws₁, h₁⟩ := disconnect_ok hF hx
  have hF₁ : ws₁.Forest := by simpa [h₁] using disconnect_forest x ws hF
  -- unplugging keeps the block itself
  have hx₁ : ∃ b, ws₁.get? x = some b := by
    simpa [h₁] using disconnect_at (Q := fun _ => True) (fun _ _ _ => trivial) (fun _ _ => trivial)
      x x ws ⟨xb, hx, trivial⟩
  obtain ⟨ws', h', hP⟩ := run_removeAll_subtree hF₁ hx₁
  refine ⟨ws₁, ws', h₁, ?_, hP⟩
  simp only [dispose, run_bind, h₁, run_get]
  exact h'

/-- **Disposing keeps the forest**, whether it succeeds or fails. -/
theorem dispose_forest (x : Nat) : Keeps Forest (dispose x) := by
  intro ws hF
  rcases hx : ws.get? x with _ | xb
  · -- unplugging a missing block fails before anything changes
    simp only [dispose, disconnect, run_bind, run_block_none hx]
    exact hF
  obtain ⟨ws₁, ws', h₁, h', hP⟩ := dispose_cases hF hx
  have hF₁ : ws₁.Forest := by simpa [h₁] using disconnect_forest x ws hF
  have htop : ws₁.parentOf x = none := disconnect_ok_top h₁
  rw [h']
  refine hF₁.remove (ws₁.Below x) (fun i hi => hP.gone i hi (by simp))
    (fun i hi => hP.kept i (Or.inl hi)) (fun hi hc => hF₁.below_of_mem_socketsOf hi hc)
    (fun {i c} hi hc hxc => hi ?_)
  -- a block held outside the subtree is not in it: the root of the subtree has no parent
  have hci : ws₁.parentOf c = some i := hF₁.parent_of_held hc
  by_cases hcx : c = x
  · rw [hcx, htop] at hci
    cases hci
  · exact hxc.parent hcx hci

/-- **Disposing of a live block** succeeds and removes exactly its subtree. Every other block
stays as it was, but for its parent, which lets go of it. -/
theorem run_dispose (hF : ws.Forest) {x : Nat} {xb : Block} (hx : ws.get? x = some xb) :
    ∃ ws', (dispose x).run.run ws = (.ok (), ws') ∧ ws'.blocks.length = ws.blocks.length ∧
      (∀ i, ws.Below x i → ws'.get? i = none) ∧
      ∀ i, ¬ ws.Below x i →
        ws'.get? i = if ws.parentOf x = some i then (ws.get? i).map (·.release x) else ws.get? i := by
  obtain ⟨ws₁, ws', h₁, h', hP⟩ := dispose_cases hF hx
  -- unplugging leaves the subtree of `x` as it was
  have hbelow : ∀ i, ws₁.Below x i ↔ ws.Below x i := fun i =>
    ⟨Below.congr fun j hj => disconnect_parentOf_ne h₁ hj,
      Below.congr fun j hj => (disconnect_parentOf_ne h₁ hj).symm⟩
  have hlen : ws₁.blocks.length = ws.blocks.length := by
    rcases disconnect_cases h₁ with ⟨rfl, -⟩ | ⟨p, xb, pb, -, -, -, -, rfl⟩ <;> simp
  refine ⟨ws', h', hP.length_eq.trans hlen, fun i hi => hP.gone i ((hbelow i).mpr hi) (by simp),
    fun i hi => ?_⟩
  have hix : i ≠ x := fun h => hi (by rw [h]; exact Below.refl x)
  rw [hP.kept i (Or.inl (mt (hbelow i).mp hi)), disconnect_get?_ne h₁ hix]

/-! ### The hierarchy

Disposal keeps the hierarchy without a picture of the subtree: each block goes when no live
block holds it, and what it held then has no live holder either. -/

/-- **Removing blocks keeps the hierarchy** when no live block holds a block still to remove. -/
theorem removeAll_hierarchy : ∀ (fuel : Nat) (W : List Nat) (ws : Workspace), ws.Hierarchy →
    (∀ w ∈ W, ∀ i, w ∉ ws.socketsOf i) → ((removeAll fuel W).run.run ws).2.Hierarchy
  | 0, _, _, hH, _ => hH
  | _ + 1, [], _, hH, _ => hH
  | fuel + 1, w :: rest, ws, hH, hfree => by
    rcases hw : ws.get? w with _ | b
    · simp only [removeAll, run_bind, run_block_none hw]
      exact hH
    simp only [removeAll, run_bind, run_block hw, run_modify]
    refine removeAll_hierarchy fuel _ _ (hH.drop (hfree w List.mem_cons_self)) fun c hc i => ?_
    rw [socketsOf_write_none]
    split
    · exact List.not_mem_nil
    rename_i hwi
    rcases List.mem_append.mp hc with hc | hc
    · -- what `w` held has `w` as its parent, so no other block holds it
      rw [mem_queued, ← socketsOf_of_get? hw] at hc
      intro hci
      exact hwi (Option.some.inj ((hH.parent_of_held hc).symm.trans (hH.parent_of_held hci)))
    · exact hfree c (List.mem_cons_of_mem w hc) i

/-- **Disposing keeps the hierarchy**, whether it succeeds or fails. -/
theorem dispose_hierarchy (x : Nat) : Keeps Hierarchy (dispose x) := by
  intro ws hH
  have hkeep := disconnect_hierarchy x ws hH
  simp only [dispose, run_bind]
  rcases h₁ : (disconnect x).run.run ws with ⟨_ | _, ws₁⟩
  · simpa [h₁] using hkeep
  have hH₁ : ws₁.Hierarchy := by simpa [h₁] using hkeep
  simp only [run_get]
  -- once unplugged, the block has no parent, so nothing holds it
  refine removeAll_hierarchy _ [x] ws₁ hH₁ fun w hw => ?_
  rw [List.mem_singleton.mp hw]
  exact hH₁.not_held (disconnect_ok_top h₁)

end WorkspaceM

end Blockwork
