import Blockwork.Proofs.Workspace.Frame

/-!
# Disposing removes exactly a subtree

The subtree of a block is what its sockets reach: the block, the blocks its next connection and
the connections of its inputs hold (hidden inputs included), what theirs hold, and so on
(`Workspace.Reaches`). On a forest this is the set of blocks whose parent links climb to the
block (`Workspace.Below`, through which `run_dispose` is proved), since each link is recorded on
both of its ends (`reaches_iff_below`).

Disposing of a live block of a forest then succeeds and does what `Workspace.Disposed` lists
(`dispose_removes_subtree`): the live blocks afterwards are those before less the subtree; every
block outside the subtree is as it was, except the block's former parent, which has let go of it;
and that parent's socket that held it holds nothing, while every other socket outside the
subtree holds what it held.
-/

namespace Blockwork

namespace Workspace

variable {ws ws' : Workspace}

/-- `i` lies in the subtree of `x`: following the blocks that sockets hold from `x` reaches `i`. -/
def Reaches (ws : Workspace) (x i : Nat) : Prop :=
  Relation.ReflTransGen (fun a b => b ∈ ws.socketsOf a) x i

/-- On a forest, going down through sockets and climbing through parents meet the same
blocks: each connection is recorded on both of its ends. -/
theorem Forest.reaches_iff_below (hF : ws.Forest) {x i : Nat} : ws.Reaches x i ↔ ws.Below x i :=
  ⟨fun h => Relation.ReflTransGen.mono (fun _ _ hab => hF.parent_of_held hab) _ _
      (Relation.ReflTransGen.swap _ _ h),
    fun h => Relation.ReflTransGen.mono (fun _ _ hab => hF.held_by_parent hab) _ _
      (Relation.ReflTransGen.swap _ _ h)⟩

/-- What disposing of `x` did to the workspace `ws`, leaving `ws'`: see the module comment. -/
structure Disposed (ws ws' : Workspace) (x : Nat) : Prop where
  live : ∀ i, (ws'.get? i).isSome ↔ (ws.get? i).isSome ∧ ¬ ws.Reaches x i
  kept : ∀ i, ¬ ws.Reaches x i →
    ws'.get? i = if ws.parentOf x = some i then (ws.get? i).map (·.release x) else ws.get? i
  holds : ∀ i s, ¬ ws.Reaches x i →
    ws'.holds i s = if ws.holds i s = some x then none else ws.holds i s

/-- Outside the subtree of `x`, letting go of `x` empties the one socket that held it: only its
parent held it, and the parent's sockets hold nothing twice. -/
theorem Forest.holds_released (hF : ws.Forest) {x i : Nat} (s : Socket)
    (hget : ws'.get? i = if ws.parentOf x = some i then (ws.get? i).map (·.release x)
      else ws.get? i) :
    ws'.holds i s = if ws.holds i s = some x then none else ws.holds i s := by
  split at hget
  · rename_i hpar
    obtain ⟨pb, hpb⟩ := live_of_mem_socketsOf (hF.held_by_parent hpar)
    have hnd := hF.sockets_nodup i
    rw [socketsOf_of_get? hpb] at hnd
    rw [hpb, Option.map_some] at hget
    rw [holds_of_get? hget, holds_of_get? hpb, Block.holds_release _ _ _ hnd]
  · -- a block other than the parent holds no socket with `x` in it
    rename_i hpar
    have hno : ws.holds i s ≠ some x := fun h => hpar (hF.parentOf_of_holds h)
    rw [if_neg hno]
    simp only [holds, hget]

end Workspace

namespace WorkspaceM

open Workspace

/-- **Disposing of a live block removes exactly its subtree.** On a forest, disposing of a live
block succeeds; afterwards the live blocks are those before less the blocks its sockets reach,
hidden inputs included, and every other block is as it was, but for its former parent, whose
socket that held it now holds nothing. -/
theorem dispose_removes_subtree {ws : Workspace} (hF : ws.Forest) {x : Nat}
    (hx : (ws.get? x).isSome) :
    ∃ ws', (dispose x).run.run ws = (.ok (), ws') ∧ ws.Disposed ws' x := by
  obtain ⟨xb, hxb⟩ := Option.isSome_iff_exists.mp hx
  obtain ⟨ws', hrun, -, hgone, hkept⟩ := run_dispose hF hxb
  have hkept' : ∀ i, ¬ ws.Reaches x i → ws'.get? i =
      if ws.parentOf x = some i then (ws.get? i).map (·.release x) else ws.get? i :=
    fun i hi => hkept i (mt hF.reaches_iff_below.mpr hi)
  refine ⟨ws', hrun, ⟨fun i => ?_, hkept', fun i s hi => hF.holds_released s (hkept' i hi)⟩⟩
  by_cases hi : ws.Reaches x i
  · -- the subtree is gone
    rw [hgone i (hF.reaches_iff_below.mp hi)]
    simp [hi]
  · -- outside it, a block is live after exactly when it was before
    rw [hkept' i hi]
    split <;> simp [hi]

/-- In the session that nests block `2` in block `1` and block `1` in block `0`, disposing of
block `1` removes its subtree. -/
theorem nested_dispose_removes_subtree :
    let ws := (Session.init.run Op.nestedSession).ws
    ws.Forest ∧ (ws.get? 1).isSome ∧
      ∃ ws', (dispose 1).run.run ws = (.ok (), ws') ∧ ws.Disposed ws' 1 := by
  intro ws
  have hadm : Session.init.Admits Op.nestedSession := by
    simp [Op.nestedSession, Session.Admits, Op.Admitted]
  have hF : ws.Forest := (Session.run_wellFormed (wellFormed_empty _) hadm).forest
  have hlive : (ws.get? 1).isSome := by decide +kernel
  exact ⟨hF, hlive, dispose_removes_subtree hF hlive⟩

end WorkspaceM

end Blockwork
