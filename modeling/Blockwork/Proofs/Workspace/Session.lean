import Blockwork.Proofs.Plan.Making
import Blockwork.Proofs.Workspace.Edit

/-!
# Editing sessions

An editing session starts from the built-in host and an empty workspace and takes steps: it
defines or redefines block types, replaces a type's generator, and runs workspace operations,
each of which may fail. This file shows that the workspace stays a forest through every session
whose redefinitions are **admitted**.

A redefinition replaces a type's plan under the blocks already made from it, and the next
layout of such a block (when one of its fields changes) turns its next connection on or off by
the new plan's kind. A `value` kind drops the next connection together with the block it holds,
whose parent link then points at a socket that is gone. So a redefinition as a `value` type is
admitted only when no live block of the type has a next connection (`Op.Admitted`); every other
step is always admitted.

Under that condition every step keeps `Workspace.WellFormed` (`Session.step_wellFormed`), and so
does every run (`Session.run_wellFormed`). The main theorem, `admitted_session_forest`, states
the forest for every admitted session, part by part, with what follows from it: the ancestor
search of a connection is exact, and unplugging or disposing of a live block succeeds.
-/

namespace Blockwork

/-- One step of an editing session. -/
inductive Op where
  | define (p : BlockPlan)
  | redefine (p : BlockPlan)
  | setGenerator (type : String) (g : Code.Generator)
  | newBlock (type : String)
  | connect (parent : Nat) (input : String) (child : Nat)
  | connectNext (previous next : Nat)
  | disconnect (id : Nat)
  | dispose (id : Nat)
  | setField (id : Nat) (field : String) (value : Json)
  | place (s : BlockState)

/-- A host and the workspace edited over it. -/
structure Session where
  host : Host := {}
  ws : Workspace := {}

namespace Session

/-- The built-in host and an empty workspace. -/
def init : Session := {}

/-- Runs a workspace operation; a failure keeps what was changed before it. -/
def edit {α : Type} (σ : Session) (m : WorkspaceM α) : Session :=
  { σ with ws := (m.run.run σ.ws).2 }

/-- Takes one step; a refused definition changes nothing. -/
def step (σ : Session) : Op → Session
  | .define p =>
    match σ.host.define p with
    | .ok host => { σ with host := host }
    | .error _ => σ
  | .redefine p => { σ with host := (σ.host.redefine p).1 }
  | .setGenerator t g => { σ with host := σ.host.setGenerator t g }
  | .newBlock t => σ.edit (WorkspaceM.newBlock σ.host t)
  | .connect p n c => σ.edit (WorkspaceM.connect p n c)
  | .connectNext p n => σ.edit (WorkspaceM.connectNext p n)
  | .disconnect x => σ.edit (WorkspaceM.disconnect x)
  | .dispose x => σ.edit (WorkspaceM.dispose x)
  | .setField x n v => σ.edit (WorkspaceM.setField σ.host x n v)
  | .place s => σ.edit (WorkspaceM.place σ.host s)

/-- Takes the steps in order. -/
def run (σ : Session) (ops : List Op) : Session := ops.foldl step σ

end Session

/-- A redefinition as a `value` type is admitted only when no live block of the type has a next
connection; every other step is admitted. -/
def Op.Admitted (σ : Session) : Op → Prop
  | .redefine p =>
    p.kind = .value → ∀ i b, σ.ws.get? i = some b → b.typeName = p.name → b.next = none
  | _ => True

namespace Session

/-- Every step of the run is admitted where it is taken. -/
def Admits (σ : Session) : List Op → Prop
  | [] => True
  | op :: ops => op.Admitted σ ∧ (σ.step op).Admits ops

end Session

namespace Workspace

variable {host host' : Host} {ws : Workspace}

/-- The invariant reads the host only through the plans of the live blocks' types. -/
theorem WellFormed.of_definitions (h : ws.WellFormed host)
    (hdef : ∀ i b, ws.get? i = some b →
      host'.definitions.lookup b.typeName = host.definitions.lookup b.typeName) :
    ws.WellFormed host' := by
  refine ⟨h.forest, fun i b hb => ?_⟩
  obtain ⟨p, hp, hk⟩ := h.fits i b hb
  exact ⟨p, (hdef i b hb).trans hp, hk⟩

/-- An admitted redefinition keeps the invariant: the blocks of the type fit the new plan. -/
theorem WellFormed.redefine (h : ws.WellFormed host) {p : BlockPlan}
    (hadm : p.kind = .value → ∀ i b, ws.get? i = some b → b.typeName = p.name → b.next = none) :
    ws.WellFormed (host.redefine p).1 := by
  refine ⟨h.forest, fun i b hb => ?_⟩
  show ∃ q, (setKey host.definitions p.name p).lookup b.typeName = some q ∧ _
  rw [lookup_setKey]
  by_cases ht : b.typeName = p.name
  · refine ⟨p, if_pos ht, fun hn hv => ?_⟩
    rw [hadm hv i b hb ht] at hn
    cases hn
  · rw [if_neg ht]
    exact h.fits i b hb

/-- A new definition keeps the invariant: no live block is of a type not yet defined. -/
theorem WellFormed.define (h : ws.WellFormed host) {p : BlockPlan} {host' : Host}
    (hd : host.define p = .ok host') : ws.WellFormed host' := by
  unfold Host.define at hd
  split at hd
  · cases hd
  rename_i hnew
  cases hd
  refine h.of_definitions fun i b hb => ?_
  show (setKey host.definitions p.name p).lookup b.typeName = _
  rw [lookup_setKey, if_neg]
  rintro ht
  obtain ⟨q, hq, -⟩ := h.fits i b hb
  rw [ht] at hq
  exact hnew (by simp [hq])

/-- The empty workspace. -/
theorem wellFormed_empty (host : Host) : ({} : Workspace).WellFormed host := by
  have hnone : ∀ i, ({} : Workspace).get? i = none := fun _ => rfl
  have hpar : ∀ i, ({} : Workspace).parentOf i = none := fun _ => rfl
  refine ⟨⟨fun {i b} hb => ?_, fun {i p} h => ?_, fun {i c} h => ?_, fun i => ?_, fun i h => ?_⟩,
    fun i b hb => ?_⟩
  · rw [hnone] at hb
    cases hb
  · rw [hpar] at h
    cases h
  · cases h
  · exact List.nodup_nil
  · obtain ⟨c, hc, -⟩ := Relation.TransGen.head'_iff.mp h
    rw [hpar] at hc
    cases hc
  · rw [hnone] at hb
    cases hb

end Workspace

namespace Session

open Workspace

/-- **One admitted step keeps the invariant**, whether it succeeds or fails. -/
theorem step_wellFormed {σ : Session} (h : σ.ws.WellFormed σ.host) {op : Op}
    (hop : op.Admitted σ) : (σ.step op).ws.WellFormed (σ.step op).host := by
  cases op with
  | define p =>
    simp only [step]
    split
    · rename_i host' hd
      exact h.define hd
    · exact h
  | redefine p => exact h.redefine hop
  | setGenerator t g => exact h.of_definitions fun _ _ _ => rfl
  | newBlock t => exact WorkspaceM.newBlock_wellFormed t σ.ws h
  | connect p n c => exact WorkspaceM.connect_wellFormed p n c σ.ws h
  | connectNext p n => exact WorkspaceM.connectNext_wellFormed p n σ.ws h
  | disconnect x => exact WorkspaceM.disconnect_wellFormed x σ.ws h
  | dispose x => exact WorkspaceM.dispose_wellFormed x σ.ws h
  | setField x n v => exact WorkspaceM.setField_wellFormed x n v σ.ws h
  | place s => exact WorkspaceM.placeAs_wellFormed false s σ.ws h

/-- **Every admitted run keeps the invariant.** -/
theorem run_wellFormed : ∀ {σ : Session} {ops : List Op}, σ.ws.WellFormed σ.host →
    σ.Admits ops → (σ.run ops).ws.WellFormed (σ.run ops).host
  | _, [], h, _ => h
  | σ, op :: ops, h, ⟨hop, hops⟩ => @run_wellFormed (σ.step op) ops (step_wellFormed h hop) hops

end Session

open Workspace WorkspaceM in
/-- **The workspace of every admitted session is a forest.** A live block's parent is live and
holds it in exactly one socket; what a live block's sockets hold is live with that block as
parent; no block is held twice; following parents never comes back. So the ancestor
search of a connection answers exactly, and unplugging or disposing of a live block succeeds,
disposal removing the block's whole subtree. -/
theorem admitted_session_forest (ops : List Op) (h : Session.init.Admits ops) :
    let ws := (Session.init.run ops).ws
    (∀ i b p, ws.get? i = some b → b.parent = some p →
      ∃ pb, ws.get? p = some pb ∧ pb.sockets.count i = 1) ∧
    (∀ i b c, ws.get? i = some b → c ∈ b.sockets →
      ∃ cb, ws.get? c = some cb ∧ cb.parent = some i) ∧
    ws.allSockets.Nodup ∧
    (∀ i, ¬ ws.Ancestor i i) ∧
    (∀ c x, ws.isAncestor c (ws.blocks.length + 1) (ws.parentOf x) = true ↔ ws.Ancestor c x) ∧
    (∀ x b, ws.get? x = some b →
      (∃ ws', (disconnect x).run.run ws = (.ok (), ws')) ∧
      ∃ ws', (dispose x).run.run ws = (.ok (), ws') ∧ ∀ i, ws.Below x i → ws'.get? i = none) := by
  intro ws
  have hF : ws.Forest := (Session.run_wellFormed (wellFormed_empty _) h).forest
  refine ⟨fun i b p hb hp => hF.count_sockets_parent hb hp, fun i b c hb hc => hF.held_live hb hc,
    hF.nodup_allSockets, hF.acyclic, hF.isAncestor_iff, fun x b hb => ⟨disconnect_ok hF hb, ?_⟩⟩
  obtain ⟨ws', hrun, -, hgone, -⟩ := run_dispose hF hb
  exact ⟨ws', hrun, hgone⟩

/-- A type `S` of kind `k` whose dropdown `S` picks its variant `A` or `B`. -/
def Op.switchPlan (k : BlockKind) : BlockPlan :=
  { name := "S", kind := k, orientation := .horizontal, categories := [], tooltip := "",
    helpUrl := "", colours := [],
    variants := .branch ⟨"S", [], [("S", branchDropdown "S" ["A", "B"])], none, none⟩
      [.leaf ⟨"A", [], [], none, none⟩ "%\x7bS\x7d", .leaf ⟨"B", [], [], none, none⟩ "%\x7bS\x7d"] }

/-- Two statement blocks of `S` chained, `S` redefined with kind `k` under them, then the first
block switched to its variant `B`. -/
def Op.switchSession (k : BlockKind) : List Op :=
  [.define (Op.switchPlan .statement), .newBlock "S", .newBlock "S", .connectNext 0 1,
    .redefine (Op.switchPlan k), .setField 0 "S" (.str "B")]

open Workspace WorkspaceM in
theorem statementSwitch_forest :
    Session.init.Admits (Op.switchSession .statement) ∧
    let ws := (Session.init.run (Op.switchSession .statement)).ws
    (∀ i b p, ws.get? i = some b → b.parent = some p →
      ∃ pb, ws.get? p = some pb ∧ pb.sockets.count i = 1) ∧
    (∀ i b c, ws.get? i = some b → c ∈ b.sockets →
      ∃ cb, ws.get? c = some cb ∧ cb.parent = some i) ∧
    ws.allSockets.Nodup ∧
    (∀ i, ¬ ws.Ancestor i i) ∧
    (∀ c x, ws.isAncestor c (ws.blocks.length + 1) (ws.parentOf x) = true ↔ ws.Ancestor c x) ∧
    (∀ x b, ws.get? x = some b →
      (∃ ws', (disconnect x).run.run ws = (.ok (), ws')) ∧
      ∃ ws', (dispose x).run.run ws = (.ok (), ws') ∧ ∀ i, ws.Below x i → ws'.get? i = none) := by
  have hadm : Session.init.Admits (Op.switchSession .statement) := by
    simp [Op.switchSession, Session.Admits, Op.Admitted, Op.switchPlan]
  exact ⟨hadm, admitted_session_forest _ hadm⟩

/-- Without the admission condition the forest breaks: once `S` is a value type, switching the
first block lays it out without a next socket, and the second block keeps it as its parent. -/
theorem valueSwitch_not_forest : ¬ (Session.init.run (Op.switchSession .value)).ws.Forest := by
  intro hF
  have hlinks : (Session.init.run (Op.switchSession .value)).ws.parentOf 1 = some 0 ∧
      (Session.init.run (Op.switchSession .value)).ws.socketsOf 0 = [] := by
    decide +kernel
  have hheld := hF.held_by_parent hlinks.1
  rw [hlinks.2] at hheld
  cases hheld

end Blockwork
