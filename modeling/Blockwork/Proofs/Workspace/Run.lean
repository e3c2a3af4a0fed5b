import Blockwork.Workspace

/-!
# Running workspace operations

Workspace operations are programs in `WorkspaceM`: they read and change the workspace and may
stop with an error, keeping what they changed before stopping. This file gives

* the equations that run such a program one step at a time (`run_bind`, `run_tryCatch`, ...);
* the effect of the three ways the block store is written (a slot set, a slot changed in place, a
  block appended) on what `Workspace.get?` reads back;
* `Keeps P m`, the statement that `m` keeps a property `P` of the workspace **whether it succeeds
  or fails**, with the lemmas that carry it through sequencing, error handling and loops.

Every invariant of the later files is shown operation by operation through `Keeps`: an editing
session keeps the invariant because each of its operations does, and an operation built from
others (placing a whole block tree) keeps it because its parts do.
-/

namespace Blockwork

namespace Workspace

/-! ### Reading the store back -/

theorem lt_length_of_get? {ws : Workspace} {i : Nat} {b : Block} (h : ws.get? i = some b) :
    i < ws.blocks.length := by
  unfold get? at h
  rcases hi : ws.blocks[i]? with _ | o
  · rw [hi] at h; simp at h
  · exact (List.getElem?_eq_some_iff.mp hi).1

theorem get?_eq_none_of_le {ws : Workspace} {i : Nat} (h : ws.blocks.length ≤ i) :
    ws.get? i = none := by
  simp [get?, List.getElem?_eq_none h]

variable (ws : Workspace)

/-- Writing a slot: the slot reads back what was written when it exists. -/
@[simp] theorem get?_write (i j : Nat) (o : Option Block) :
    (ws.write i o).get? j = if i = j then (if i < ws.blocks.length then o else none) else ws.get? j := by
  simp only [write, get?, List.getElem?_set]
  split
  · split <;> rfl
  · rfl

/-- Changing a slot in place: only the live block of that slot changes. -/
@[simp] theorem get?_change (i j : Nat) (f : Block → Block) :
    (ws.change i f).get? j = if i = j then (ws.get? j).map f else ws.get? j := by
  simp only [change, get?, List.getElem?_modify]
  rcases ws.blocks[j]? with _ | _ | b <;> split <;> rfl

/-- Appending a block: it takes the first id past the old ones. -/
@[simp] theorem get?_push (b : Block) (j : Nat) :
    (ws.push b).get? j = if j = ws.blocks.length then some b else ws.get? j := by
  unfold push get?
  rcases Nat.lt_trichotomy j ws.blocks.length with h | rfl | h
  · rw [if_neg (Nat.ne_of_lt h), List.getElem?_append_left h]
  · simp
  · rw [if_neg (Nat.ne_of_gt h), List.getElem?_append_right (Nat.le_of_lt h),
      List.getElem?_eq_none (by simp; omega), List.getElem?_eq_none (Nat.le_of_lt h)]

@[simp] theorem length_write (i : Nat) (o : Option Block) :
    (ws.write i o).blocks.length = ws.blocks.length := List.length_set ..

@[simp] theorem length_change (i : Nat) (f : Block → Block) :
    (ws.change i f).blocks.length = ws.blocks.length := List.length_modify ..

@[simp] theorem length_push (b : Block) : (ws.push b).blocks.length = ws.blocks.length + 1 := by
  simp [push]

/-! ### Properties of every live block -/

/-- Every live block has the property `Q`. -/
def All (Q : Block → Prop) (ws : Workspace) : Prop := ∀ i b, ws.get? i = some b → Q b

namespace All

variable {Q : Block → Prop} {ws}

theorem change (h : ws.All Q) {f : Block → Block} (hf : ∀ b, Q b → Q (f b)) (i : Nat) :
    (ws.change i f).All Q := by
  intro j b hb
  rw [get?_change] at hb
  split at hb
  · obtain ⟨b₀, h₀, rfl⟩ := Option.map_eq_some_iff.mp hb
    exact hf b₀ (h j b₀ h₀)
  · exact h j b hb

theorem write (h : ws.All Q) (i : Nat) {o : Option Block} (ho : ∀ b ∈ o, Q b) :
    (ws.write i o).All Q := by
  intro j b hb
  rw [get?_write] at hb
  split at hb
  · split at hb
    · exact ho b hb
    · cases hb
  · exact h j b hb

theorem push (h : ws.All Q) {b : Block} (hb : Q b) : (ws.push b).All Q := by
  intro j b' hb'
  rw [get?_push] at hb'
  split at hb'
  · cases hb'
    exact hb
  · exact h j b' hb'

end All

end Workspace

namespace WorkspaceM

/-! ### Running one step at a time -/

variable {α β : Type}

theorem run_bind (x : WorkspaceM α) (f : α → WorkspaceM β) (ws : Workspace) :
    (x >>= f).run.run ws = match x.run.run ws with
      | (.ok a, ws') => (f a).run.run ws'
      | (.error e, ws') => (.error e, ws') := by
  simp only [ExceptT.run_bind, StateT.run_bind]
  rcases x.run.run ws with ⟨_ | _, _⟩ <;> rfl

/-- A handler runs on the workspace the failed operation left behind. -/
theorem run_tryCatch (x : WorkspaceM α) (h : HostError → WorkspaceM α) (ws : Workspace) :
    (tryCatch x h).run.run ws = match x.run.run ws with
      | (.ok a, ws') => (.ok a, ws')
      | (.error e, ws') => (h e).run.run ws' := by
  show (ExceptT.tryCatch x h).run.run ws = _
  simp only [ExceptT.tryCatch, ExceptT.run_mk, StateT.run_bind]
  change (StateT.run (ExceptT.run x) ws >>= _) = _
  rcases x.run.run ws with ⟨_ | _, _⟩ <;> rfl

@[simp] theorem run_pure (a : α) (ws : Workspace) :
    (pure a : WorkspaceM α).run.run ws = (.ok a, ws) := rfl

@[simp] theorem run_throw (e : HostError) (ws : Workspace) :
    (throw e : WorkspaceM α).run.run ws = (.error e, ws) := rfl

@[simp] theorem run_get (ws : Workspace) :
    (get : WorkspaceM Workspace).run.run ws = (.ok ws, ws) := rfl

@[simp] theorem run_modify (f : Workspace → Workspace) (ws : Workspace) :
    (modify f : WorkspaceM Unit).run.run ws = (.ok (), f ws) := rfl

@[simp] theorem run_update (id : Nat) (f : Block → Block) (ws : Workspace) :
    (update id f).run.run ws = (.ok (), ws.change id f) := rfl

@[simp] theorem run_put (b : Block) (ws : Workspace) :
    (put b).run.run ws = (.ok (), ws.write b.id (some b)) := rfl

/-- Reading a live block changes nothing. -/
theorem run_block {id : Nat} {ws : Workspace} {b : Block} (h : ws.get? id = some b) :
    (block id).run.run ws = (.ok b, ws) := by
  simp only [block, run_bind, run_get, h]
  rfl

/-- Reading a missing block fails and changes nothing. -/
theorem run_block_none {id : Nat} {ws : Workspace} (h : ws.get? id = none) :
    (block id).run.run ws = (.error (.noSuchBlock id), ws) := by
  simp only [block, run_bind, run_get, h]
  rfl

/-- Whatever `block` returns, the workspace is the one it read. -/
theorem run_block_state (id : Nat) (ws : Workspace) : ((block id).run.run ws).2 = ws := by
  rcases h : ws.get? id with _ | b
  · rw [run_block_none h]
  · rw [run_block h]

/-! ### Properties kept through success and failure -/

/-- `m` keeps the property `P` of the workspace, whether it succeeds or fails. -/
def Keeps (P : Workspace → Prop) (m : WorkspaceM α) : Prop :=
  ∀ ws, P ws → P (m.run.run ws).2

namespace Keeps

variable {P : Workspace → Prop}

theorem pure (a : α) : Keeps P (Pure.pure a : WorkspaceM α) := fun _ h => h

theorem throw (e : HostError) : Keeps P (MonadExcept.throw e : WorkspaceM α) := fun _ h => h

theorem get : Keeps P (MonadState.get : WorkspaceM Workspace) := fun _ h => h

theorem block (id : Nat) : Keeps P (WorkspaceM.block id) := fun ws h => by
  rw [run_block_state]; exact h

theorem bind {x : WorkspaceM α} {f : α → WorkspaceM β} (hx : Keeps P x)
    (hf : ∀ a, Keeps P (f a)) : Keeps P (x >>= f) := by
  intro ws h
  rw [run_bind]
  rcases hr : x.run.run ws with ⟨_ | a, ws'⟩
  · have := hx ws h
    rw [hr] at this
    exact this
  · have := hx ws h
    rw [hr] at this
    exact hf a ws' this

theorem tryCatch {x : WorkspaceM α} {h : HostError → WorkspaceM α} (hx : Keeps P x)
    (hh : ∀ e, Keeps P (h e)) : Keeps P (MonadExcept.tryCatch x h) := by
  intro ws hw
  rw [run_tryCatch]
  rcases hr : x.run.run ws with ⟨e | a, ws'⟩
  · have := hx ws hw
    rw [hr] at this
    exact hh e ws' this
  · have := hx ws hw
    rw [hr] at this
    exact this

/-- Two properties kept are kept together. -/
theorem and {Q : Workspace → Prop} {m : WorkspaceM α} (hP : Keeps P m) (hQ : Keeps Q m) :
    Keeps (fun ws => P ws ∧ Q ws) m :=
  fun ws h => ⟨hP ws h.1, hQ ws h.2⟩

/-- `P` is kept from the workspaces where `Q` holds too, when the first step keeps both and what
follows keeps `P` from there. -/
theorem bind_from {Q : Workspace → Prop} {x : WorkspaceM α} {f : α → WorkspaceM β}
    (hx : Keeps (fun ws => P ws ∧ Q ws) x) (hf : ∀ a ws, P ws → Q ws → P ((f a).run.run ws).2)
    (ws : Workspace) (hP : P ws) (hQ : Q ws) : P ((x >>= f).run.run ws).2 := by
  have hboth := hx ws ⟨hP, hQ⟩
  rw [run_bind]
  rcases hr : x.run.run ws with ⟨_ | a, ws'⟩
  · rw [hr] at hboth
    exact hboth.1
  · rw [hr] at hboth
    exact hf a ws' hboth.1 hboth.2

/-- A handler that keeps `P` after a body that keeps `P` from the workspaces where `Q` holds too. -/
theorem tryCatch_from {Q : Workspace → Prop} {x : WorkspaceM α} {h : HostError → WorkspaceM α}
    (hx : ∀ ws, P ws → Q ws → P (x.run.run ws).2) (hh : ∀ e, Keeps P (h e)) (ws : Workspace)
    (hP : P ws) (hQ : Q ws) : P ((MonadExcept.tryCatch x h).run.run ws).2 := by
  have hbody := hx ws hP hQ
  rw [run_tryCatch]
  rcases hr : x.run.run ws with ⟨e | a, ws'⟩
  · rw [hr] at hbody
    exact hh e ws' hbody
  · rw [hr] at hbody
    exact hbody

/-- A loop keeps `P` when each pass does, however it ends. -/
theorem forIn {γ : Type} (l : List γ) (init : β) {f : γ → β → WorkspaceM (ForInStep β)}
    (hf : ∀ a b, Keeps P (f a b)) : Keeps P (ForIn.forIn l init f) := by
  induction l generalizing init with
  | nil => exact pure init
  | cons a as ih =>
    rw [List.forIn_cons]
    refine bind (hf a init) fun r => ?_
    cases r with
    | done b => exact pure b
    | yield b => exact ih b

theorem update {Q : Block → Prop} (id : Nat) {f : Block → Block} (hf : ∀ b, Q b → Q (f b)) :
    Keeps (Workspace.All Q) (WorkspaceM.update id f) := fun _ h => h.change hf id

end Keeps

end WorkspaceM

end Blockwork
