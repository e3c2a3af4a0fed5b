import Blockwork.Proofs.Workspace.Session

/-!
# Connections keep their checks

Connecting checks that a block fits the socket it goes into: a block plugged into a statement
input or chained after another needs a previous connection, one plugged into any other input an
output, and that connection must be compatible with the socket's (`Block.Passes`).
`Workspace.Compatible` says that every connection between live blocks passes that check, and
`Workspace.ChecksHold` spells it out input by input.

Moving and removing blocks keeps it: unplugging and removing only take connections away, and a new
connection is made only after the check (`connect_compatible`, `connectNext_compatible`). Setting
a field does not: the layout it causes takes the block's output, previous and next checks from the
new active leaf and never looks at the other end of a connection. So compatibility lasts through
the sessions that set fields only on blocks plugged into nothing and with nothing chained after
them (`detached_session_compatible`), and a block switched to a variant of another output type
where it is plugged in breaks it (`retype_breaks_compatibility`).

A block's sockets are listed with their connections in `Block.slots`, each marked whether a
statement block plugs into it. Compatibility reads a socket's connection and the child's only
through their checks, so a step that changes targets but not checks is invisible to it.
-/

namespace Blockwork

/-- The socket an input offers, marked whether statement blocks plug into it. -/
def Input.slot (i : Input) : Option (Bool × Connection) :=
  i.connection.map ((i.kind == .statement), ·)

namespace Block

/-- The sockets of a block's inputs, shown or hidden, in arena order. -/
def inputSlots (b : Block) : List (Bool × Connection) :=
  b.inputArena.toList.filterMap Input.slot

/-- A block's sockets with their connections, each marked whether statement blocks plug into it:
the next connection, then every input of the arena. -/
def slots (b : Block) : List (Bool × Connection) :=
  (b.next.map (true, ·)).toList ++ b.inputSlots

/-- The connection of a block that a socket plugs into: the previous connection for a statement
socket, the output otherwise. -/
def connectionFor (c : Block) (statement : Bool) : Option Connection :=
  if statement then c.previous else c.output

/-- `c` passes the check a socket `s` of the given sort makes. -/
def Passes (c : Block) (statement : Bool) (s : Connection) : Prop :=
  ∃ k, c.connectionFor statement = some k ∧ s.compatible k = true

/-- The check of the connection a socket of the given sort plugs into. -/
def checkFor (c : Block) (statement : Bool) : Option (Option (List String)) :=
  (c.connectionFor statement).map (·.check)

end Block

/-- Every connection between live blocks passes the check connecting made. -/
def Workspace.Compatible (ws : Workspace) : Prop :=
  ∀ p pb c cb st s, ws.get? p = some pb → ws.get? c = some cb → (st, s) ∈ pb.slots →
    s.target = some c → cb.Passes st s

namespace Connection

/-- Compatibility reads only the checks. -/
theorem compatible_congr {a a' k k' : Connection} (ha : a'.check = a.check)
    (hk : k'.check = k.check) : a'.compatible k' = a.compatible k := by
  unfold compatible
  rw [ha, hk]

end Connection

/-- An input offers a socket exactly when it has a connection. -/
theorem Input.slot_eq_some {i : Input} {st : Bool} {s : Connection} :
    i.slot = some (st, s) ↔ i.connection = some s ∧ st = (i.kind == .statement) := by
  rcases hc : i.connection with _ | k
  · simp [Input.slot, hc]
  · simp [Input.slot, hc, and_comm, eq_comm]

namespace Block

variable {b c c' : Block} {st : Bool} {s s' : Connection}

/-- Passing reads only the checks of the socket and of the child. -/
theorem Passes.congr (h : c.Passes st s) (hs : s'.check = s.check)
    (hc : c'.checkFor st = c.checkFor st) : c'.Passes st s' := by
  obtain ⟨k, hk, hcomp⟩ := h
  unfold checkFor at hc
  rw [hk] at hc
  obtain ⟨k', hk', hkk⟩ := Option.map_eq_some_iff.mp hc
  exact ⟨k', hk', by rw [Connection.compatible_congr hs hkk]; exact hcomp⟩

/-- The next socket is a statement socket, there exactly when the next connection is. -/
theorem mem_toList_next {o : Option Connection} :
    (st, s) ∈ (o.map (true, ·)).toList ↔ o = some s ∧ st = true := by
  cases o <;> simp [and_comm, eq_comm]

/-! ### Steps on one block -/

@[simp] theorem slots_unplug : b.unplug.slots = b.slots := rfl

@[simp] theorem slots_hangFrom (p : Nat) (s : Bool) : (b.hangFrom p s).slots = b.slots := by
  unfold hangFrom
  split <;> rfl

@[simp] theorem checkFor_release (x : Nat) (st : Bool) :
    (b.release x).checkFor st = b.checkFor st := by
  unfold release
  split <;> rfl

@[simp] theorem checkFor_unplug (st : Bool) : b.unplug.checkFor st = b.checkFor st := by
  cases st <;> simp [checkFor, connectionFor, unplug, Option.map_map, Function.comp_def]

@[simp] theorem checkFor_hangFrom (p : Nat) (s st : Bool) :
    (b.hangFrom p s).checkFor st = b.checkFor st := by
  unfold hangFrom
  split <;> cases st <;> simp [checkFor, connectionFor, Option.map_map, Function.comp_def]

@[simp] theorem checkFor_plugInput (k x : Nat) (st : Bool) :
    (b.plugInput k x).checkFor st = b.checkFor st := rfl

@[simp] theorem checkFor_plugNext (x : Nat) (st : Bool) :
    (b.plugNext x).checkFor st = b.checkFor st := rfl

/-- Releasing a block holds nothing new: a socket it changes holds nothing afterwards. -/
theorem mem_slots_release {x c : Nat} (h : (st, s) ∈ (b.release x).slots)
    (ht : s.target = some c) : (st, s) ∈ b.slots := by
  unfold release at h
  split at h
  · simp only [slots, List.mem_append] at h ⊢
    rcases h with h | h
    · -- the next connection lost its target
      obtain ⟨hn, -⟩ := mem_toList_next.mp h
      obtain ⟨n, -, rfl⟩ := Option.map_eq_some_iff.mp hn
      simp at ht
    · exact Or.inr h
  · simp only [slots, inputSlots, List.mem_append, Array.toList_map, List.filterMap_map] at h ⊢
    rcases h with h | h
    · exact Or.inl h
    · refine Or.inr ?_
      obtain ⟨i, hi, hslot⟩ := List.mem_filterMap.mp h
      refine List.mem_filterMap.mpr ⟨i, hi, ?_⟩
      dsimp only [Function.comp_def] at hslot
      split at hslot
      · -- the input that held `x` lost its target
        obtain ⟨hc, -⟩ := Input.slot_eq_some.mp hslot
        obtain ⟨k, -, rfl⟩ := Option.map_eq_some_iff.mp hc
        simp at ht
      · exact hslot

/-- An entry of a list with one entry changed is an old entry or the changed one. -/
theorem mem_modify_cases {α : Type} {f : α → α} {y : α} :
    ∀ {l : List α} {k : Nat}, y ∈ l.modify k f → y ∈ l ∨ ∃ a, l[k]? = some a ∧ y = f a
  | [], _, h => by simp at h
  | a :: l, 0, h => by
    rw [List.modify_zero_cons] at h
    rcases List.mem_cons.mp h with rfl | h
    · exact Or.inr ⟨a, rfl, rfl⟩
    · exact Or.inl (List.mem_cons_of_mem a h)
  | a :: l, k + 1, h => by
    rw [List.modify_succ_cons] at h
    rcases List.mem_cons.mp h with rfl | h
    · exact Or.inl List.mem_cons_self
    · rcases mem_modify_cases h with h | ⟨a', ha', rfl⟩
      · exact Or.inl (List.mem_cons_of_mem a h)
      · exact Or.inr ⟨a', by simpa using ha', rfl⟩

/-- Plugging `x` into the input at `k` changes one socket, which now holds `x`. -/
theorem mem_slots_plugInput {k x : Nat} (h : (st, s) ∈ (b.plugInput k x).slots) :
    (st, s) ∈ b.slots ∨ ∃ i s₀, b.input? k = some i ∧ i.slot = some (st, s₀) ∧
      s = { s₀ with target := some x } := by
  simp only [slots, inputSlots, plugInput, modifyInput, Array.toList_modify, List.mem_append] at h
  rcases h with h | h
  · exact Or.inl (List.mem_append_left _ h)
  obtain ⟨i', hi', hslot⟩ := List.mem_filterMap.mp h
  rcases mem_modify_cases hi' with hi' | ⟨i, hi, rfl⟩
  · exact Or.inl (List.mem_append_right _ (List.mem_filterMap.mpr ⟨i', hi', hslot⟩))
  · obtain ⟨hc, rfl⟩ := Input.slot_eq_some.mp hslot
    obtain ⟨s₀, hs₀, rfl⟩ := Option.map_eq_some_iff.mp hc
    exact Or.inr ⟨i, s₀, by simpa [input?] using hi, Input.slot_eq_some.mpr ⟨hs₀, rfl⟩, rfl⟩

/-- Plugging `x` into the next connection changes it, and it now holds `x`. -/
theorem mem_slots_plugNext {x : Nat} (h : (st, s) ∈ (b.plugNext x).slots) :
    (st, s) ∈ b.slots ∨
      ∃ n, b.next = some n ∧ st = true ∧ s = { n with target := some x } := by
  simp only [slots, plugNext, List.mem_append] at h
  rcases h with h | h
  · obtain ⟨hplug, rfl⟩ := mem_toList_next.mp h
    obtain ⟨n, hn, rfl⟩ := Option.map_eq_some_iff.mp hplug
    exact Or.inr ⟨n, hn, rfl, rfl⟩
  · exact Or.inl (List.mem_append_right _ h)

/-- What a socket holds is among the block's sockets. -/
theorem mem_sockets_of_slots {c : Nat} (h : (st, s) ∈ b.slots) (ht : s.target = some c) :
    c ∈ b.sockets := by
  simp only [slots, inputSlots, List.mem_append] at h
  rcases h with h | h
  · obtain ⟨hn, -⟩ := mem_toList_next.mp h
    exact List.mem_append_left _ (by simp [hn, ht])
  · obtain ⟨i, hi, hslot⟩ := List.mem_filterMap.mp h
    obtain ⟨hc, -⟩ := Input.slot_eq_some.mp hslot
    exact List.mem_append_right _
      (List.mem_filterMap.mpr ⟨i, hi, by simp [Input.target, hc, ht]⟩)

theorem Passes.release (h : c.Passes st s) (x : Nat) : (c.release x).Passes st s :=
  h.congr rfl (checkFor_release x st)

theorem Passes.unplug (h : c.Passes st s) : c.unplug.Passes st s :=
  h.congr rfl (checkFor_unplug st)

/-! ### The socket a connection fills -/

/-- The sort and check of the socket of the input at `k`. -/
def socketAt (b : Block) (k : Nat) : Option (Bool × Option (List String)) :=
  (b.input? k).bind fun i => i.slot.map fun p => (p.1, p.2.check)

/-- The input at `k` is a socket of sort `st` with the check of `s`. -/
def OffersInput (b : Block) (k : Nat) (st : Bool) (s : Connection) : Prop :=
  b.socketAt k = some (st, s.check)

/-- The next connection has the check of `s`. -/
def OffersNext (b : Block) (s : Connection) : Prop :=
  b.next.map (·.check) = some s.check

@[simp] theorem socketAt_release (x k : Nat) : (b.release x).socketAt k = b.socketAt k := by
  unfold release
  split
  · rfl
  · simp only [socketAt, input?, Array.getElem?_map]
    rcases b.inputArena[k]? with _ | i
    · rfl
    · simp only [Option.map_some, Option.bind_some]
      split
      · rcases hc : i.connection with _ | k <;> simp [Input.slot, hc]
      · rfl

@[simp] theorem next_check_release (x : Nat) :
    (b.release x).next.map (·.check) = b.next.map (·.check) := by
  unfold release
  split
  · simp [Option.map_map, Function.comp_def]
  · rfl

theorem OffersInput.release {k : Nat} (h : b.OffersInput k st s) (x : Nat) :
    (b.release x).OffersInput k st s := by
  rw [OffersInput, socketAt_release]
  exact h

theorem OffersNext.release (h : b.OffersNext s) (x : Nat) : (b.release x).OffersNext s := by
  rw [OffersNext, next_check_release]
  exact h

/-- Plugging `x` into an input that offers the check `c` passes leaves only sockets whose check
their block passes, or that were there before. -/
theorem OffersInput.plugInput_slots {k x : Nat} {st' : Bool} {s' : Connection}
    (h : b.OffersInput k st s) (hc : c.Passes st s) (hmem : (st', s') ∈ (b.plugInput k x).slots) :
    (st', s') ∈ b.slots ∨ s'.target = some x ∧ c.Passes st' s' := by
  rcases mem_slots_plugInput hmem with hold | ⟨i, s₀, hi, hslot, rfl⟩
  · exact Or.inl hold
  refine Or.inr ⟨rfl, ?_⟩
  have hat : b.socketAt k = some (st', s₀.check) := by simp [socketAt, hi, hslot]
  rw [OffersInput, hat, Option.some.injEq, Prod.mk.injEq] at h
  obtain ⟨rfl, hcheck⟩ := h
  exact hc.congr hcheck rfl

/-- The same for the next connection. -/
theorem OffersNext.plugNext_slots {x : Nat} {st' : Bool} {s' : Connection} (h : b.OffersNext s)
    (hc : c.Passes true s) (hmem : (st', s') ∈ (b.plugNext x).slots) :
    (st', s') ∈ b.slots ∨ s'.target = some x ∧ c.Passes st' s' := by
  rcases mem_slots_plugNext hmem with hold | ⟨n, hn, rfl, rfl⟩
  · exact Or.inl hold
  refine Or.inr ⟨rfl, hc.congr ?_ rfl⟩
  simpa [OffersNext, hn] using h

/-! ### Layouts keep the input sockets -/

/-- A layout writes field rows and the line: the input sockets stay as they were. -/
theorem inputSlots_layOut (line : List LineEntry) : (b.layOut line).inputSlots = b.inputSlots :=
  b.layOut_induct (·.inputSlots = b.inputSlots) line rfl fun b₀ e h => by
    simp only [inputSlots, modifyInput, Array.toList_modify] at h ⊢
    rw [filterMap_modify_of_comp (f := fun i => { i with fieldRow := e.fields }) (g := Input.slot)
      fun _ => rfl]
    exact h

/-- A block laid out again that held nothing in its next socket holds only what its input sockets
held: the layout keeps those, and a next socket it turns on holds what it held. -/
theorem mem_slots_relaid {k : BlockKind} {b' : Block} {x : Nat} (hr : b.Relaid k b')
    (hin : b'.inputSlots = b.inputSlots) (hn : b.next.bind (·.target) = none)
    (h : (st, s) ∈ b'.slots) (ht : s.target = some x) : (st, s) ∈ b.slots := by
  simp only [slots, List.mem_append] at h ⊢
  rcases h with h | h
  · exfalso
    have hn' : b'.next.bind (·.target) = none := by
      rcases hr.next with h' | ⟨c', h'⟩
      · rw [h', hn]
      · rw [h', Connection.toggle_target]
        split
        · exact hn
        · rfl
    obtain ⟨hb', -⟩ := mem_toList_next.mp h
    simp [hb', ht] at hn'
  · exact Or.inr (hin ▸ h)

end Block

namespace BlockPlan

variable {p : BlockPlan} {b b' : Block}

theorem inputSlots_configure (p : BlockPlan) (b : Block) (leaf : Leaf) :
    (p.configure b leaf).inputSlots = b.inputSlots := by
  have hl := b.inputSlots_layOut leaf.line
  cases hk : p.kind <;> simp only [configure, hk] <;> exact hl

/-- Reacting to a changed field keeps the input sockets. -/
theorem fieldChanged_inputSlots {name : String} (h : p.fieldChanged b name = .ok b') :
    b'.inputSlots = b.inputSlots :=
  fieldChanged_induct (fun b b' => b'.inputSlots = b.inputSlots) (fun _ => rfl)
    (fun h₁ h₂ => h₂.trans h₁) (fun _ _ _ => rfl) (fun b leaf => p.inputSlots_configure b leaf)
    (fun _ _ => rfl) h

end BlockPlan

namespace Workspace

variable {ws : Workspace}

/-- A change of one block that keeps the checks its connections offer and holds nothing new,
except in sockets whose check the block they now hold passes, keeps compatibility. -/
theorem Compatible.change (hC : ws.Compatible) (i : Nat) {f : Block → Block}
    (hchecks : ∀ b st, (f b).checkFor st = b.checkFor st)
    (hslots : ∀ b st s c, ws.get? i = some b → (st, s) ∈ (f b).slots → s.target = some c →
      (st, s) ∈ b.slots ∨ ∀ cb, (ws.change i f).get? c = some cb → cb.Passes st s) :
    (ws.change i f).Compatible := by
  intro p pb c cb st s hp hc hmem ht
  -- the block at `c` was there before, with the same checks
  obtain ⟨cb₀, hcb₀, hpass⟩ : ∃ cb₀, ws.get? c = some cb₀ ∧
      ∀ {st s}, cb₀.Passes st s → cb.Passes st s := by
    rw [get?_change] at hc
    split at hc
    · obtain ⟨cb₀, hcb₀, rfl⟩ := Option.map_eq_some_iff.mp hc
      exact ⟨cb₀, hcb₀, fun h => h.congr rfl (hchecks cb₀ _)⟩
    · exact ⟨cb, hc, id⟩
  have hc' := hc
  rw [get?_change] at hp
  split at hp
  · rename_i hip
    subst hip
    obtain ⟨pb₀, hpb₀, rfl⟩ := Option.map_eq_some_iff.mp hp
    rcases hslots pb₀ st s c hpb₀ hmem ht with hold | hnew
    · exact hpass (hC _ pb₀ c cb₀ st s hpb₀ hcb₀ hold ht)
    · exact hnew cb hc'
  · exact hpass (hC p pb c cb₀ st s hp hcb₀ hmem ht)

/-- A change that keeps the checks and holds nothing new keeps compatibility. -/
theorem Compatible.change_of_slots (hC : ws.Compatible) (i : Nat) {f : Block → Block}
    (hchecks : ∀ b st, (f b).checkFor st = b.checkFor st)
    (hslots : ∀ b st s c, (st, s) ∈ (f b).slots → s.target = some c → (st, s) ∈ b.slots) :
    (ws.change i f).Compatible :=
  hC.change i hchecks fun b st s c _ h ht => Or.inl (hslots b st s c h ht)

/-- Removing a block keeps compatibility. -/
theorem Compatible.write_none (hC : ws.Compatible) (i : Nat) : (ws.write i none).Compatible := by
  intro p pb c cb st s hp hc hmem ht
  rw [get?_write] at hp hc
  split at hp
  · split at hp <;> cases hp
  split at hc
  · split at hc <;> cases hc
  exact hC p pb c cb st s hp hc hmem ht

/-- Writing back a block that no socket holds, holding nothing new, keeps compatibility, whatever
checks it now offers. -/
theorem Compatible.write_unheld (hC : ws.Compatible) {i : Nat} {b b' : Block}
    (hb : ws.get? i = some b)
    (hfree : ∀ p pb st s, ws.get? p = some pb → (st, s) ∈ pb.slots → s.target ≠ some i)
    (hslots : ∀ st s c, (st, s) ∈ b'.slots → s.target = some c → (st, s) ∈ b.slots) :
    (ws.write i (some b')).Compatible := by
  have hi := lt_length_of_get? hb
  intro p pb c cb st s hp hc hmem ht
  rw [get?_write, if_pos hi] at hp hc
  -- what the written block holds it held before
  have hold : ∃ pb₀, ws.get? p = some pb₀ ∧ (st, s) ∈ pb₀.slots := by
    split at hp
    · rename_i hip
      subst hip
      cases hp
      exact ⟨b, hb, hslots st s c hmem ht⟩
    · exact ⟨pb, hp, hmem⟩
  obtain ⟨pb₀, hpb₀, hmem₀⟩ := hold
  split at hc
  · rename_i hic
    subst hic
    exact absurd ht (hfree p pb₀ st s hpb₀ hmem₀)
  · exact hC p pb₀ c cb st s hpb₀ hc hmem₀ ht

/-- No socket holds a detached block on a hierarchy. -/
theorem Detached.unheld {x : Nat} (hD : ws.Detached x) (hH : ws.Hierarchy) :
    ∀ p pb st s, ws.get? p = some pb → (st, s) ∈ pb.slots → s.target ≠ some x := by
  intro p pb st s hp hmem ht
  have hpx : ws.parentOf x = some p :=
    hH.parent_of_held (by rw [socketsOf_of_get? hp]; exact Block.mem_sockets_of_slots hmem ht)
  obtain ⟨xb, hxb⟩ := live_of_parentOf hpx
  rw [parentOf_of_get? hxb, (hD xb hxb).1] at hpx
  cases hpx

/-- Appending a block that holds nothing keeps compatibility on a hierarchy: no live block holds
the new id. -/
theorem Compatible.push (hC : ws.Compatible) (hH : ws.Hierarchy) {b : Block}
    (hs : b.sockets = []) : (ws.push b).Compatible := by
  intro p pb c cb st s hp hc hmem ht
  rw [get?_push] at hp hc
  split at hp
  · cases hp
    have := Block.mem_sockets_of_slots hmem ht
    rw [hs] at this
    cases this
  split at hc
  · rename_i hcn
    -- a block a socket holds has the holder as its parent, so it is live
    have hheld := hH.parent_of_held
      (by rw [socketsOf_of_get? hp]; exact Block.mem_sockets_of_slots hmem ht)
    obtain ⟨_, hlive⟩ := live_of_parentOf hheld
    exact absurd (lt_length_of_get? hlive) (by omega)
  · exact hC p pb c cb st s hp hc hmem ht

end Workspace

namespace WorkspaceM

open Workspace

variable {ws : Workspace}

/-! ### Moving and removing blocks -/

/-- Unplugging keeps compatibility, whether it succeeds or fails: it only takes connections
away. -/
theorem disconnect_compatible (x : Nat) : Keeps Compatible (disconnect x) := by
  intro ws hC
  rcases hr : (disconnect x).run.run ws with ⟨r, ws'⟩
  rcases disconnect_cases hr with ⟨rfl, -⟩ | ⟨p, xb, pb, -, -, -, -, rfl⟩
  · exact hC
  refine (hC.change_of_slots p (fun b st => Block.checkFor_release x st)
    fun b st s c h ht => Block.mem_slots_release h ht).change_of_slots x
    (fun b st => Block.checkFor_unplug st) fun b st s c h _ => ?_
  rwa [Block.slots_unplug] at h

section Plugging

/- The socket filled is described by `Q`, a property of the parent that unplugging keeps, and the
child passes the check `st`, `s₀` that `Q` offers: then the filled socket's new connection is
one its block passes. -/
variable {p c : Nat} {plug : Block → Block} {st : Bool} {s₀ : Connection} {Q : Block → Prop}
  (hrel : ∀ b x, Q b → Q (b.release x)) (hun : ∀ b, Q b → Q b.unplug)
  (hchecks : ∀ b st, (plug b).checkFor st = b.checkFor st)
  (hnew : ∀ pb cb : Block, Q pb → cb.Passes st s₀ → ∀ st' s', (st', s') ∈ (plug pb).slots →
    (st', s') ∈ pb.slots ∨ s'.target = some c ∧ cb.Passes st' s')
include hrel hun hchecks hnew

/-- Unplugging the child from its old place and plugging it into a socket whose check it passes
keeps compatibility. -/
theorem plug_compatible (stmt : Bool) (hC : ws.Compatible) (hne : c ≠ p)
    (hp : ∃ b, ws.get? p = some b ∧ Q b) (hc : ∃ b, ws.get? c = some b ∧ b.Passes st s₀) :
    Compatible ((do disconnect c; update p plug; update c (·.hangFrom p stmt) : WorkspaceM Unit)
      |>.run.run ws).2 := by
  have hkeep := disconnect_compatible c ws hC
  rw [run_bind]
  rcases hr : (disconnect c).run.run ws with ⟨_ | _, ws2⟩
  · simpa [hr] using hkeep
  simp only [run_bind, run_update]
  have hC2 : ws2.Compatible := by simpa [hr] using hkeep
  obtain ⟨pb, hpb, hQ⟩ : ∃ b, ws2.get? p = some b ∧ Q b := by
    simpa [hr] using disconnect_at hrel hun c p ws hp
  obtain ⟨cb, hcb, hpass⟩ : ∃ b, ws2.get? c = some b ∧ b.Passes st s₀ := by
    simpa [hr] using disconnect_at (fun _ x h => h.release x) (fun _ h => h.unplug) c c ws hc
  -- the parent's changed socket now holds `c`, which passes its check
  have hC3 : (ws2.change p plug).Compatible := by
    refine hC2.change p hchecks fun b st' s' x hb hmem hx => ?_
    obtain rfl : b = pb := Option.some.inj (hb.symm.trans hpb)
    rcases hnew b cb hQ hpass st' s' hmem with hold | ⟨hxc, hcp⟩
    · exact Or.inl hold
    refine Or.inr fun cb' hcb' => ?_
    obtain rfl : x = c := Option.some.inj (hx.symm.trans hxc)
    rw [get?_change, if_neg (Ne.symm hne), hcb, Option.some.injEq] at hcb'
    exact hcb' ▸ hcp
  exact hC3.change_of_slots c (fun b st => Block.checkFor_hangFrom p stmt st)
    fun b st s x h _ => by rwa [Block.slots_hangFrom] at h

/-- Linking keeps compatibility: the socket's old block is unplugged first. -/
theorem link_compatible {occ : Option Nat} (stmt : Bool) (hC : ws.Compatible) (hne : c ≠ p)
    (hp : ∃ b, ws.get? p = some b ∧ Q b) (hc : ∃ b, ws.get? c = some b ∧ b.Passes st s₀) :
    Compatible ((link p c occ plug stmt).run.run ws).2 := by
  cases occ with
  | none => exact plug_compatible hrel hun hchecks hnew stmt hC hne hp hc
  | some o =>
    have hkeep := disconnect_compatible o ws hC
    simp only [link]
    rw [run_bind]
    rcases hr : (disconnect o).run.run ws with ⟨_ | _, ws1⟩
    · simpa [hr] using hkeep
    exact plug_compatible hrel hun hchecks hnew stmt (by simpa [hr] using hkeep) hne
      (by simpa [hr] using disconnect_at hrel hun o p ws hp)
      (by simpa [hr] using disconnect_at (fun _ x h => h.release x) (fun _ h => h.unplug) o c ws hc)

end Plugging

/-- **Connecting keeps compatibility**, whether it succeeds or fails: the child is plugged in
only after it passed the input's check. -/
theorem connect_compatible (parent : Nat) (name : String) (child : Nat) :
    Keeps Compatible (connect parent name child) := by
  intro ws hC
  rcases hr : (connect parent name child).run.run ws with ⟨r, ws'⟩
  rcases connect_cases hr with ⟨rfl, -⟩ |
    ⟨pb, k, input, socket, hpb, ⟨cb, plug, hcb, hplug, hcompat⟩, -, hi, hs, hne, -, hlink⟩
  · exact hC
  rw [← hlink]
  -- the check made is the one the input's socket keeps asking through the unplugging
  have hoffer : pb.OffersInput k (input.kind == .statement) socket := by
    simp [Block.OffersInput, Block.socketAt, hi, Input.slot, hs]
  exact link_compatible (Q := (·.OffersInput k (input.kind == .statement) socket))
    (fun _ x h => h.release x) (fun _ h => h) (fun _ st => Block.checkFor_plugInput k child st)
    (fun _ _ hQ hcb _ _ hmem => hQ.plugInput_slots hcb hmem)
    _ hC (Ne.symm hne) ⟨pb, hpb, hoffer⟩ ⟨cb, hcb, plug, hplug, hcompat⟩

/-- **Chaining keeps compatibility**, whether it succeeds or fails. -/
theorem connectNext_compatible (previous next : Nat) :
    Keeps Compatible (connectNext previous next) := by
  intro ws hC
  rcases hr : (connectNext previous next).run.run ws with ⟨r, ws'⟩
  rcases connectNext_cases hr with ⟨rfl, -⟩ |
    ⟨pb, socket, hpb, ⟨nb, plug, hnb, hplug, hcompat⟩, hs, hne, -, hlink⟩
  · exact hC
  rw [← hlink]
  have hoffer : pb.OffersNext socket := by simp [Block.OffersNext, hs]
  exact link_compatible (Q := (·.OffersNext socket))
    (fun _ x h => h.release x) (fun _ h => h) (fun _ st => Block.checkFor_plugNext next st)
    (fun _ _ hQ hnb _ _ hmem => hQ.plugNext_slots hnb hmem)
    _ hC (Ne.symm hne) ⟨pb, hpb, hoffer⟩ ⟨nb, hnb, plug, hplug, hcompat⟩

/-- Removing blocks keeps compatibility. -/
theorem removeAll_compatible : ∀ (fuel : Nat) (W : List Nat), Keeps Compatible (removeAll fuel W)
  | 0, _ => Keeps.pure ()
  | _ + 1, [] => Keeps.pure ()
  | fuel + 1, w :: _ =>
    Keeps.bind (Keeps.block w) fun _ =>
      Keeps.bind (fun _ h => h.write_none w) fun _ => removeAll_compatible fuel _

/-- Disposing of a block keeps compatibility. -/
theorem dispose_compatible (x : Nat) : Keeps Compatible (dispose x) :=
  Keeps.bind (disconnect_compatible x) fun _ =>
    Keeps.bind Keeps.get fun ws => removeAll_compatible (ws.blocks.length + 1) [x]

/-! ### Making blocks and setting fields -/

variable {host : Host}

/-- Making a block keeps compatibility on a hierarchy: the new block holds nothing, and no block
holds its id. -/
theorem newBlock_compatible (type : String) :
    Keeps (fun ws => ws.Hierarchy ∧ ws.Compatible) (newBlock host type) := by
  rintro ws ⟨hH, hC⟩
  refine ⟨newBlock_hierarchy type ws hH, ?_⟩
  rcases h : (newBlock host type).run.run ws with ⟨_ | id, ws'⟩
  · rw [newBlock_error h]
    exact hC
  · obtain ⟨p, b, -, hs, -, rfl⟩ := newBlock_ok h
    exact hC.push hH ((BlockPlan.setUp_relaid hs).sockets fun _ => rfl)

/-- **Setting a field of a detached block keeps compatibility**: no socket holds the block, so
the checks its new layout offers are asked by nothing, and the layout keeps its input sockets. -/
theorem setField_compatible {id : Nat} (name : String) (value : Json) (hH : ws.Hierarchy)
    (hC : ws.Compatible) (hD : ws.Detached id) :
    ((setField host id name value).run.run ws).2.Compatible := by
  rcases h : (setField host id name value).run.run ws with ⟨r, ws'⟩
  rcases setField_cases h with rfl | ⟨b, i, g, hb, rfl | ⟨p, b₂, -, hb₂, rfl⟩⟩
  · exact hC
  all_goals
    have hid₀ : b.id = id := hH.id_eq hb
    -- the field is written first: a change of the fields alone
    have hC₁ : (ws.write id (some (b.modifyField i g))).Compatible :=
      hC.write_unheld hb (hD.unheld hH) fun _ _ _ hmem _ => hmem
  · rw [hid₀]
    exact hC₁
  -- then the layout the type's plan makes of the block
  have hr := BlockPlan.fieldChanged_relaid hb₂
  rw [show b₂.id = id from hr.id.trans hid₀, hid₀]
  have hb₁ : (ws.write id (some (b.modifyField i g))).get? id = some (b.modifyField i g) := by
    simp [lt_length_of_get? hb]
  have hH₁ := hH.write_relaid hb (b.relaid_modifyField .value i g)
  have hD₁ := hD.write_relaid hb (b.relaid_modifyField .value i g)
  exact hC₁.write_unheld hb₁ (hD₁.unheld hH₁) fun _ _ _ hmem ht =>
    Block.mem_slots_relaid hr (BlockPlan.fieldChanged_inputSlots hb₂) (hD₁ _ hb₁).2 hmem ht

/-- Every step of placing keeps the hierarchy together with compatibility. -/
theorem compatible_placeSteps : PlaceSteps host (fun ws => ws.Hierarchy ∧ ws.Compatible) where
  hierarchy h := h.1
  newBlock := newBlock_compatible
  markShadow id _ := Keeps.and (fun _ h => h.change id fun _ => ⟨rfl, rfl, rfl, rfl, rfl⟩)
    fun _ h => h.change_of_slots id (fun _ _ => rfl) fun _ _ _ _ h _ => h
  setField id name value _ h hD :=
    ⟨setField_hierarchy id name value _ h.1, setField_compatible name value h.1 h.2 hD⟩
  connect parent name child :=
    Keeps.and (connect_hierarchy parent name child) (connect_compatible parent name child)
  connectNext previous next :=
    Keeps.and (connectNext_hierarchy previous next) (connectNext_compatible previous next)
  dispose x := Keeps.and (dispose_hierarchy x) (dispose_compatible x)

end WorkspaceM

/-! ### Sessions -/

/-- A field is set only on a block plugged into nothing and with nothing chained after it; every
other step is allowed. -/
def Op.SetsDetached (σ : Session) : Op → Prop
  | .setField x _ _ => σ.ws.Detached x
  | _ => True

namespace Session

/-- Every field of the run is set on a detached block. -/
def DetachedSets (σ : Session) : List Op → Prop
  | [] => True
  | op :: ops => op.SetsDetached σ ∧ (σ.step op).DetachedSets ops

end Session

instance (ws : Workspace) (x : Nat) : Decidable (ws.Detached x) :=
  decidable_of_iff (∀ b ∈ ws.get? x, b.parent = none ∧ b.next.bind (·.target) = none) Iff.rfl

instance (σ : Session) : ∀ op : Op, Decidable (op.SetsDetached σ)
  | .setField x _ _ => inferInstanceAs (Decidable (σ.ws.Detached x))
  | .define _ | .redefine _ | .setGenerator _ _ | .newBlock _ | .connect _ _ _ | .connectNext _ _
  | .disconnect _ | .dispose _ | .place _ => isTrue trivial

instance Session.decidableDetachedSets :
    ∀ (σ : Session) (ops : List Op), Decidable (σ.DetachedSets ops)
  | _, [] => isTrue trivial
  | σ, op :: ops =>
    have := Session.decidableDetachedSets (σ.step op) ops
    inferInstanceAs (Decidable (op.SetsDetached σ ∧ (σ.step op).DetachedSets ops))

/-- Every connection between live blocks passes the check connecting made: a block held by an
input has the connection that the input's sort plugs into (its previous connection for a
statement input, its output otherwise), compatible with the input's; a block held by a next
connection has a previous connection compatible with it. -/
def Workspace.ChecksHold (ws : Workspace) : Prop :=
  (∀ p pb k i s c cb, ws.get? p = some pb → pb.input? k = some i → i.connection = some s →
    s.target = some c → ws.get? c = some cb →
    ∃ plug, (if i.kind = .statement then cb.previous else cb.output) = some plug ∧
      s.compatible plug = true) ∧
  (∀ p pb s c cb, ws.get? p = some pb → pb.next = some s → s.target = some c →
    ws.get? c = some cb → ∃ plug, cb.previous = some plug ∧ s.compatible plug = true)

namespace Block

variable {b : Block} {s : Connection}

theorem connectionFor_kind (c : Block) (k : InputKind) :
    c.connectionFor (k == .statement) = if k = .statement then c.previous else c.output := by
  cases k <;> rfl

theorem mem_slots_of_input {k : Nat} {i : Input} (hi : b.input? k = some i)
    (hs : i.connection = some s) : (i.kind == .statement, s) ∈ b.slots :=
  List.mem_append_right _ (List.mem_filterMap.mpr
    ⟨i, List.mem_of_getElem? (by simpa [input?] using hi), by simp [Input.slot, hs]⟩)

theorem mem_slots_of_next (hn : b.next = some s) : (true, s) ∈ b.slots :=
  List.mem_append_left _ (by simp [hn])

end Block

/-- Compatibility, read socket by socket. -/
theorem Workspace.Compatible.checksHold {ws : Workspace} (hC : ws.Compatible) : ws.ChecksHold := by
  refine ⟨fun p pb k i s c cb hp hi hs ht hc => ?_, fun p pb s c cb hp hn ht hc => ?_⟩
  · rw [← Block.connectionFor_kind]
    exact hC p pb c cb _ s hp hc (Block.mem_slots_of_input hi hs) ht
  · exact hC p pb c cb true s hp hc (Block.mem_slots_of_next hn) ht

namespace Workspace

theorem compatible_empty : ({} : Workspace).Compatible := by
  intro p pb c cb st s hp
  cases hp

end Workspace

namespace Session

open Workspace WorkspaceM

/-- One step that sets fields only on detached blocks keeps the hierarchy and compatibility. -/
theorem step_compatible {σ : Session} (h : σ.ws.Hierarchy ∧ σ.ws.Compatible) {op : Op}
    (hop : op.SetsDetached σ) : (σ.step op).ws.Hierarchy ∧ (σ.step op).ws.Compatible := by
  cases op with
  | define p =>
    simp only [step]
    split <;> exact h
  | redefine p => exact h
  | setGenerator t g => exact h
  | newBlock t => exact compatible_placeSteps.newBlock t σ.ws h
  | connect p n c => exact Keeps.and (connect_hierarchy p n c) (connect_compatible p n c) σ.ws h
  | connectNext p n =>
    exact Keeps.and (connectNext_hierarchy p n) (connectNext_compatible p n) σ.ws h
  | disconnect x => exact Keeps.and (disconnect_hierarchy x) (disconnect_compatible x) σ.ws h
  | dispose x => exact Keeps.and (dispose_hierarchy x) (dispose_compatible x) σ.ws h
  | setField x n v => exact compatible_placeSteps.setField x n v σ.ws h hop
  | place s => exact placeAs_keeps compatible_placeSteps false s σ.ws h

theorem run_compatible : ∀ {σ : Session} {ops : List Op},
    σ.ws.Hierarchy ∧ σ.ws.Compatible → σ.DetachedSets ops →
    (σ.run ops).ws.Hierarchy ∧ (σ.run ops).ws.Compatible
  | _, [], h, _ => h
  | σ, op :: ops, h, ⟨hop, hops⟩ =>
    @run_compatible (σ.step op) ops (step_compatible h hop) hops

end Session

/-- **Connections keep their checks through every session that sets fields only on detached
blocks**: every connection between live blocks passes the check connecting made. -/
theorem detached_session_compatible (ops : List Op) (h : Session.init.DetachedSets ops) :
    (Session.init.run ops).ws.ChecksHold :=
  (Session.run_compatible ⟨(Workspace.wellFormed_empty Session.init.host).forest.hierarchy,
    Workspace.compatible_empty⟩ h).2.checksHold

/-- A value type `V` whose dropdown `V` picks its variant `A`, of output `Number`, or `B`, of
output `String`. -/
def Op.retypePlan : BlockPlan :=
  { name := "V", kind := .value, orientation := .horizontal, categories := [], tooltip := "",
    helpUrl := "", colours := [],
    variants := .branch ⟨"V", [], [("V", branchDropdown "V" ["A", "B"])], none, none⟩
      [.leaf ⟨"A", [], [], some ⟨some ["Number"]⟩, none⟩ "%\x7bV\x7d",
       .leaf ⟨"B", [], [], some ⟨some ["String"]⟩, none⟩ "%\x7bV\x7d"] }

/-- A value type `P` with one input `X` that accepts `Number`. -/
def Op.holderPlan : BlockPlan :=
  { name := "P", kind := .value, orientation := .horizontal, categories := [], tooltip := "",
    helpUrl := "", colours := [],
    variants := .leaf ⟨"P", [("X", { name := "X", accepts := some ["Number"] })], [], none, none⟩
      "%\x7bX\x7d" }

/-- A block of `V` switched to `B` and refused by `X`, then switched back to `A` and plugged
into `X`: every field is set while the block is detached. -/
def Op.settleSession : List Op :=
  [.define Op.retypePlan, .define Op.holderPlan, .newBlock "V", .newBlock "P",
    .setField 0 "V" (.str "B"), .connect 1 "X" 0, .setField 0 "V" (.str "A"), .connect 1 "X" 0]

theorem settled_session_compatible :
    Session.init.DetachedSets Op.settleSession ∧
      (Session.init.run Op.settleSession).ws.ChecksHold :=
  ⟨by decide +kernel, detached_session_compatible Op.settleSession (by decide +kernel)⟩

/-- A block of `V` plugged into `X`, then switched to `B` where it is. -/
def Op.retypeSession : List Op :=
  [.define Op.retypePlan, .define Op.holderPlan, .newBlock "V", .newBlock "P", .connect 1 "X" 0,
    .setField 0 "V" (.str "B")]

/-- Setting a field where the block is plugged in breaks the check: the block of `V` switched to
`B` outputs `String` into the input `X` that accepts only `Number`. -/
theorem retype_breaks_compatibility : ¬ (Session.init.run Op.retypeSession).ws.ChecksHold := by
  rintro ⟨hinputs, -⟩
  -- block 1 holds block 0 in its input `X`, at index 0 of its arena
  have hheld : (((Session.init.run Op.retypeSession).ws.get? 1).bind fun pb =>
      (pb.input? 0).bind fun i => i.connection.bind fun s => s.target) = some 0 := by
    decide +kernel
  simp only [Option.bind_eq_some_iff] at hheld
  obtain ⟨pb, hpb, i, hi, s, hs, ht⟩ := hheld
  obtain ⟨cb, hcb⟩ : ∃ cb, (Session.init.run Op.retypeSession).ws.get? 0 = some cb :=
    Option.isSome_iff_exists.mp (by decide +kernel)
  obtain ⟨plug, hplug, hcompat⟩ := hinputs 1 pb 0 i s 0 cb hpb hi hs ht hcb
  -- what the kernel reads off the two blocks
  have hkind : i.kind = .value := by
    have h : (((Session.init.run Op.retypeSession).ws.get? 1).bind fun pb =>
        (pb.input? 0).map (·.kind)) = some .value := by decide +kernel
    simpa [hpb, hi] using h
  have hcheck : s.check = some ["Number"] := by
    have h : (((Session.init.run Op.retypeSession).ws.get? 1).bind fun pb =>
        (pb.input? 0).bind fun i => i.connection.map (·.check)) = some (some ["Number"]) := by
      decide +kernel
    simpa [hpb, hi, hs] using h
  have hout : cb.output.map (·.check) = some (some ["String"]) := by
    have h : (((Session.init.run Op.retypeSession).ws.get? 0).map fun cb =>
        cb.output.map (·.check)) = some (some (some ["String"])) := by decide +kernel
    simpa [hcb] using h
  rw [hkind, if_neg (by decide)] at hplug
  rw [hplug] at hout
  simp only [Option.map_some, Option.some.injEq] at hout
  rw [Connection.compatible, hcheck, hout] at hcompat
  exact absurd hcompat (by decide)

end Blockwork
