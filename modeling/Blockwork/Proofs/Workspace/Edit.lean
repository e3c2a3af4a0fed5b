import Blockwork.Proofs.Workspace.Dispose
import Blockwork.Proofs.Plan.Connections

/-!
# Editing a workspace over a host

A workspace is edited against a host: new blocks are made from the host's plans, and changing a
field lets the plan of the block's type lay the block out again. The layout turns the next
connection on or off by the kind of that plan, so the forest survives a layout only when a block
that holds something in its next connection is of a kind that keeps it.

`Workspace.WellFormed host ws` is the forest together with that agreement: every live block
**fits** the host (`Block.Fits`), that is, its type is defined, and it has a next connection only
if the kind of its type allows one. Every workspace operation keeps it, whether it succeeds or
fails.
-/

namespace Blockwork

/-- A block fits a host when its type is defined and has a next connection only if the kind of
its type allows one. -/
def Block.Fits (host : Host) (b : Block) : Prop :=
  ∃ p, host.definitions.lookup b.typeName = some p ∧ (b.next.isSome → p.kind ≠ .value)

/-- The invariant of a workspace edited over a host: a forest of blocks that fit the host. -/
structure Workspace.WellFormed (host : Host) (ws : Workspace) : Prop where
  forest : ws.Forest
  fits : ws.All (Block.Fits host)

namespace Block

variable {host : Host} {b b' : Block}

/-- Unplugging, plugging in and hanging keep a block's type and whether it has a next
connection, so they keep it fitting. -/
theorem Fits.of_links (h : b.Fits host) (ht : b'.typeName = b.typeName)
    (hn : b'.next.isSome = b.next.isSome) : b'.Fits host := by
  obtain ⟨p, hp, hk⟩ := h
  exact ⟨p, ht ▸ hp, hn ▸ hk⟩

/-- A fitting block is laid out by its type's plan without losing what its next connection
holds. -/
theorem Fits.kind_value {p : BlockPlan} (h : b.Fits host)
    (hp : host.definitions.lookup b.typeName = some p) (hv : p.kind = .value) : b.next = none := by
  obtain ⟨p', hp', hk⟩ := h
  rw [hp] at hp'
  cases hp'
  cases hn : b.next with
  | none => rfl
  | some n => exact absurd hv (hk (by simp [hn]))

/-- Laying a fitting block out by its type's plan keeps it fitting. -/
theorem Fits.relaid {p : BlockPlan} (h : b.Fits host)
    (hp : host.definitions.lookup b.typeName = some p) (hr : b.Relaid p.kind b') :
    b'.Fits host := by
  obtain ⟨p', hp', hk⟩ := h
  rw [hp] at hp'
  cases hp'
  refine ⟨p, hr.typeName ▸ hp, fun hn => ?_⟩
  rcases hr.next_isSome hn with hb | hk'
  · exact hk hb
  · exact hk'

theorem Fits.release (h : b.Fits host) (x : Nat) : (b.release x).Fits host :=
  h.of_links (release_typeName b x) (release_next_isSome b x)

theorem Fits.unplug (h : b.Fits host) : b.unplug.Fits host := h.of_links rfl rfl

theorem Fits.hangFrom (h : b.Fits host) (p : Nat) (s : Bool) : (b.hangFrom p s).Fits host :=
  h.of_links (hangFrom_typeName b p s) (by rw [hangFrom_next])

theorem Fits.plugInput (h : b.Fits host) (k c : Nat) : (b.plugInput k c).Fits host :=
  h.of_links rfl rfl

theorem Fits.plugNext (h : b.Fits host) (c : Nat) : (b.plugNext c).Fits host :=
  h.of_links rfl (plugNext_next_isSome b c)

end Block

theorem Host.lookup_of_definition {host : Host} {type : String} {p : BlockPlan}
    (h : host.definition type = .ok p) : host.definitions.lookup type = some p := by
  unfold Host.definition at h
  split at h
  · cases h
    assumption
  · cases h

namespace Workspace

variable {host : Host} {ws : Workspace}

theorem parentOf_write_some {i j : Nat} {b : Block} (hi : i < ws.blocks.length) :
    (ws.write i (some b)).parentOf j = if i = j then b.parent else ws.parentOf j := by
  unfold parentOf
  rw [get?_write]
  split
  · rfl
  · rfl

theorem socketsOf_write_some {i j : Nat} {b : Block} (hi : i < ws.blocks.length) :
    (ws.write i (some b)).socketsOf j = if i = j then b.sockets else ws.socketsOf j := by
  unfold socketsOf
  rw [get?_write]
  split
  · rfl
  · rfl

/-- Writing back a live block laid out again by its type's plan keeps the forest, when the block
fits the host: then the layout keeps what its next connection holds. -/
theorem Forest.write_relaid (hF : ws.Forest) {i : Nat} {b b' : Block} {p : BlockPlan}
    (hb : ws.get? i = some b) (hfit : b.Fits host)
    (hp : host.definitions.lookup b.typeName = some p) (hr : b.Relaid p.kind b') :
    (ws.write i (some b')).Forest := by
  have hi := lt_length_of_get? hb
  have hid : b'.id = i := hr.id.trans (hF.id_eq hb)
  have hs : b'.sockets = b.sockets := hr.sockets (hfit.kind_value hp)
  refine hF.congr (fun {j c} hc => ?_) (fun j => ?_) (fun j => ?_)
  · rw [get?_write] at hc
    split at hc
    · cases hc
      rename_i hij
      rw [hid, hij]
    · exact hF.id_eq hc
  · rw [parentOf_write_some hi]
    split
    · rename_i hij
      subst hij
      rw [hr.parent, parentOf_of_get? hb]
    · rfl
  · rw [socketsOf_write_some hi]
    split
    · rename_i hij
      subst hij
      rw [hs, socketsOf_of_get? hb]
    · rfl

/-- Writing back a live block laid out again by its type's plan keeps the invariant. -/
theorem WellFormed.write_relaid (hW : ws.WellFormed host) {i : Nat} {b b' : Block}
    {p : BlockPlan} (hb : ws.get? i = some b) (hp : host.definitions.lookup b.typeName = some p)
    (hr : b.Relaid p.kind b') : (ws.write i (some b')).WellFormed host := by
  refine ⟨hW.forest.write_relaid hb (hW.fits i b hb) hp hr, hW.fits.write i fun c hc => ?_⟩
  cases hc
  exact (hW.fits i b hb).relaid hp hr

/-- Changing a live block in a way the links do not see keeps the forest. -/
theorem Forest.change (hF : ws.Forest) (i : Nat) {f : Block → Block}
    (hf : ∀ b : Block, b.SameLinks (f b)) : (ws.change i f).Forest := by
  refine hF.congr (id_eq_change hF.id_eq fun b => (hf b).id)
    (parentOf_change_of_parent (fun b => (hf b).parent) i) (fun j => ?_)
  rw [socketsOf_change_of_sockets fun b => (hf b).sockets]

/-- Changing a live block in a way the links do not see keeps the invariant. -/
theorem WellFormed.change (hW : ws.WellFormed host) (i : Nat) {f : Block → Block}
    (hf : ∀ b : Block, b.SameLinks (f b)) : (ws.change i f).WellFormed host :=
  ⟨hW.forest.change i hf, hW.fits.change
    (fun b hb => hb.of_links (hf b).typeName (by rw [(hf b).next])) i⟩

/-- Writing back a live block laid out again keeps the hierarchy, whatever the kind: the layout
keeps the parent and can only drop sockets. -/
theorem Hierarchy.write_relaid (hH : ws.Hierarchy) {i : Nat} {b b' : Block} {k : BlockKind}
    (hb : ws.get? i = some b) (hr : b.Relaid k b') : (ws.write i (some b')).Hierarchy := by
  have hi := lt_length_of_get? hb
  have hpar : ∀ j, (ws.write i (some b')).parentOf j = ws.parentOf j := fun j => by
    rw [parentOf_write_some hi]
    split
    · rename_i hij
      subst hij
      rw [hr.parent, parentOf_of_get? hb]
    · rfl
  refine hH.shrink (fun {j c} hc => ?_) (fun j => ?_) (fun x y hxy => by rwa [← hpar x])
    (fun {_ c} _ => hpar c)
  · rw [get?_write] at hc
    split at hc
    · cases hc
      rename_i hij
      rw [hr.id, hH.id_eq hb, hij]
    · exact hH.id_eq hc
  · rw [socketsOf_write_some hi]
    split
    · rename_i hij
      subst hij
      rw [socketsOf_of_get? hb]
      exact hr.sockets_sublist
    · exact List.Sublist.refl _

/-- Changing a live block in a way the links do not see keeps the hierarchy. -/
theorem Hierarchy.change (hH : ws.Hierarchy) (i : Nat) {f : Block → Block}
    (hf : ∀ b : Block, b.SameLinks (f b)) : (ws.change i f).Hierarchy := by
  have hpar : ∀ j, (ws.change i f).parentOf j = ws.parentOf j :=
    parentOf_change_of_parent (fun b => (hf b).parent) i
  refine hH.shrink (id_eq_change hH.id_eq fun b => (hf b).id) (fun j => ?_)
    (fun x y hxy => by rwa [← hpar x]) (fun {_ c} _ => hpar c)
  rw [socketsOf_change_of_sockets fun b => (hf b).sockets]

/-- `x`, if live, is plugged into nothing and has nothing chained after it. -/
def Detached (ws : Workspace) (x : Nat) : Prop :=
  ∀ b, ws.get? x = some b → b.parent = none ∧ b.next.bind (·.target) = none

/-- A layout keeps a block detached: it keeps the parent, and a next connection it turns on
holds what it held, which was nothing. -/
theorem Detached.write_relaid {x i : Nat} {b b' : Block} {k : BlockKind} (hD : ws.Detached x)
    (hb : ws.get? i = some b) (hr : b.Relaid k b') : (ws.write i (some b')).Detached x := by
  intro c hc
  rw [get?_write] at hc
  split at hc
  · rename_i hix
    subst hix
    rw [if_pos (lt_length_of_get? hb)] at hc
    cases hc
    obtain ⟨hp, hn⟩ := hD b hb
    refine ⟨hr.parent.trans hp, ?_⟩
    rcases hr.next with h | ⟨c, h⟩
    · rw [h, hn]
    · rw [h, Connection.toggle_target]
      split
      · exact hn
      · rfl
  · exact hD c hc

theorem Detached.change {x i : Nat} {f : Block → Block} (hD : ws.Detached x)
    (hf : ∀ b : Block, b.SameLinks (f b)) : (ws.change i f).Detached x := by
  intro c hc
  rw [get?_change] at hc
  split at hc
  · rename_i hix
    subst hix
    obtain ⟨b, hb, rfl⟩ := Option.map_eq_some_iff.mp hc
    obtain ⟨hp, hn⟩ := hD b hb
    exact ⟨(hf b).parent.trans hp, by rw [(hf b).next, hn]⟩
  · exact hD c hc

end Workspace

namespace WorkspaceM

open Workspace

variable {host : Host}

/-- Both halves of the invariant kept make the invariant kept. -/
theorem Keeps.wellFormed {α : Type} {m : WorkspaceM α} (hF : Keeps Forest m)
    (hA : Keeps (Workspace.All (Block.Fits host)) m) : Keeps (WellFormed host) m :=
  fun ws h => ⟨hF ws h.forest, hA ws h.fits⟩

/-- A block set up by the plan of a defined type fits the host. -/
theorem setUp_fits {type : String} {plan : BlockPlan} {n : Nat} {b : Block}
    (hd : host.definition type = .ok plan)
    (hs : plan.setUp host.classes { id := n, typeName := type } = .ok b) : b.Fits host := by
  have hr := BlockPlan.setUp_relaid hs
  refine ⟨plan, by rw [hr.typeName]; exact Host.lookup_of_definition hd, fun hn => ?_⟩
  rcases hr.next_isSome hn with h | h
  · cases h
  · exact h

/-- **Making a block keeps the invariant**: the new block is fresh, top-level and holds nothing,
and it fits the host because its plan made it. -/
theorem newBlock_wellFormed (type : String) : Keeps (WellFormed host) (newBlock host type) := by
  intro ws hW
  simp only [newBlock, run_bind]
  rcases hd : host.definition type with e | plan
  · simp only [newBlock.liftExcept, run_throw]
    exact hW
  simp only [newBlock.liftExcept, run_pure, run_get]
  split
  · rename_i b hs
    have hr := BlockPlan.setUp_relaid hs
    simp only [run_bind, run_modify, run_pure]
    exact ⟨hW.forest.append (hr.id) hr.parent (hr.sockets fun _ => rfl),
      hW.fits.push (setUp_fits hd hs)⟩
  · simp only [run_throw]
    exact hW

/-- What a new block is: the block the plan of its type sets up, appended to the store. -/
theorem newBlock_ok {ws ws' : Workspace} {type : String} {id : Nat}
    (h : (newBlock host type).run.run ws = (.ok id, ws')) :
    ∃ p b, host.definition type = .ok p ∧
      p.setUp host.classes { id := ws.blocks.length, typeName := type } = .ok b ∧
      id = ws.blocks.length ∧ ws' = ws.push b := by
  simp only [newBlock, run_bind] at h
  rcases hd : host.definition type with e | p
  · simp only [hd, newBlock.liftExcept, run_throw] at h
    cases h
  simp only [hd, newBlock.liftExcept, run_pure, run_get] at h
  split at h
  · rename_i b hs
    simp only [run_bind, run_modify, run_pure] at h
    obtain ⟨rfl, rfl⟩ := h
    exact ⟨p, b, rfl, hs, rfl, rfl⟩
  · simp only [run_throw] at h
    cases h

/-- A block that cannot be made leaves the workspace as it was. -/
theorem newBlock_error {ws ws' : Workspace} {type : String} {e : HostError}
    (h : (newBlock host type).run.run ws = (.error e, ws')) : ws' = ws := by
  simp only [newBlock, run_bind] at h
  rcases hd : host.definition type with e' | p
  · simp only [hd, newBlock.liftExcept, run_throw] at h
    exact (congrArg Prod.snd h).symm
  simp only [hd, newBlock.liftExcept, run_pure, run_get] at h
  split at h
  · simp only [run_bind, run_modify, run_pure] at h
    cases h
  · simp only [run_throw] at h
    exact (congrArg Prod.snd h).symm

/-- **Making a block keeps the hierarchy**: the new block is fresh, top-level and holds nothing. -/
theorem newBlock_hierarchy (type : String) : Keeps Hierarchy (newBlock host type) := by
  intro ws hH
  rcases h : (newBlock host type).run.run ws with ⟨_ | id, ws'⟩
  · rw [newBlock_error h]
    exact hH
  · obtain ⟨p, b, -, hs, -, rfl⟩ := newBlock_ok h
    have hr := BlockPlan.setUp_relaid hs
    exact hH.append hr.id hr.parent (hr.sockets fun _ => rfl)

/-- Making a block keeps a property of every block that every block the type's plan sets up
has. -/
theorem newBlock_all {Q : Block → Prop} {type : String}
    (hQ : ∀ p b n, host.definition type = .ok p →
      p.setUp host.classes { id := n, typeName := type } = .ok b → Q b) :
    Keeps (Workspace.All Q) (newBlock host type) := by
  intro ws hA
  rcases h : (newBlock host type).run.run ws with ⟨_ | id, ws'⟩
  · rw [newBlock_error h]
    exact hA
  · obtain ⟨p, b, hp, hs, -, rfl⟩ := newBlock_ok h
    exact hA.push (hQ p b _ hp hs)

/-- The block just made is detached. -/
theorem newBlock_detached {ws ws' : Workspace} {type : String} {id : Nat}
    (h : (newBlock host type).run.run ws = (.ok id, ws')) : ws'.Detached id := by
  obtain ⟨p, b, -, hs, rfl, rfl⟩ := newBlock_ok h
  have hr := BlockPlan.setUp_relaid hs
  have hsk : b.sockets = [] := hr.sockets fun _ => rfl
  intro c hc
  rw [get?_push, if_pos rfl] at hc
  obtain rfl : b = c := Option.some.inj hc
  refine ⟨hr.parent, ?_⟩
  rcases hn : b.next.bind (·.target) with _ | n
  · rfl
  · simp [Block.sockets, hn] at hsk

/-- What setting a field does: fail before writing anything; or write the field's accepted value
back and then fail, the reaction of no plan of the type succeeding; or write back the block the
reaction returned. -/
theorem setField_run_cases {ws ws' : Workspace} {id : Nat} {name : String} {value : Json}
    {r : Except HostError Unit} (h : (setField host id name value).run.run ws = (r, ws')) :
    (ws' = ws ∧ ∃ e, r = .error e) ∨
    ∃ b i f f', ws.get? id = some b ∧ b.fieldNamed? name = some i ∧ b.field? i = some f ∧
      f.setValue value = .ok f' ∧
      ((∃ e, r = .error e) ∧ ws' = ws.write b.id (some (b.modifyField i fun _ => f')) ∧
          (∀ p b₂, host.definition b.typeName = .ok p →
            p.fieldChanged (b.modifyField i fun _ => f') name ≠ .ok b₂) ∨
        ∃ p b₂, host.definition b.typeName = .ok p ∧
          p.fieldChanged (b.modifyField i fun _ => f') name = .ok b₂ ∧ r = .ok () ∧
          ws' = (ws.write b.id (some (b.modifyField i fun _ => f'))).write b₂.id (some b₂)) := by
  revert h
  rcases hb : ws.get? id with _ | b
  · simp only [setField, run_bind, run_block_none hb]
    rintro ⟨⟩
    exact Or.inl ⟨rfl, _, rfl⟩
  simp only [setField, run_bind, run_block hb]
  -- a missing field or a refused value throws before anything changes
  rcases hfn : b.fieldNamed? name with _ | fid
  · simp only [run_throw]
    rintro ⟨⟩
    exact Or.inl ⟨rfl, _, rfl⟩
  rcases hfd : b.field? fid with _ | fd
  · simp only [hfd, run_throw]
    rintro ⟨⟩
    exact Or.inl ⟨rfl, _, rfl⟩
  rcases hv : fd.setValue value with e | f
  · simp only [hfd, hv, run_throw]
    rintro ⟨⟩
    exact Or.inl ⟨rfl, _, rfl⟩
  simp only [hfd, hv, run_bind, run_put]
  refine fun h => Or.inr ⟨b, fid, fd, f, rfl, hfn, hfd, hv, ?_⟩
  revert h
  -- after the write, the type's plan is looked up and reacts
  rcases hplan : host.definition (b.modifyField fid fun _ => f).typeName with e | p
  · simp only [run_throw]
    rintro ⟨⟩
    refine Or.inl ⟨⟨_, rfl⟩, rfl, fun p b₂ hp => ?_⟩
    rw [show b.typeName = (b.modifyField fid fun _ => f).typeName from rfl, hplan] at hp
    cases hp
  rcases hb₂ : p.fieldChanged (b.modifyField fid fun _ => f) name with e | b₂
  · simp only [hb₂, run_throw]
    rintro ⟨⟩
    refine Or.inl ⟨⟨_, rfl⟩, rfl, fun q b₂ hq => ?_⟩
    rw [show b.typeName = (b.modifyField fid fun _ => f).typeName from rfl, hplan] at hq
    cases hq
    rw [hb₂]
    exact fun h => by cases h
  · simp only [hb₂, run_put]
    rintro ⟨⟩
    exact Or.inr ⟨p, b₂, hplan, hb₂, rfl, rfl⟩

/-- What setting a field leaves behind: the workspace as it was, or the block with one field
changed written back under its id, followed, when the plan of its type reacts, by the block the
plan reacted with. -/
theorem setField_cases {ws ws' : Workspace} {id : Nat} {name : String} {value : Json}
    {r : Except HostError Unit} (h : (setField host id name value).run.run ws = (r, ws')) :
    ws' = ws ∨ ∃ b i g, ws.get? id = some b ∧
      (ws' = ws.write b.id (some (b.modifyField i g)) ∨
        ∃ p b₂, host.definition b.typeName = .ok p ∧
          p.fieldChanged (b.modifyField i g) name = .ok b₂ ∧
          ws' = (ws.write b.id (some (b.modifyField i g))).write b₂.id (some b₂)) := by
  rcases setField_run_cases h with
    ⟨rfl, -⟩ | ⟨b, i, -, f', hb, -, -, -, ⟨-, rfl, -⟩ | ⟨p, b₂, hp, hb₂, -, rfl⟩⟩
  · exact Or.inl rfl
  · exact Or.inr ⟨b, i, fun _ => f', hb, Or.inl rfl⟩
  · exact Or.inr ⟨b, i, fun _ => f', hb, Or.inr ⟨p, b₂, hp, hb₂, rfl⟩⟩

/-- **Setting a field keeps the hierarchy**: both blocks it writes back are laid out again from
the block that was there. -/
theorem setField_hierarchy (id : Nat) (name : String) (value : Json) :
    Keeps Hierarchy (setField host id name value) := by
  intro ws hH
  rcases h : (setField host id name value).run.run ws with ⟨r, ws'⟩
  rcases setField_cases h with rfl | ⟨b, i, g, hb, rfl | ⟨p, b₂, -, hb₂, rfl⟩⟩
  · exact hH
  · rw [hH.id_eq hb]
    exact hH.write_relaid hb (b.relaid_modifyField .value i g)
  · have hr := BlockPlan.fieldChanged_relaid hb₂
    have hid₀ : b.id = id := hH.id_eq hb
    have hid : b₂.id = id := hr.id.trans hid₀
    rw [hid, hid₀]
    exact (hH.write_relaid hb (b.relaid_modifyField .value i g)).write_relaid
      (by simp [lt_length_of_get? hb]) hr

/-- Setting a field keeps a property of every block that every layout keeps. -/
theorem setField_all {Q : Block → Prop} (hQ : ∀ {b b' : Block} (k : BlockKind), b.Relaid k b' → Q b → Q b')
    (id : Nat) (name : String) (value : Json) :
    Keeps (Workspace.All Q) (setField host id name value) := by
  intro ws hA
  rcases h : (setField host id name value).run.run ws with ⟨r, ws'⟩
  rcases setField_cases h with rfl | ⟨b, i, g, hb, rfl | ⟨p, b₂, -, hb₂, rfl⟩⟩
  · exact hA
  all_goals have hQ₁ : Q (b.modifyField i g) := hQ .value (b.relaid_modifyField .value i g) (hA _ b hb)
  · exact hA.write _ fun c hc => by cases hc; exact hQ₁
  · refine (hA.write _ fun c hc => ?_).write _ fun c hc => ?_
    · cases hc
      exact hQ₁
    · cases hc
      exact hQ _ (BlockPlan.fieldChanged_relaid hb₂) hQ₁

/-- Setting a field keeps a block detached. -/
theorem setField_detached {x : Nat} (id : Nat) (name : String) (value : Json) {ws : Workspace}
    (hH : ws.Hierarchy) (hD : ws.Detached x) : ((setField host id name value).run.run ws).2.Detached x := by
  rcases h : (setField host id name value).run.run ws with ⟨r, ws'⟩
  rcases setField_cases h with rfl | ⟨b, i, g, hb, rfl | ⟨p, b₂, -, hb₂, rfl⟩⟩
  · exact hD
  · rw [hH.id_eq hb]
    exact hD.write_relaid hb (b.relaid_modifyField .value i g)
  · have hr := BlockPlan.fieldChanged_relaid hb₂
    have hid₀ : b.id = id := hH.id_eq hb
    rw [show b₂.id = id from hr.id.trans hid₀, hid₀]
    exact (hD.write_relaid hb (b.relaid_modifyField .value i g)).write_relaid
      (by simp [lt_length_of_get? hb]) hr

/-- **Setting a field keeps the invariant**: the field's new value and the layout its type's plan
then makes are written back over the block, and neither changes what the links read. -/
theorem setField_wellFormed (id : Nat) (name : String) (value : Json) :
    Keeps (WellFormed host) (setField host id name value) := by
  intro ws hW
  rcases h : (setField host id name value).run.run ws with ⟨r, ws'⟩
  rcases setField_cases h with rfl | ⟨b, i, g, hb, rfl | ⟨p, b₂, hp, hb₂, rfl⟩⟩
  · exact hW
  all_goals
    -- the new value is written back first
    have hid : b.id = id := hW.forest.id_eq hb
    obtain ⟨p₀, hp₀, -⟩ := hW.fits id b hb
    have hW₁ := hW.write_relaid hb hp₀ (b.relaid_modifyField p₀.kind i g)
    rw [hid]
  · exact hW₁
  · -- then the layout the type's plan makes of it
    have hr := BlockPlan.fieldChanged_relaid hb₂
    rw [show b₂.id = id from hr.id.trans hid]
    have hget₁ : (ws.write id (some (b.modifyField i g))).get? id = some (b.modifyField i g) := by
      simp [lt_length_of_get? hb]
    exact hW₁.write_relaid hget₁ (Host.lookup_of_definition hp) hr

/-! ### Moving connections and removing blocks -/

section All

variable {Q : Block → Prop} (hrel : ∀ b x, Q b → Q (b.release x)) (hun : ∀ b, Q b → Q b.unplug)
  (hhang : ∀ b p s, Q b → Q (b.hangFrom p s))
include hrel hun hhang

/-- Linking keeps a property of every block that each of its steps keeps. -/
theorem link_all {p c : Nat} {occ : Option Nat} {plug : Block → Block} {s : Bool}
    (hplug : ∀ b, Q b → Q (plug b)) : Keeps (Workspace.All Q) (link p c occ plug s) := by
  have hrest : Keeps (Workspace.All Q)
      (do disconnect c; update p plug; update c (·.hangFrom p s) : WorkspaceM Unit) :=
    Keeps.bind (disconnect_all hrel hun c) fun _ =>
      Keeps.bind (Keeps.update p hplug) fun _ => Keeps.update c fun b => hhang b p s
  cases occ with
  | none => exact hrest
  | some o => exact Keeps.bind (disconnect_all hrel hun o) fun _ => hrest

theorem connect_all (hplug : ∀ b k c, Q b → Q (b.plugInput k c)) (parent : Nat) (name : String)
    (child : Nat) : Keeps (Workspace.All Q) (connect parent name child) := by
  intro ws h
  rcases hr : (connect parent name child).run.run ws with ⟨r, ws'⟩
  rcases connect_cases hr with ⟨rfl, -⟩ | ⟨pb, k, input, socket, -, -, -, -, -, -, -, hlink⟩
  · exact h
  rw [← hlink]
  exact link_all hrel hun hhang (fun b => hplug b k child) ws h

theorem connectNext_all (hplug : ∀ b c, Q b → Q (b.plugNext c)) (previous next : Nat) :
    Keeps (Workspace.All Q) (connectNext previous next) := by
  intro ws h
  rcases hr : (connectNext previous next).run.run ws with ⟨r, ws'⟩
  rcases connectNext_cases hr with ⟨rfl, -⟩ | ⟨pb, socket, -, -, -, -, -, hlink⟩
  · exact h
  rw [← hlink]
  exact link_all hrel hun hhang (fun b => hplug b next) ws h

end All

/-- Removing blocks keeps a property of every block. -/
theorem removeAll_all {Q : Block → Prop} :
    ∀ (fuel : Nat) (W : List Nat), Keeps (Workspace.All Q) (removeAll fuel W)
  | 0, _ => Keeps.pure ()
  | _ + 1, [] => Keeps.pure ()
  | fuel + 1, w :: rest =>
    Keeps.bind (Keeps.block w) fun _ =>
      Keeps.bind (fun _ h => h.write w fun _ hb => by cases hb) fun _ => removeAll_all fuel _

theorem dispose_all {Q : Block → Prop} (hrel : ∀ b x, Q b → Q (b.release x))
    (hun : ∀ b, Q b → Q b.unplug) (x : Nat) : Keeps (Workspace.All Q) (dispose x) :=
  Keeps.bind (disconnect_all hrel hun x) fun _ =>
    Keeps.bind Keeps.get fun ws => removeAll_all (ws.blocks.length + 1) [x]

theorem disconnect_wellFormed (x : Nat) : Keeps (WellFormed host) (disconnect x) :=
  Keeps.wellFormed (disconnect_forest x)
    (disconnect_all (Q := Block.Fits host) (fun _ x h => h.release x) (fun _ h => h.unplug) x)

theorem connect_wellFormed (parent : Nat) (name : String) (child : Nat) :
    Keeps (WellFormed host) (connect parent name child) :=
  Keeps.wellFormed (connect_forest parent name child)
    (connect_all (Q := Block.Fits host) (fun _ x h => h.release x) (fun _ h => h.unplug)
      (fun _ p s h => h.hangFrom p s)
      (fun _ k c h => h.plugInput k c) parent name child)

theorem connectNext_wellFormed (previous next : Nat) :
    Keeps (WellFormed host) (connectNext previous next) :=
  Keeps.wellFormed (connectNext_forest previous next)
    (connectNext_all (Q := Block.Fits host) (fun _ x h => h.release x) (fun _ h => h.unplug)
      (fun _ p s h => h.hangFrom p s) (fun _ c h => h.plugNext c) previous next)

theorem dispose_wellFormed (x : Nat) : Keeps (WellFormed host) (dispose x) :=
  Keeps.wellFormed (dispose_forest x)
    (dispose_all (Q := Block.Fits host) (fun _ x h => h.release x) (fun _ h => h.unplug) x)

/-! ### Placing a block tree -/

/-- Marking a block as a shadow changes nothing the links read. -/
theorem markShadow_wellFormed (id : Nat) (s : Bool) :
    Keeps (WellFormed host) (update id fun b => { b with shadow := s }) :=
  fun _ h => h.change id fun _ => ⟨rfl, rfl, rfl, rfl, rfl⟩

/-- What placing a block tree needs of an invariant of the hierarchy: every step it takes keeps
the invariant. Fields are set only on the block just made, before anything is plugged into it or
chained after it, so setting a field need keep the invariant only where that block is
detached. -/
structure PlaceSteps (host : Host) (P : Workspace → Prop) : Prop where
  hierarchy : ∀ {ws}, P ws → ws.Hierarchy
  newBlock : ∀ type, Keeps P (newBlock host type)
  markShadow : ∀ id s, Keeps P (update id fun b => { b with shadow := s })
  setField : ∀ id name value ws, P ws → ws.Detached id →
    P ((setField host id name value).run.run ws).2
  connect : ∀ parent name child, Keeps P (connect parent name child)
  connectNext : ∀ previous next, Keeps P (connectNext previous next)
  dispose : ∀ x, Keeps P (dispose x)

section Placing

variable {P : Workspace → Prop}

theorem PlaceSteps.discard (hS : PlaceSteps host P) (x : Nat) : Keeps P (discard x) :=
  Keeps.tryCatch (hS.dispose x) fun _ => Keeps.pure ()

mutual
/-- **Placing a block tree keeps an invariant** that its steps keep, whether it succeeds or
fails. -/
theorem placeAs_keeps (hS : PlaceSteps host P) (isShadow : Bool) :
    ∀ s : BlockState, Keeps P (placeAs host isShadow s)
  | ⟨type, fields, inputs, next⟩ => by
    rw [placeAs]
    intro ws hP
    have hnew := hS.newBlock type ws hP
    rw [run_bind]
    rcases hid : (newBlock host type).run.run ws with ⟨e | id, ws₁⟩
    · rw [hid] at hnew
      exact hnew
    rw [hid] at hnew
    -- up to its last field the new block stays detached
    refine Keeps.tryCatch_from (Q := (·.Detached id)) ?_
      (fun e => Keeps.bind (hS.discard id) fun _ => Keeps.throw e) ws₁ hnew (newBlock_detached hid)
    refine Keeps.bind_from (fun ws h => ⟨hS.markShadow id isShadow ws h.1,
      h.2.change fun _ => ⟨rfl, rfl, rfl, rfl, rfl⟩⟩) fun _ ws hP hD => ?_
    refine Keeps.bind_from (Keeps.forIn fields _ fun ⟨name, value⟩ _ =>
        Keeps.bind (fun ws h => ⟨hS.setField id name value ws h.1 h.2,
          setField_detached id name value (hS.hierarchy h.1) h.2⟩) fun _ => Keeps.pure _)
      (fun _ ws hP _ => ?_) ws hP hD
    exact Keeps.bind (placeInputs_keeps hS id inputs) (fun _ =>
      Keeps.bind (placeNext_keeps hS id next) fun _ => Keeps.pure id) ws hP

theorem placeInputs_keeps (hS : PlaceSteps host P) (id : Nat) :
    ∀ l : List (String × Plug BlockState), Keeps P (placeInputs host id l)
  | [] => by
    rw [placeInputs]
    exact Keeps.pure ()
  | (name, ⟨some s, _⟩) :: rest => by
    rw [placeInputs]
    exact Keeps.bind (plugInto_keeps hS id name false s) fun _ => placeInputs_keeps hS id rest
  | (name, ⟨none, some s⟩) :: rest => by
    rw [placeInputs]
    exact Keeps.bind (plugInto_keeps hS id name true s) fun _ => placeInputs_keeps hS id rest
  | (_, ⟨none, none⟩) :: rest => by
    rw [placeInputs]
    exact Keeps.bind (Keeps.pure ()) fun _ => placeInputs_keeps hS id rest

theorem plugInto_keeps (hS : PlaceSteps host P) (id : Nat) (name : String) (isShadow : Bool)
    (s : BlockState) : Keeps P (plugInto host id name isShadow s) := by
  rw [plugInto]
  exact Keeps.bind (placeAs_keeps hS isShadow s) fun child =>
    Keeps.tryCatch (hS.connect id name child) fun e =>
      Keeps.bind (hS.discard child) fun _ => Keeps.throw e

theorem placeNext_keeps (hS : PlaceSteps host P) (id : Nat) :
    ∀ next : Option (Plug BlockState), Keeps P (placeNext host id next)
  | some ⟨some s, _⟩ => by
    rw [placeNext]
    exact Keeps.bind (placeAs_keeps hS false s) fun child =>
      Keeps.tryCatch (hS.connectNext id child) fun e =>
        Keeps.bind (hS.discard child) fun _ => Keeps.throw e
  | some ⟨none, _⟩ => by
    unfold placeNext
    exact Keeps.pure ()
  | none => by
    unfold placeNext
    exact Keeps.pure ()
end

end Placing

/-- Every step of placing keeps the invariant. -/
theorem wellFormed_placeSteps : PlaceSteps host (WellFormed host) where
  hierarchy h := h.forest.hierarchy
  newBlock := newBlock_wellFormed
  markShadow := markShadow_wellFormed
  setField id name value ws h _ := setField_wellFormed id name value ws h
  connect := connect_wellFormed
  connectNext := connectNext_wellFormed
  dispose := dispose_wellFormed

/-- **Placing a block tree keeps the invariant**, whether it succeeds or fails. -/
theorem placeAs_wellFormed (isShadow : Bool) :
    ∀ s : BlockState, Keeps (WellFormed host) (placeAs host isShadow s) :=
  placeAs_keeps wellFormed_placeSteps isShadow

end WorkspaceM

end Blockwork
