import Blockwork.Proofs.Workspace.Forest

/-!
# The hierarchy every session keeps

The forest of `Workspace.Forest` lasts through the sessions whose redefinitions are admitted. A
redefinition as a `value` type can break its demand that a parent hold its child: the next layout
of a block of the type drops its next connection, and the block that connection held keeps a parent
that no longer holds it.
What every session keeps, admitted or not, is the rest of the forest, the **hierarchy**
(`Workspace.Hierarchy`):

* a block held in a socket is live and has the holder as its parent;
* no block holds another twice;
* following parent links never comes back.

A parent link with no socket behind it is allowed. The hierarchy is what a walk down the sockets
needs: every block a socket holds is there, and the blocks met going down are met going up by
parent links, so no walk down is longer than the store (`Hierarchy.chain_le`).

The operations keep it in three ways. An edit that only takes sockets and parent links away, and
leaves the parent of every block still held, keeps it (`Hierarchy.shrink`): that covers unplugging
(`Hierarchy.detach`), removing a block no socket holds (`Hierarchy.drop`) and laying a block out
again. Plugging a top-level block into a free socket keeps it (`Hierarchy.attach`) when the block is
not an ancestor of the socket's owner, which the cycle check of a connection decides exactly
(`Hierarchy.isAncestor_iff`). Adding a fresh block keeps it (`Hierarchy.append`). Disposal removes
its blocks one at a time, each held by no live block when it goes, so unlike the forest it needs no
picture of the whole subtree (`removeAll_hierarchy`).

The operations themselves are run against these lemmas in the files that follow, for the forest
and the hierarchy at once.
-/

namespace Blockwork

namespace Workspace

/-- The forest without its demand that a parent hold its child: what every session keeps. -/
structure Hierarchy (ws : Workspace) : Prop where
  /-- Every live block is stored under its own id. -/
  id_eq : ∀ {i b}, ws.get? i = some b → b.id = i
  /-- A block held in a socket has the holder as its parent. -/
  parent_of_held : ∀ {i c}, c ∈ ws.socketsOf i → ws.parentOf c = some i
  /-- No block holds another twice. -/
  sockets_nodup : ∀ i, (ws.socketsOf i).Nodup
  /-- Following parents never comes back. -/
  acyclic : ∀ i, ¬ ws.Ancestor i i

variable {ws ws' : Workspace}

theorem Forest.hierarchy (hF : ws.Forest) : ws.Hierarchy :=
  ⟨hF.id_eq, hF.parent_of_held, hF.sockets_nodup, hF.acyclic⟩

@[simp] theorem parentOf_write_none (i j : Nat) :
    (ws.write i none).parentOf j = if i = j then none else ws.parentOf j := by
  unfold parentOf
  rw [get?_write]
  split
  · split <;> rfl
  · rfl

@[simp] theorem socketsOf_write_none (i j : Nat) :
    (ws.write i none).socketsOf j = if i = j then [] else ws.socketsOf j := by
  unfold socketsOf
  rw [get?_write]
  split
  · split <;> rfl
  · rfl

namespace Hierarchy

/-- What a socket holds is live. -/
theorem live_of_held (hH : ws.Hierarchy) {i c : Nat} (h : c ∈ ws.socketsOf i) :
    ∃ b, ws.get? c = some b :=
  live_of_parentOf (hH.parent_of_held h)

/-- A block without a parent is held by no socket. -/
theorem not_held (hH : ws.Hierarchy) {c : Nat} (htop : ws.parentOf c = none) (i : Nat) :
    c ∉ ws.socketsOf i := fun h => by
  rw [hH.parent_of_held h] at htop
  cases htop

/-! ### Edits that keep the hierarchy -/

/-- An edit that only takes sockets and parent links away, and keeps the parent of every block
that stays held, keeps the hierarchy. -/
theorem shrink (hH : ws.Hierarchy) (hid : ∀ {i b}, ws'.get? i = some b → b.id = i)
    (hs : ∀ i, (ws'.socketsOf i).Sublist (ws.socketsOf i))
    (hp : ∀ x y, ws'.parentOf x = some y → ws.parentOf x = some y)
    (hheld : ∀ {i c}, c ∈ ws'.socketsOf i → ws'.parentOf c = ws.parentOf c) : ws'.Hierarchy where
  id_eq := hid
  parent_of_held {i c} h := by
    rw [hheld h]
    exact hH.parent_of_held ((hs i).subset h)
  sockets_nodup i := (hH.sockets_nodup i).sublist (hs i)
  acyclic i h := hH.acyclic i (Ancestor.mono hp h)

/-- Unplugging `c` from `p` keeps the hierarchy: `c` loses its parent, `p`'s sockets lose `c`, and
nothing else changes. The link from `c` to `p` need not have a socket behind it. -/
theorem detach (hH : ws.Hierarchy) {c p : Nat} (hcp : ws.parentOf c = some p)
    (hid : ∀ {i b}, ws'.get? i = some b → b.id = i)
    (hpc : ws'.parentOf c = none) (hpo : ∀ i, i ≠ c → ws'.parentOf i = ws.parentOf i)
    (hsp : ws'.socketsOf p = (ws.socketsOf p).filter (· != c))
    (hso : ∀ i, i ≠ p → ws'.socketsOf i = ws.socketsOf i) : ws'.Hierarchy := by
  -- `c` is held by no socket afterwards: `p` let go of it, and no other block held it
  have hgone : ∀ {i}, c ∉ ws'.socketsOf i := fun {i} h => by
    by_cases hi : i = p
    · subst hi
      rw [hsp, List.mem_filter] at h
      simp at h
    · rw [hso i hi] at h
      exact hi (Option.some.inj ((hH.parent_of_held h).symm.trans hcp))
  refine hH.shrink hid (fun i => ?_) (fun x y hxy => ?_) (fun {i x} h => ?_)
  · by_cases hi : i = p
    · subst hi
      rw [hsp]
      exact List.filter_sublist
    · rw [hso i hi]
  · by_cases hx : x = c
    · subst hx
      rw [hpc] at hxy
      cases hxy
    · rwa [← hpo x hx]
  · exact hpo x fun hxc => hgone (hxc ▸ h)

/-- Removing a block that no socket holds keeps the hierarchy. -/
theorem drop (hH : ws.Hierarchy) {x : Nat} (hx : ∀ i, x ∉ ws.socketsOf i) :
    (ws.write x none).Hierarchy := by
  refine hH.shrink (fun {i b} hb => ?_) (fun i => ?_) (fun y z hyz => ?_) (fun {i c} h => ?_)
  · rw [get?_write] at hb
    split at hb
    · split at hb <;> cases hb
    · exact hH.id_eq hb
  · rw [socketsOf_write_none]
    split
    · exact List.nil_sublist _
    · exact List.Sublist.refl _
  · rw [parentOf_write_none] at hyz
    split at hyz
    · cases hyz
    · exact hyz
  · rw [socketsOf_write_none] at h
    split at h
    · cases h
    · -- what stays held is not the removed block, whose slot alone changed
      have hcx : x ≠ c := fun hxc => hx i (hxc ▸ h)
      rw [parentOf_write_none, if_neg hcx]

/-- Plugging the top-level block `c` into a socket of `p` keeps the hierarchy when `c` is neither
`p` nor an ancestor of `p`. -/
theorem attach (hH : ws.Hierarchy) {c p : Nat} (htop : ws.parentOf c = none) (hne : c ≠ p)
    (hanc : ¬ ws.Ancestor c p) (hid : ∀ {i b}, ws'.get? i = some b → b.id = i)
    (hpc : ws'.parentOf c = some p) (hpo : ∀ i, i ≠ c → ws'.parentOf i = ws.parentOf i)
    (hsp : (ws'.socketsOf p).Perm (c :: ws.socketsOf p))
    (hso : ∀ i, i ≠ p → ws'.socketsOf i = ws.socketsOf i) : ws'.Hierarchy where
  id_eq := hid
  parent_of_held {i x} h := by
    -- a block held before is not `c`, which had no parent
    have hold : ∀ {j}, x ∈ ws.socketsOf j → ws'.parentOf x = some j := fun hx => by
      have hxc : x ≠ c := by rintro rfl; exact hH.not_held htop _ hx
      rw [hpo x hxc]
      exact hH.parent_of_held hx
    by_cases hi : i = p
    · subst hi
      rcases List.mem_cons.mp (hsp.mem_iff.mp h) with rfl | hx
      · exact hpc
      · exact hold hx
    · rw [hso i hi] at h
      exact hold h
  sockets_nodup i := by
    by_cases hi : i = p
    · subst hi
      exact hsp.nodup_iff.mpr
        (List.nodup_cons.mpr ⟨hH.not_held htop _, hH.sockets_nodup _⟩)
    · rw [hso i hi]
      exact hH.sockets_nodup i
  acyclic i h := by
    rcases Forest.ancestor_of_attach hne hanc hpc hpo h with h | ⟨h1, h2⟩
    · exact hH.acyclic i h
    · rcases Relation.reflTransGen_iff_eq_or_transGen.mp (h2.trans h1) with h | h
      · exact hne h
      · exact hanc h

/-- Adding a fresh block with no parent and empty sockets, under the first unused id, keeps the
hierarchy. -/
theorem append (hH : ws.Hierarchy) {b : Block} (hid : b.id = ws.blocks.length)
    (hpar : b.parent = none) (hs : b.sockets = []) : (ws.push b).Hierarchy := by
  have hp := @parentOf_push ws b hpar
  have hsk := @socketsOf_push ws b hs
  refine ⟨fun {i b'} hb => ?_, fun {i x} h => ?_, fun i => ?_, fun i h => ?_⟩
  · rw [get?_push] at hb
    split at hb
    · rename_i hi
      cases hb
      rw [hid, hi]
    · exact hH.id_eq hb
  · rw [hsk] at h
    split at h
    · cases h
    · have hx := hH.parent_of_held h
      rw [hp, if_neg (ne_length_of_live (live_of_parentOf hx))]
      exact hx
  · rw [hsk]
    split
    · exact List.nodup_nil
    · exact hH.sockets_nodup i
  · refine hH.acyclic i (Ancestor.mono (fun x y hxy => ?_) h)
    rw [hp] at hxy
    split at hxy
    · cases hxy
    · exact hxy

/-! ### Chains of parents -/

/-- A chain of parents ending at a live block is no longer than the store. -/
theorem chain_le (hH : ws.Hierarchy) {n x c : Nat} (h : ws.ascend n x = some c)
    (hc : ∃ b, ws.get? c = some b) : n + 1 ≤ ws.blocks.length :=
  ascend_le_of_acyclic hH.acyclic h hc

/-- **The ancestor search is exact on a hierarchy.** -/
theorem isAncestor_iff (hH : ws.Hierarchy) (c x : Nat) :
    ws.isAncestor c (ws.blocks.length + 1) (ws.parentOf x) = true ↔ ws.Ancestor c x :=
  isAncestor_iff_of_acyclic hH.acyclic c x

end Hierarchy

end Workspace

end Blockwork
