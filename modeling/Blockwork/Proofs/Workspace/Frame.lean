import Blockwork.Proofs.Workspace.Place

/-!
# Connecting changes only what it connects

`connect` fills the first visible input of a name and `connectNext` the next connection. On a
forest each of them either fails and leaves the workspace as it was, or succeeds with exactly the
changes `Workspace.Links` lists:

* the filled socket holds the child, and the child's parent is the socket's block;
* the block the socket held before, when it is not the child, has no parent any more;
* the socket that held the child before, when it is not the filled one, holds nothing;
* every other socket holds what it held, every other block keeps its parent, and no block but
  the parent, the child, the old occupant and the child's old parent changes at all.

So the old occupant keeps all its own sockets, and with them its subtree, unless the child hung
below it: then the child leaves that subtree, taking its own along (`moved_child_leaves_occupant`).

Sockets are addressed one by one (`Socket`, `Block.holds`), so that a statement says which socket
of a block changed and not only which blocks the block holds. The proof follows the steps of
`link`: unplugging a block empties the one socket that held it (`disconnect_unplugs`), filling a
free socket changes that socket alone, and hanging the child from its parent changes no socket.
-/

namespace Blockwork

/-- A socket of a block: its next connection, or the connection of the input at an arena
index. -/
inductive Socket where
  | next
  | input (k : Nat)
  deriving DecidableEq

namespace Block

/-- The block a socket holds, if any. -/
def holds (b : Block) : Socket → Option Nat
  | .next => b.next.bind (·.target)
  | .input k => (b.input? k).bind Input.target

/-- The block has the socket: a next connection, or an input with a connection at the index. -/
def Has (b : Block) : Socket → Prop
  | .next => b.next.isSome
  | .input k => ∃ i, b.input? k = some i ∧ i.connection.isSome

/-- Two entries that `f` sends to one value sit at one index, when `f` keeps nothing twice. -/
theorem index_eq_of_filterMap_nodup {α β : Type} {f : α → Option β} :
    ∀ {l : List α} {i j : Nat} {a a' : α} {c : β}, (l.filterMap f).Nodup → l[i]? = some a →
      f a = some c → l[j]? = some a' → f a' = some c → i = j
  | [], _, _, _, _, _, _, hi, _, _, _ => by simp at hi
  | x :: l, i, j, a, a', c, hnd, hi, ha, hj, ha' => by
    -- the value of the head is kept once, so no later entry gives it again
    have hmem : ∀ {k b}, l[k]? = some b → f b = some c → f x = some c → False := fun hk hb hx => by
      rw [List.filterMap_cons, hx] at hnd
      exact (List.nodup_cons.mp hnd).1 (List.mem_filterMap.mpr ⟨_, List.mem_of_getElem? hk, hb⟩)
    cases i with
    | zero =>
      cases j with
      | zero => rfl
      | succ j =>
        cases hi
        exact (hmem hj ha' ha).elim
    | succ i =>
      cases j with
      | zero =>
        cases hj
        exact (hmem hi ha ha').elim
      | succ j =>
        have hnd' : (l.filterMap f).Nodup := by
          rw [List.filterMap_cons] at hnd
          split at hnd
          · exact hnd
          · exact (List.nodup_cons.mp hnd).2
        exact congrArg (· + 1) (index_eq_of_filterMap_nodup hnd' hi ha hj ha')

/-- What a block's sockets hold is what its sockets list. -/
theorem mem_sockets_iff {b : Block} {c : Nat} : c ∈ b.sockets ↔ ∃ s, b.holds s = some c := by
  constructor
  · intro h
    rcases List.mem_append.mp h with h | h
    · exact ⟨.next, by simpa [holds] using h⟩
    · obtain ⟨i, hi, ht⟩ := List.mem_filterMap.mp h
      obtain ⟨k, hk⟩ := List.getElem?_of_mem hi
      rw [Array.getElem?_toList] at hk
      refine ⟨.input k, ?_⟩
      show (b.inputArena[k]?).bind Input.target = some c
      rw [hk]
      exact ht
  · rintro ⟨s, hs⟩
    cases s with
    | next => exact List.mem_append_left _ (by simpa [holds] using hs)
    | input k => exact HoldsAt.mem_sockets hs

/-- A block whose sockets hold nothing twice holds each block in one socket at most. -/
theorem holds_inj {b : Block} (hnd : b.sockets.Nodup) {s s' : Socket} {c : Nat}
    (h : b.holds s = some c) (h' : b.holds s' = some c) : s = s' := by
  cases s with
  | next =>
    cases s' with
    | next => rfl
    | input k => exact absurd h (HoldsAt.next_ne h' hnd)
  | input k =>
    cases s' with
    | next => exact absurd h' (HoldsAt.next_ne h hnd)
    | input k' =>
      obtain ⟨i, hi, hit⟩ := Option.bind_eq_some_iff.mp h
      obtain ⟨i', hi', hit'⟩ := Option.bind_eq_some_iff.mp h'
      have hnd' : (b.inputArena.toList.filterMap Input.target).Nodup :=
        (List.nodup_append.mp hnd).2.1
      rw [index_eq_of_filterMap_nodup (i := k) (j := k') hnd' (by rw [Array.getElem?_toList]; exact hi)
        hit (by rw [Array.getElem?_toList]; exact hi') hit']

/-! ### What each step does to the sockets -/

section Steps

variable (b : Block) (x c q : Nat) (st : Bool) (s : Socket)

/-- Releasing keeps every input of the arena, and clears the connection of those that held the
block unless the next connection held it. -/
theorem input?_release (k : Nat) :
    (b.release x).input? k = if b.holds .next = some x then b.input? k else
      (b.input? k).map fun i => if i.target == some x then
        { i with connection := i.connection.map fun k => { k with target := none } } else i := by
  unfold release
  split
  · rename_i hn
    rw [if_pos (by simpa [holds] using hn)]
    rfl
  · rename_i hn
    rw [if_neg (by simpa [holds] using hn)]
    exact Array.getElem?_map ..

/-- Releasing `x` empties the socket that held it, when no block is held twice. -/
theorem holds_release (hnd : b.sockets.Nodup) :
    (b.release x).holds s = if b.holds s = some x then none else b.holds s := by
  cases s with
  | next =>
    unfold release
    split
    · rename_i hn
      rw [if_pos (by simpa [holds] using hn)]
      simp only [holds]
      cases b.next <;> rfl
    · rename_i hn
      rw [if_neg (by simpa [holds] using hn)]
      rfl
  | input k =>
    show ((b.release x).input? k).bind Input.target = _
    rw [input?_release]
    split
    · -- the next connection held `x`, so no input does
      rename_i hnext
      have hk : b.holds (.input k) ≠ some x := fun h => by cases holds_inj hnd hnext h
      rw [if_neg hk]
      rfl
    · show _ = if (b.input? k).bind Input.target = some x then none else (b.input? k).bind Input.target
      rcases b.input? k with _ | i
      · rfl
      · by_cases hi : i.target = some x
        · simp only [Option.map_some, Option.bind_some, hi, beq_self_eq_true, if_true]
          simp only [Input.target]
          cases i.connection <;> rfl
        · simp [hi]

@[simp] theorem holds_unplug : b.unplug.holds s = b.holds s := by cases s <;> rfl

@[simp] theorem holds_hangFrom : (b.hangFrom q st).holds s = b.holds s := by
  unfold hangFrom
  split <;> cases s <;> rfl

/-- Plugging into an input with a connection makes that input, and only it, hold the block. -/
theorem holds_plugInput {k : Nat} (h : b.Has (.input k)) :
    (b.plugInput k c).holds s = if s = .input k then some c else b.holds s := by
  obtain ⟨i, hi, hconn⟩ := h
  cases s with
  | next => rfl
  | input j =>
    simp only [holds, input?_plugInput, Socket.input.injEq]
    by_cases hkj : k = j
    · subst hkj
      obtain ⟨conn, hconn⟩ := Option.isSome_iff_exists.mp hconn
      simp [hi, Input.target, hconn]
    · rw [if_neg hkj, if_neg (Ne.symm hkj)]

/-- Plugging into an existing next connection makes it, and only it, hold the block. -/
theorem holds_plugNext (h : b.Has .next) :
    (b.plugNext c).holds s = if s = .next then some c else b.holds s := by
  obtain ⟨n, hn⟩ := Option.isSome_iff_exists.mp h
  cases s with
  | next => simp [holds, plugNext, hn]
  | input k => rfl

theorem Has.release {s : Socket} (h : b.Has s) : (b.release x).Has s := by
  cases s with
  | next =>
    unfold Block.release
    split
    · simpa [Has] using h
    · exact h
  | input k =>
    obtain ⟨i, hi, hconn⟩ := h
    show ∃ i, (b.release x).input? k = some i ∧ i.connection.isSome
    rw [input?_release, hi]
    split
    · exact ⟨i, rfl, hconn⟩
    · refine ⟨_, rfl, ?_⟩
      dsimp only
      split <;> simpa using hconn

theorem Has.unplug {s : Socket} (h : b.Has s) : b.unplug.Has s := by cases s <;> exact h

end Steps

/-! ### Names on the line -/

/-- The visible input of a name is the first index on the line whose input has the name. -/
theorem inputNamed?_eq_find? (b : Block) (n : String) :
    b.inputNamed? n = b.line.find? fun k => (b.input? k).map (·.name) == some (some n) := by
  unfold inputNamed? visibleInputs
  induction b.line with
  | nil => rfl
  | cons k l ih =>
    rcases hk : b.input? k with _ | i
    · simpa [List.filterMap_cons, hk] using ih
    · by_cases hn : i.name = some n
      · simp [hk, hn]
      · have hb : (i.name == some n) = false := by simpa using hn
        have hb' : (some i.name == some (some n)) = false := by simpa using hn
        simp only [List.filterMap_cons, hk, Option.map_some, List.find?_cons, hb, hb']
        exact ih

/-- The line of a block and the names of its inputs, as `inputNamed?` reads them. -/
def NamesLike (b b' : Block) : Prop :=
  b'.line = b.line ∧ ∀ k, (b'.input? k).map (·.name) = (b.input? k).map (·.name)

theorem NamesLike.refl (b : Block) : b.NamesLike b := ⟨rfl, fun _ => rfl⟩

/-- Blocks with one line and one name at every arena index show the same input of a name. -/
theorem NamesLike.inputNamed?_eq {b b' : Block} (h : b.NamesLike b') (n : String) :
    b'.inputNamed? n = b.inputNamed? n := by
  rw [inputNamed?_eq_find?, inputNamed?_eq_find?, h.1]
  simp only [h.2]

/-- The block plugged into the visible input of a name is what that input's socket holds. -/
theorem targetOf?_eq {b : Block} {n : String} {k : Nat} (h : b.inputNamed? n = some k) :
    b.targetOf? n = b.holds (.input k) := by
  rw [targetOf?, h]
  rfl

section Names

variable {b b' : Block} (x c q : Nat) (st : Bool)

theorem NamesLike.release (h : b.NamesLike b') : b.NamesLike (b'.release x) := by
  refine ⟨?_, fun k => ?_⟩
  · unfold Block.release
    split <;> exact h.1
  · rw [← h.2 k, input?_release]
    split
    · rfl
    · rcases b'.input? k with _ | i
      · rfl
      · simp only [Option.map_some, Option.some.injEq]
        split <;> rfl

theorem NamesLike.unplug (h : b.NamesLike b') : b.NamesLike b'.unplug := h

theorem NamesLike.hangFrom (h : b.NamesLike b') : b.NamesLike (b'.hangFrom q st) := by
  unfold Block.hangFrom
  split <;> exact h

theorem NamesLike.plugInput (h : b.NamesLike b') (k : Nat) : b.NamesLike (b'.plugInput k c) := by
  refine ⟨h.1, fun j => ?_⟩
  rw [← h.2 j, input?_plugInput]
  split
  · rcases b'.input? j with _ | i <;> rfl
  · rfl

theorem NamesLike.plugNext (h : b.NamesLike b') : b.NamesLike (b'.plugNext c) := h

end Names

end Block

/-! ### Sockets across the workspace -/

namespace Workspace

variable {ws ws' : Workspace}

/-- The block a socket of the live block `i` holds; nothing for an id with no block. -/
def holds (ws : Workspace) (i : Nat) (s : Socket) : Option Nat := (ws.get? i).bind (·.holds s)

theorem holds_of_get? {i : Nat} {b : Block} (h : ws.get? i = some b) (s : Socket) :
    ws.holds i s = b.holds s := by
  simp [holds, h]

theorem holds_change (i j : Nat) (f : Block → Block) (s : Socket) :
    (ws.change i f).holds j s =
      if i = j then (ws.get? j).bind (fun b => (f b).holds s) else ws.holds j s := by
  unfold holds
  rw [get?_change]
  split
  · cases ws.get? j <;> rfl
  · rfl

/-- A step that keeps every socket of a block keeps every socket of the workspace. -/
theorem holds_change_of_holds {f : Block → Block} (hf : ∀ b s, (f b).holds s = b.holds s)
    (i j : Nat) (s : Socket) : (ws.change i f).holds j s = ws.holds j s := by
  rw [holds_change]
  split
  · subst j
    rcases h : ws.get? i <;> simp [holds, h, hf]
  · rfl

theorem mem_socketsOf_iff {i c : Nat} : c ∈ ws.socketsOf i ↔ ∃ s, ws.holds i s = some c := by
  rcases h : ws.get? i with _ | b
  · simp [socketsOf_of_get?_none h, holds, h]
  · simp [socketsOf_of_get? h, holds_of_get? h, Block.mem_sockets_iff]

namespace Forest

variable (hF : ws.Forest)
include hF

/-- A block held by a socket has the socket's block as its parent. -/
theorem parentOf_of_holds {y x : Nat} {s : Socket} (h : ws.holds y s = some x) :
    ws.parentOf x = some y :=
  hF.parent_of_held (mem_socketsOf_iff.mpr ⟨s, h⟩)

/-- A block with a parent is held by one of the parent's sockets. -/
theorem holds_of_parentOf {x y : Nat} (h : ws.parentOf x = some y) : ∃ s, ws.holds y s = some x :=
  mem_socketsOf_iff.mp (hF.held_by_parent h)

/-- A block is held by one socket of the workspace at most. -/
theorem holds_unique {y y' x : Nat} {s s' : Socket} (h : ws.holds y s = some x)
    (h' : ws.holds y' s' = some x) : y = y' ∧ s = s' := by
  have hy : y = y' := Option.some.inj ((hF.parentOf_of_holds h).symm.trans (hF.parentOf_of_holds h'))
  subst hy
  obtain ⟨b, hb⟩ := live_of_mem_socketsOf (mem_socketsOf_iff.mpr ⟨s, h⟩)
  have hnd := hF.sockets_nodup y
  rw [socketsOf_of_get? hb] at hnd
  rw [holds_of_get? hb] at h h'
  exact ⟨rfl, Block.holds_inj hnd h h'⟩

end Forest

/-! ### Unplugging and linking, socket by socket -/

/-- What unplugging `x` did: the socket that held `x` holds nothing, `x` has no parent, only `x`
and its old parent changed, and the same blocks are live. -/
structure Unplugged (ws ws' : Workspace) (x : Nat) : Prop where
  holds : ∀ y s, ws'.holds y s = if ws.holds y s = some x then none else ws.holds y s
  parentOf : ∀ y, ws'.parentOf y = if y = x then none else ws.parentOf y
  get? : ∀ y, y ≠ x →
    ws'.get? y = if ws.parentOf x = some y then (ws.get? y).map (·.release x) else ws.get? y
  live : ∀ y, (ws'.get? y).isSome = (ws.get? y).isSome

/-- What linking `c` into the socket `S` of `p` did; see the module comment. -/
structure Links (ws ws' : Workspace) (p : Nat) (S : Socket) (c : Nat) : Prop where
  holds : ∀ y s, ws'.holds y s =
    if y = p ∧ s = S then some c else if ws.holds y s = some c then none else ws.holds y s
  parentOf : ∀ x, ws'.parentOf x =
    if x = c then some p else if ws.holds p S = some x then none else ws.parentOf x
  get? : ∀ x, x ≠ p → x ≠ c → ws.holds p S ≠ some x → ws.parentOf c ≠ some x →
    ws'.get? x = ws.get? x

/-- After unplugging the occupant of a socket, linking into the freed socket is linking into the
socket as it was: the occupant's socket was the filled one. -/
theorem Unplugged.links (hF : ws.Forest) {ws₁ : Workspace} {o p c : Nat} {S : Socket}
    (hU : ws.Unplugged ws₁ o) (ho : ws.holds p S = some o) (hL : ws₁.Links ws' p S c) :
    ws.Links ws' p S c := by
  have hfree : ws₁.holds p S = none := by rw [hU.holds, if_pos ho]
  have hop : ws.parentOf o = some p := hF.parentOf_of_holds ho
  refine ⟨fun y s => ?_, fun x => ?_, fun x hxp hxc hxo hcx => ?_⟩
  · rw [hL.holds, hU.holds]
    by_cases hys : y = p ∧ s = S
    · rw [if_pos hys, if_pos hys]
    · -- no other socket held the occupant
      have hno : ws.holds y s ≠ some o := fun h => by
        obtain ⟨rfl, rfl⟩ := hF.holds_unique h ho
        exact hys ⟨rfl, rfl⟩
      rw [if_neg hys, if_neg hys, if_neg hno]
  · rw [hL.parentOf, hfree, hU.parentOf]
    by_cases hxc : x = c
    · rw [if_pos hxc, if_pos hxc]
    · rw [if_neg hxc, if_neg hxc, if_neg (by simp)]
      by_cases hxo : x = o
      · subst hxo
        rw [if_pos rfl, if_pos ho]
      · rw [if_neg hxo, if_neg (by rw [ho]; exact fun h => hxo (Option.some.inj h).symm)]
  · have hxo : x ≠ o := fun h => hxo (h ▸ ho)
    have hcx₁ : ws₁.parentOf c ≠ some x := by
      rw [hU.parentOf]
      split
      · simp
      · exact hcx
    rw [hL.get? x hxp hxc (by rw [hfree]; simp) hcx₁, hU.get? x hxo, hop,
      if_neg (fun h => hxp (Option.some.inj h).symm)]

end Workspace

namespace WorkspaceM

open Workspace

variable {ws : Workspace}

/-- **Unplugging a live block of a forest** succeeds and empties the one socket that held it. -/
theorem disconnect_unplugs (hF : ws.Forest) {x : Nat} (hx : ∃ b, ws.get? x = some b) :
    ∃ ws', (disconnect x).run.run ws = (.ok (), ws') ∧ ws.Unplugged ws' x := by
  obtain ⟨ws', hrun⟩ := disconnect_ok hF hx.choose_spec
  refine ⟨ws', hrun, ⟨fun y s => ?_, fun y => ?_, fun y hy => disconnect_get?_ne hrun hy,
    fun y => ?_⟩⟩
  · rcases disconnect_cases hrun with ⟨hws, htop⟩ | ⟨q, xb, qb, hxb, hp, hqb, -, rfl⟩
    · -- a top-level block is held by no socket
      rw [hws]
      have hno : ws.holds y s ≠ some x := fun h => by
        rw [hF.parentOf_of_holds h] at htop
        cases htop rfl
      rw [if_neg hno]
    · have hxq : ws.parentOf x = some q := by rw [parentOf_of_get? hxb, hp]
      have hqx : q ≠ x := fun he => hF.acyclic x (Ancestor.of_parentOf (he ▸ hxq))
      rw [holds_change_of_holds (Block.holds_unplug) x y s, holds_change]
      split
      · subst y
        have hnd := hF.sockets_nodup q
        rw [socketsOf_of_get? hqb] at hnd
        simp [hqb, Block.holds_release _ _ _ hnd, holds_of_get? hqb]
      · rename_i hqy
        -- only `q` held `x`
        have hno : ws.holds y s ≠ some x := fun h => by
          rw [hF.parentOf_of_holds h] at hxq
          exact hqy (Option.some.inj hxq).symm
        rw [if_neg hno]
  · by_cases hyx : y = x
    · subst y
      rw [if_pos rfl, disconnect_ok_top hrun]
    · rw [if_neg hyx, disconnect_parentOf_ne hrun hyx]
  · rcases disconnect_cases hrun with ⟨rfl, -⟩ | ⟨q, xb, qb, -, -, -, -, rfl⟩
    · rfl
    · simp only [get?_change]
      split <;> split <;> simp

/-- Linking into a free socket: the child is unplugged from its old place and hung from the
socket's block, whose socket takes it. -/
theorem plug_links (st : Bool) (hF : ws.Forest) {p c : Nat} {S : Socket} {plug : Block → Block}
    (hfill : ∀ b, b.Has S → ∀ s, (plug b).holds s = if s = S then some c else b.holds s)
    (hpar : ∀ b, (plug b).parent = b.parent) {pb : Block} (hpb : ws.get? p = some pb)
    (hS : pb.Has S) (hfree : ws.holds p S = none) (hc : ∃ b, ws.get? c = some b) (hne : c ≠ p) :
    ∃ ws', (do disconnect c; update p plug; update c (·.hangFrom p st) : WorkspaceM Unit).run.run ws
      = (.ok (), ws') ∧ ws.Links ws' p S c := by
  obtain ⟨ws₂, hrun, hU⟩ := disconnect_unplugs hF hc
  -- the parent is still live with the socket, released from the child at most
  obtain ⟨pb₂, hpb₂, hS₂⟩ : ∃ b, ws₂.get? p = some b ∧ b.Has S := by
    rw [hU.get? p (Ne.symm hne), hpb]
    split
    · exact ⟨_, rfl, hS.release _ _⟩
    · exact ⟨pb, rfl, hS⟩
  refine ⟨(ws₂.change p plug).change c (·.hangFrom p st),
    by simp only [run_bind, hrun, run_update], ⟨fun y s => ?_, fun x => ?_,
    fun x hxp hxc _ hcx => ?_⟩⟩
  · rw [holds_change_of_holds (fun b s => Block.holds_hangFrom b p st s), holds_change]
    split
    · subst y
      rw [hpb₂, Option.bind_some, hfill pb₂ hS₂, ← holds_of_get? hpb₂, hU.holds]
      by_cases hs : s = S
      · simp [hs]
      · simp [hs]
    · rename_i hpy
      rw [hU.holds, if_neg (show ¬(y = p ∧ s = S) from fun h => hpy h.1.symm)]
  · rw [parentOf_change, parentOf_change_of_parent hpar, hU.parentOf, hfree]
    by_cases hxc : x = c
    · subst x
      obtain ⟨cb, hcb⟩ : ∃ b, ws₂.get? c = some b :=
        Option.isSome_iff_exists.mp (by rw [hU.live]; exact Option.isSome_iff_exists.mpr hc)
      simp [hcb, Ne.symm hne]
    · rw [if_neg (Ne.symm hxc), if_neg hxc, if_neg hxc]
      simp
  · simp only [get?_change, if_neg (Ne.symm hxp), if_neg (Ne.symm hxc)]
    rw [hU.get? x hxc, if_neg hcx]

/-- **Linking on a forest**: the socket's old block is unplugged, which frees the socket, then
the child is plugged in; the result is `Links`. -/
theorem link_links (st : Bool) (hF : ws.Forest) {p c : Nat} {S : Socket} {plug : Block → Block}
    (hfill : ∀ b, b.Has S → ∀ s, (plug b).holds s = if s = S then some c else b.holds s)
    (hpar : ∀ b, (plug b).parent = b.parent) {pb : Block} (hpb : ws.get? p = some pb)
    (hS : pb.Has S) (hc : ∃ b, ws.get? c = some b) (hne : c ≠ p) :
    ∃ ws', (link p c (pb.holds S) plug st).run.run ws = (.ok (), ws') ∧ ws.Links ws' p S c := by
  rcases ho : pb.holds S with _ | o
  · exact plug_links st hF hfill hpar hpb hS (by rw [holds_of_get? hpb, ho]) hc hne
  · have ho' : ws.holds p S = some o := by rw [holds_of_get? hpb, ho]
    have hop : ws.parentOf o = some p := hF.parentOf_of_holds ho'
    obtain ⟨ws₁, hrun₁, hU⟩ := disconnect_unplugs hF (live_of_parentOf hop)
    have hF₁ : ws₁.Forest := by simpa [hrun₁] using disconnect_forest o ws hF
    have hpo : p ≠ o := fun he => hF.acyclic o (Ancestor.of_parentOf (he ▸ hop))
    -- the parent keeps the socket, now free; the child is still live
    have hpb₁ : ws₁.get? p = some (pb.release o) := by
      rw [hU.get? p hpo, if_pos hop, hpb]
      rfl
    obtain ⟨cb₁, hcb₁⟩ : ∃ b, ws₁.get? c = some b :=
      Option.isSome_iff_exists.mp (by rw [hU.live]; exact Option.isSome_iff_exists.mpr hc)
    obtain ⟨ws', hrun, hL⟩ := plug_links st hF₁ hfill hpar hpb₁ (hS.release _ _)
      (by rw [hU.holds, if_pos ho']) ⟨cb₁, hcb₁⟩ hne
    refine ⟨ws', ?_, hU.links hF ho' hL⟩
    simp only [run_bind] at hrun
    simp only [link, run_bind, hrun₁]
    exact hrun

section Kept

variable {Q : Block → Prop} (hrel : ∀ b x, Q b → Q (b.release x)) (hun : ∀ b, Q b → Q b.unplug)
  (hhang : ∀ b p s, Q b → Q (b.hangFrom p s))

/-- A property of one live block that a change keeps survives the change. -/
theorem update_at (i j : Nat) {f : Block → Block} (hf : ∀ b, Q b → Q (f b)) :
    Keeps (fun ws => ∃ b, ws.get? i = some b ∧ Q b) (update j f) := by
  rintro ws ⟨b, hb, hQ⟩
  show ∃ b', (ws.change j f).get? i = some b' ∧ Q b'
  rw [get?_change]
  split
  · exact ⟨f b, by rw [hb]; rfl, hf b hQ⟩
  · exact ⟨b, hb, hQ⟩

include hrel hun hhang in
/-- Linking keeps a property of one live block that each of its steps keeps. -/
theorem link_at {p c : Nat} {occ : Option Nat} {plug : Block → Block} {s : Bool}
    (hplug : ∀ b, Q b → Q (plug b)) (i : Nat) :
    Keeps (fun ws => ∃ b, ws.get? i = some b ∧ Q b) (link p c occ plug s) := by
  have hrest : Keeps (fun ws => ∃ b, ws.get? i = some b ∧ Q b)
      (do disconnect c; update p plug; update c (·.hangFrom p s) : WorkspaceM Unit) :=
    Keeps.bind (disconnect_at hrel hun c i) fun _ =>
      Keeps.bind (update_at i p hplug) fun _ => update_at i c fun b => hhang b p s
  cases occ with
  | none => exact hrest
  | some o => exact Keeps.bind (disconnect_at hrel hun o i) fun _ => hrest

end Kept

variable {ws' : Workspace} {p c : Nat} {r : Except HostError Unit}

/-- **Connecting on a forest** fails with nothing changed, or succeeds and links the child into
the visible input of the name, which then holds it. -/
theorem connect_links (hF : ws.Forest) {name : String}
    (h : (connect p name c).run.run ws = (r, ws')) :
    (ws' = ws ∧ ∃ e, r = .error e) ∨
      r = .ok () ∧ ∃ pb k, ws.get? p = some pb ∧ pb.inputNamed? name = some k ∧
        ws.Links ws' p (.input k) c ∧ (ws'.get? p).bind (·.targetOf? name) = some c := by
  rcases connect_cases h with hfail | ⟨pb, k, input, socket, hpb, ⟨cb, -, hcb, -, -⟩, hk, hi, hs,
    hne, -, hlink⟩
  · exact Or.inl hfail
  have hS : pb.Has (.input k) := ⟨input, hi, by simp [hs]⟩
  -- the occupant `connect` unplugs is what the input holds
  have hocc : socket.target = pb.holds (.input k) := by simp [Block.holds, hi, Input.target, hs]
  obtain ⟨ws'', hrun, hL⟩ := link_links (input.kind == .statement) hF
    (fun b hb s => b.holds_plugInput c s hb) (fun _ => rfl) hpb hS ⟨cb, hcb⟩ (Ne.symm hne)
  rw [← hocc, hlink, Prod.mk.injEq] at hrun
  obtain ⟨rfl, hws⟩ := hrun
  subst hws
  -- the line and the names of the parent are kept, so the name shows the same input
  have hkeep : Keeps (fun ws => ∃ b, ws.get? p = some b ∧ pb.NamesLike b)
      (link p c socket.target (·.plugInput k c) (input.kind == .statement)) :=
    link_at (fun _ x h => h.release x) (fun _ h => h.unplug) (fun _ q st h => h.hangFrom q st)
      (fun _ h => h.plugInput c k) p
  have hnamed := hkeep ws ⟨pb, hpb, .refl pb⟩
  rw [hlink] at hnamed
  obtain ⟨pb', hpb', hnames⟩ := hnamed
  refine Or.inr ⟨rfl, pb, k, hpb, hk, hL, ?_⟩
  rw [hpb', Option.bind_some, Block.targetOf?_eq (by rw [hnames.inputNamed?_eq, hk]),
    ← holds_of_get? hpb', hL.holds, if_pos ⟨rfl, rfl⟩]

/-- **Chaining on a forest** fails with nothing changed, or succeeds and links the block into the
next connection. -/
theorem connectNext_links (hF : ws.Forest) (h : (connectNext p c).run.run ws = (r, ws')) :
    (ws' = ws ∧ ∃ e, r = .error e) ∨ r = .ok () ∧ ws.Links ws' p .next c := by
  rcases connectNext_cases h with hfail | ⟨pb, socket, hpb, ⟨cb, -, hcb, -, -⟩, hs, hne, -, hlink⟩
  · exact Or.inl hfail
  have hS : pb.Has .next := by simp [Block.Has, hs]
  have hocc : socket.target = pb.holds .next := by simp [Block.holds, hs]
  obtain ⟨ws'', hrun, hL⟩ := link_links true hF (fun b hb s => b.holds_plugNext c s hb)
    (fun _ => rfl) hpb hS ⟨cb, hcb⟩ (Ne.symm hne)
  rw [← hocc, hlink, Prod.mk.injEq] at hrun
  obtain ⟨rfl, hws⟩ := hrun
  subst hws
  exact Or.inr ⟨rfl, hL⟩

end WorkspaceM

open Workspace WorkspaceM in
/-- **Connecting and chaining change only what they connect.** On a forest, a `connect` or a
`connectNext` that fails leaves the workspace as it was. One that succeeds links the child into
the visible input of the name, which then holds it, or into the next connection, and changes
nothing else than `Links` lists: the old occupant is unplugged but keeps its own sockets, save
the one that held the child when the child hung right below it. -/
theorem connecting_changes_only_link {ws : Workspace} (hF : ws.Forest) :
    (∀ p name c r ws', (connect p name c).run.run ws = (r, ws') →
      (ws' = ws ∧ ∃ e, r = .error e) ∨
        r = .ok () ∧ ∃ pb k, ws.get? p = some pb ∧ pb.inputNamed? name = some k ∧
          ws.Links ws' p (.input k) c ∧ (ws'.get? p).bind (·.targetOf? name) = some c) ∧
    (∀ p c r ws', (connectNext p c).run.run ws = (r, ws') →
      (ws' = ws ∧ ∃ e, r = .error e) ∨ r = .ok () ∧ ws.Links ws' p .next c) :=
  ⟨fun _ _ _ _ _ h => connect_links hF h, fun _ _ _ _ h => connectNext_links hF h⟩

/-- A value type `P` with one input `X`. -/
def Op.parentPlan : BlockPlan :=
  { name := "P", kind := .value, orientation := .horizontal, categories := [], tooltip := "",
    helpUrl := "", colours := [],
    variants := .leaf ⟨"P", [("X", { name := "X" })], [], none, none⟩ "%\x7bX\x7d" }

/-- A value type `O` of output `Number` with one input `Y`. -/
def Op.middlePlan : BlockPlan :=
  { name := "O", kind := .value, orientation := .horizontal, categories := [], tooltip := "",
    helpUrl := "", colours := [],
    variants := .leaf ⟨"O", [("Y", { name := "Y" })], [], some ⟨some ["Number"]⟩, none⟩
      "%\x7bY\x7d" }

/-- A value type `C` of output `Number` with no input. -/
def Op.childPlan : BlockPlan :=
  { name := "C", kind := .value, orientation := .horizontal, categories := [], tooltip := "",
    helpUrl := "", colours := [],
    variants := .leaf ⟨"C", [], [], some ⟨some ["Number"]⟩, none⟩ "" }

/-- Blocks `0`, `1` and `2` of `P`, `O` and `C`: block `1` in the input `X` of block `0`, and
block `2` in the input `Y` of block `1`. -/
def Op.nestedSession : List Op :=
  [.define Op.parentPlan, .define Op.middlePlan, .define Op.childPlan, .newBlock "P",
    .newBlock "O", .newBlock "C", .connect 0 "X" 1, .connect 1 "Y" 2]

open Workspace WorkspaceM in
/-- Moving block `2` into the input `X` of block `0` succeeds and links it there. -/
theorem nested_connect_links :
    let ws := (Session.init.run Op.nestedSession).ws
    ∃ pb k, ws.get? 0 = some pb ∧ pb.inputNamed? "X" = some k ∧
      ws.Links ((connect 0 "X" 2).run.run ws).2 0 (.input k) 2 := by
  intro ws
  have hadm : Session.init.Admits Op.nestedSession := by
    simp [Op.nestedSession, Session.Admits, Op.Admitted]
  have hF : ws.Forest := (Session.run_wellFormed (wellFormed_empty _) hadm).forest
  have hok : ((connect 0 "X" 2).run.run ws).1.isOk = true := by decide +kernel
  rcases hrun : (connect 0 "X" 2).run.run ws with ⟨r, ws'⟩
  rw [hrun] at hok
  rcases (connecting_changes_only_link hF).1 0 "X" 2 r ws' hrun with ⟨-, e, rfl⟩ |
    ⟨-, pb, k, hpb, hk, hL, -⟩
  · cases hok
  · exact ⟨pb, k, hpb, hk, hL⟩

open Workspace WorkspaceM in
/-- The old occupant's subtree loses the child when the child hung below it: moving block `2`
into the input `X`, which holds block `1`, empties the input `Y` of block `1`. -/
theorem moved_child_leaves_occupant :
    let ws := (Session.init.run Op.nestedSession).ws
    ((connect 0 "X" 2).run.run ws).1.isOk = true ∧ ws.holds 0 (.input 0) = some 1 ∧
      ws.holds 1 (.input 0) = some 2 ∧ ((connect 0 "X" 2).run.run ws).2.holds 1 (.input 0) = none := by
  decide +kernel

end Blockwork
