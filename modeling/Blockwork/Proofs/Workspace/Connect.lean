import Blockwork.Proofs.Workspace.Hierarchy

/-!
# Plugging and unplugging

`disconnect`, `connect` and `connectNext` are the three operations that move connections. This
file runs them on a forest and shows that they keep it, whether they succeed or fail.

Each operation is built from five steps on single blocks (`Block.release`, `Block.unplug`,
`Block.plugInput`, `Block.plugNext`, `Block.hangFrom`). The first part says what each step does to
the block's parent and sockets and what it leaves alone (its id, its type, whether it has a next
connection). A socket that holds nothing is **open** (`Block.OpenInput`, `Block.OpenNext`); plugging
a block into an open socket adds exactly that block to the sockets. The two sockets a connection
can fill are the two instances of `Block.Filling`.

The second part runs the operations:

* `disconnect x` either changes nothing or releases `x` from its parent's sockets and unplugs
  `x` itself (`disconnect_cases`), which is `Forest.detach`;
* `connect` and `connectNext` check everything before changing anything (`connect_cases`,
  `connectNext_cases`) and then `link`: they unplug the block the socket held, which frees the
  socket, and the new child from its old place, which leaves it top-level, and plug the child in,
  which is `Forest.attach`. The cycle check they make is exact on a forest
  (`not_ancestor_of_check`), so the new link closes no cycle.
-/

namespace Blockwork

namespace Block

/-! ### Steps on one block -/

section Steps

variable (b : Block) (c k q : Nat) (s : Bool)

@[simp] theorem release_id : (b.release c).id = b.id := by unfold release; split <;> rfl
@[simp] theorem release_typeName : (b.release c).typeName = b.typeName := by
  unfold release; split <;> rfl
@[simp] theorem release_parent : (b.release c).parent = b.parent := by
  unfold release; split <;> rfl
@[simp] theorem release_next_isSome : (b.release c).next.isSome = b.next.isSome := by
  unfold release; split <;> simp

@[simp] theorem unplug_id : b.unplug.id = b.id := rfl
@[simp] theorem unplug_typeName : b.unplug.typeName = b.typeName := rfl
@[simp] theorem unplug_parent : b.unplug.parent = none := rfl
@[simp] theorem unplug_next : b.unplug.next = b.next := rfl
@[simp] theorem unplug_sockets : b.unplug.sockets = b.sockets := rfl

@[simp] theorem plugInput_id : (b.plugInput k c).id = b.id := rfl
@[simp] theorem plugInput_typeName : (b.plugInput k c).typeName = b.typeName := rfl
@[simp] theorem plugInput_parent : (b.plugInput k c).parent = b.parent := rfl
@[simp] theorem plugInput_next : (b.plugInput k c).next = b.next := rfl

@[simp] theorem plugNext_id : (b.plugNext c).id = b.id := rfl
@[simp] theorem plugNext_typeName : (b.plugNext c).typeName = b.typeName := rfl
@[simp] theorem plugNext_parent : (b.plugNext c).parent = b.parent := rfl
@[simp] theorem plugNext_next_isSome : (b.plugNext c).next.isSome = b.next.isSome := by
  simp [plugNext]

@[simp] theorem hangFrom_id : (b.hangFrom q s).id = b.id := by unfold hangFrom; split <;> rfl
@[simp] theorem hangFrom_typeName : (b.hangFrom q s).typeName = b.typeName := by
  unfold hangFrom; split <;> rfl
@[simp] theorem hangFrom_parent : (b.hangFrom q s).parent = some q := by
  unfold hangFrom; split <;> rfl
@[simp] theorem hangFrom_next : (b.hangFrom q s).next = b.next := by
  unfold hangFrom; split <;> rfl
@[simp] theorem hangFrom_sockets : (b.hangFrom q s).sockets = b.sockets := by
  unfold hangFrom; split <;> rfl

end Steps

/-- Clearing the inputs that hold `c` takes `c`, and only `c`, out of the arena's targets. -/
theorem filterMap_target_clear {h : Input → Input} {c : Nat}
    (hh : ∀ i, (h i).target = if i.target = some c then none else i.target) (l : List Input) :
    (l.map h).filterMap Input.target = (l.filterMap Input.target).filter (· != c) := by
  induction l with
  | nil => rfl
  | cons i l ih =>
    rw [List.map_cons, List.filterMap_cons, List.filterMap_cons, hh, ih]
    rcases ht : i.target with _ | t
    · simp
    · by_cases htc : t = c
      · simp [htc]
      · simp [htc]

/-- Releasing `c` takes `c`, and only `c`, out of the sockets of a block that holds it at most
once. -/
theorem release_sockets {b : Block} (c : Nat) (h : b.sockets.Nodup) :
    (b.release c).sockets = b.sockets.filter (· != c) := by
  unfold release
  split
  · -- the next connection held `c`, so no input does
    rename_i hn
    have hn' : b.next.bind (·.target) = some c := by simpa using hn
    have hc : c ∉ b.arenaTargets := by
      unfold sockets at h
      rw [hn'] at h
      exact (List.nodup_cons.mp h).1
    have hcl : ((b.next.map fun n => { n with target := none }).bind (·.target)) = none := by
      cases b.next <;> rfl
    simp only [sockets, hcl, hn', arenaTargets]
    rw [Option.toList_none, Option.toList_some, List.nil_append, List.singleton_append,
      List.filter_cons_of_neg (by simp), eq_comm, List.filter_eq_self]
    intro a ha
    simpa using fun (e : a = c) => hc (e ▸ ha)
  · -- every input holding `c` is cleared
    rename_i hn
    have hn' : b.next.bind (·.target) ≠ some c := by simpa using hn
    simp only [sockets, arenaTargets]
    rw [Array.toList_map, filterMap_target_clear (c := c), List.filter_append]
    · congr 1
      rcases hb : b.next.bind (·.target) with _ | t
      · rfl
      · rw [hb] at hn'
        simp [Option.toList, show t ≠ c from fun h => hn' (h ▸ rfl)]
    · intro i
      by_cases hi : i.target = some c
      · rw [if_pos (by simpa using hi), if_pos hi]
        simp only [Input.target, Option.bind_map]
        cases i.connection <;> rfl
      · rw [if_neg (by simpa using hi), if_neg hi]

/-- The input at `k` has a connection that holds nothing. -/
def OpenInput (b : Block) (k : Nat) : Prop :=
  ∃ i conn, b.input? k = some i ∧ i.connection = some conn ∧ conn.target = none

/-- The next connection exists and holds nothing. -/
def OpenNext (b : Block) : Prop := ∃ n, b.next = some n ∧ n.target = none

/-- The input at `k` holds `c`. -/
def HoldsAt (b : Block) (k c : Nat) : Prop := (b.input? k).bind Input.target = some c

theorem OpenInput.release {b : Block} {k : Nat} (h : b.OpenInput k) (c : Nat) :
    (b.release c).OpenInput k := by
  obtain ⟨i, conn, hi, hconn, ht⟩ := h
  unfold Block.release
  split
  · exact ⟨i, conn, hi, hconn, ht⟩
  · refine ⟨?w, conn, ?hw, ?hc, ht⟩
    case hw =>
      show (Array.map _ b.inputArena)[k]? = _
      rw [Array.getElem?_map, show b.inputArena[k]? = some i from hi]
      rfl
    case hc => simp [Input.target, hconn, ht]

/-- Releasing `c` opens the input that held it, unless `c` was the block chained after. -/
theorem HoldsAt.release_open {b : Block} {k c : Nat} (h : b.HoldsAt k c)
    (hn : b.next.bind (·.target) ≠ some c) : (b.release c).OpenInput k := by
  unfold HoldsAt at h
  rcases hi : b.input? k with _ | i
  · rw [hi] at h; cases h
  rw [hi] at h
  rcases hconn : i.connection with _ | conn
  · simp [Input.target, hconn] at h
  have ht : conn.target = some c := by simpa [Input.target, hconn] using h
  unfold Block.release
  rw [if_neg (by simpa using hn)]
  refine ⟨?w, { conn with target := none }, ?hw, ?hc, rfl⟩
  case hw =>
    show (Array.map _ b.inputArena)[k]? = _
    rw [Array.getElem?_map, show b.inputArena[k]? = some i from hi]
    rfl
  case hc => simp [Input.target, hconn, ht]

theorem OpenNext.release {b : Block} (h : b.OpenNext) (c : Nat) : (b.release c).OpenNext := by
  obtain ⟨n, hn, ht⟩ := h
  unfold Block.release
  split
  · exact ⟨{ n with target := none }, by simp [hn], rfl⟩
  · exact ⟨n, hn, ht⟩

/-- Releasing the block chained after opens the next connection. -/
theorem release_openNext {b : Block} {c : Nat} (h : b.next.bind (·.target) = some c) :
    (b.release c).OpenNext := by
  rcases hn : b.next with _ | n
  · rw [hn] at h; cases h
  unfold release
  rw [if_pos (by simpa using h)]
  exact ⟨{ n with target := none }, by simp [hn], rfl⟩

/-- A block held by an input is among the arena's targets. -/
theorem HoldsAt.mem_arenaTargets {b : Block} {k c : Nat} (h : b.HoldsAt k c) :
    c ∈ b.arenaTargets := by
  unfold HoldsAt at h
  obtain ⟨i, hi, ht⟩ := Option.bind_eq_some_iff.mp h
  have hmem : i ∈ b.inputArena.toList := List.mem_of_getElem? (by simpa [input?] using hi)
  exact List.mem_filterMap.mpr ⟨i, hmem, ht⟩

theorem HoldsAt.mem_sockets {b : Block} {k c : Nat} (h : b.HoldsAt k c) : c ∈ b.sockets :=
  List.mem_append_right _ h.mem_arenaTargets

/-- A block held by an input is not also the block chained after, when nothing is held twice. -/
theorem HoldsAt.next_ne {b : Block} {k c : Nat} (h : b.HoldsAt k c) (hnd : b.sockets.Nodup) :
    b.next.bind (·.target) ≠ some c := by
  intro hn
  unfold sockets at hnd
  rw [hn] at hnd
  exact (List.nodup_cons.mp hnd).1 h.mem_arenaTargets

/-- Changing one entry of a list, from one that `g` drops into one that `g` keeps as `c`, adds `c`
to what `g` keeps. -/
theorem filterMap_modify_perm {α β : Type} {l : List α} {k : Nat} {a : α} {g : α → Option β}
    {f : α → α} {c : β} (hk : l[k]? = some a) (ha : g a = none) (hfa : g (f a) = some c) :
    ((l.modify k f).filterMap g).Perm (c :: l.filterMap g) := by
  obtain ⟨hlt, hget⟩ := List.getElem?_eq_some_iff.mp hk
  obtain ⟨pre, a', post, hl, hlen, hmod⟩ := List.exists_of_modify f hlt
  have ha' : a' = a := by
    subst hl hlen
    simpa using hget
  subst ha'
  rw [hmod, hl]
  simp only [List.filterMap_append, List.filterMap_cons, ha, hfa]
  exact List.perm_middle

/-- Plugging into an open input adds exactly the plugged block to the sockets. -/
theorem OpenInput.plugInput_sockets {b : Block} {k : Nat} (h : b.OpenInput k) (c : Nat) :
    (b.plugInput k c).sockets.Perm (c :: b.sockets) := by
  obtain ⟨i, conn, hi, hconn, ht⟩ := h
  have harena := filterMap_modify_perm (g := Input.target) (c := c)
    (f := fun i => { i with connection := i.connection.map fun k => { k with target := some c } })
    (show b.inputArena.toList[k]? = some i by simpa [input?] using hi)
    (by simp [Input.target, hconn, ht]) (by simp [Input.target, hconn])
  simp only [sockets, arenaTargets, plugInput, modifyInput, Array.toList_modify]
  exact (harena.append_left _).trans List.perm_middle

/-- Plugging into an open next connection adds exactly the plugged block to the sockets. -/
theorem OpenNext.plugNext_sockets {b : Block} (h : b.OpenNext) (c : Nat) :
    (b.plugNext c).sockets = c :: b.sockets := by
  obtain ⟨n, hn, ht⟩ := h
  simp [sockets, plugNext, hn, ht, arenaTargets]

/-- A way of filling one socket of a parent with the block `c`. `Open` says the socket is free;
unplugging anything keeps it free, and filling a free socket adds exactly `c` to the sockets while
leaving the parent's id, type, parent and next connection as they were. -/
structure Filling (c : Nat) where
  plug : Block → Block
  Open : Block → Prop
  open_release : ∀ b x, Open b → Open (b.release x)
  open_unplug : ∀ b, Open b → Open b.unplug
  plug_sockets : ∀ b, Open b → (plug b).sockets.Perm (c :: b.sockets)
  plug_id : ∀ b, (plug b).id = b.id
  plug_typeName : ∀ b, (plug b).typeName = b.typeName
  plug_parent : ∀ b, (plug b).parent = b.parent
  plug_next_isSome : ∀ b, (plug b).next.isSome = b.next.isSome

/-- Filling the input at `k`. -/
def Filling.input (k c : Nat) : Filling c where
  plug b := b.plugInput k c
  Open b := b.OpenInput k
  open_release _ x h := h.release x
  open_unplug _ h := h
  plug_sockets _ h := h.plugInput_sockets c
  plug_id _ := rfl
  plug_typeName _ := rfl
  plug_parent _ := rfl
  plug_next_isSome _ := rfl

/-- Filling the next connection. -/
def Filling.next (c : Nat) : Filling c where
  plug b := b.plugNext c
  Open := OpenNext
  open_release _ x h := h.release x
  open_unplug _ h := h
  plug_sockets _ h := (h.plugNext_sockets c).symm ▸ List.Perm.refl _
  plug_id _ := rfl
  plug_typeName _ := rfl
  plug_parent _ := rfl
  plug_next_isSome b := plugNext_next_isSome b c

end Block

namespace Workspace

variable {ws : Workspace}

/-- A step that keeps ids keeps every live block under its own id. -/
theorem id_eq_change (hid : ∀ {i b}, ws.get? i = some b → b.id = i) {k : Nat} {f : Block → Block}
    (hf : ∀ b, (f b).id = b.id) {i : Nat} {b : Block} (hb : (ws.change k f).get? i = some b) :
    b.id = i := by
  rw [get?_change] at hb
  split at hb
  · obtain ⟨b0, h0, rfl⟩ := Option.map_eq_some_iff.mp hb
    rw [hf]
    exact hid h0
  · exact hid hb

@[simp] theorem parentOf_change (i j : Nat) (f : Block → Block) :
    (ws.change i f).parentOf j =
      if i = j then (ws.get? j).bind fun b => (f b).parent else ws.parentOf j := by
  unfold parentOf
  rw [get?_change]
  split
  · cases ws.get? j <;> rfl
  · rfl

@[simp] theorem socketsOf_change (i j : Nat) (f : Block → Block) :
    (ws.change i f).socketsOf j =
      if i = j then ((ws.get? j).map fun b => (f b).sockets).getD [] else ws.socketsOf j := by
  unfold socketsOf
  rw [get?_change]
  split
  · cases ws.get? j <;> rfl
  · rfl

/-- A step that keeps the parent link leaves the parent view alone. -/
theorem parentOf_change_of_parent {f : Block → Block} (hf : ∀ b, (f b).parent = b.parent)
    (i j : Nat) : (ws.change i f).parentOf j = ws.parentOf j := by
  rw [parentOf_change]
  split
  · subst j
    rcases h : ws.get? i <;> simp [parentOf, h, hf]
  · rfl

/-- A step that keeps the sockets leaves the socket view alone. -/
theorem socketsOf_change_of_sockets {f : Block → Block} (hf : ∀ b, (f b).sockets = b.sockets)
    (i j : Nat) : (ws.change i f).socketsOf j = ws.socketsOf j := by
  rw [socketsOf_change]
  split
  · subst j
    rcases h : ws.get? i <;> simp [socketsOf, h, hf]
  · rfl

end Workspace

namespace WorkspaceM

open Workspace

variable {ws ws' : Workspace}

/-! ### Unplugging -/

/-- Unplugging a block whose parent is live releases it there and unplugs it. -/
theorem run_disconnect {x p : Nat} {xb pb : Block} (hx : ws.get? x = some xb)
    (hp : xb.parent = some p) (hpb : ws.get? p = some pb) :
    (disconnect x).run.run ws = (.ok (), (ws.change p (·.release x)).change x Block.unplug) := by
  simp only [disconnect, run_bind, run_block hx, hp, run_block hpb, run_update]

/-- Unplugging a top-level block changes nothing. -/
theorem run_disconnect_top {x : Nat} {xb : Block} (hx : ws.get? x = some xb)
    (hp : xb.parent = none) : (disconnect x).run.run ws = (.ok (), ws) := by
  simp only [disconnect, run_bind, run_block hx, hp, run_pure]

/-- Otherwise unplugging changes nothing, and it succeeds only on a top-level block. -/
theorem disconnect_cases {x : Nat} {r : Except HostError Unit}
    (h : (disconnect x).run.run ws = (r, ws')) :
    (ws' = ws ∧ (r = .ok () → ws.parentOf x = none)) ∨
      ∃ p xb pb, ws.get? x = some xb ∧ xb.parent = some p ∧ ws.get? p = some pb ∧
        r = .ok () ∧ ws' = (ws.change p (·.release x)).change x Block.unplug := by
  rcases hx : ws.get? x with _ | xb
  · simp only [disconnect, run_bind, run_block_none hx] at h
    obtain ⟨rfl, rfl⟩ := h
    exact Or.inl ⟨rfl, fun hr => by cases hr⟩
  rcases hp : xb.parent with _ | p
  · simp only [disconnect, run_bind, run_block hx, hp, run_pure] at h
    obtain ⟨rfl, rfl⟩ := h
    exact Or.inl ⟨rfl, fun _ => by rw [parentOf_of_get? hx, hp]⟩
  rcases hpb : ws.get? p with _ | pb
  · simp only [disconnect, run_bind, run_block hx, hp, run_block_none hpb] at h
    obtain ⟨rfl, rfl⟩ := h
    exact Or.inl ⟨rfl, fun hr => by cases hr⟩
  rw [run_disconnect hx hp hpb, Prod.mk.injEq] at h
  obtain ⟨rfl, rfl⟩ := h
  exact Or.inr ⟨p, xb, pb, rfl, hp, hpb, rfl, rfl⟩

/-- After a successful unplugging the block is top-level. -/
theorem disconnect_ok_top {x : Nat} (h : (disconnect x).run.run ws = (.ok (), ws')) :
    ws'.parentOf x = none := by
  rcases disconnect_cases h with ⟨rfl, htop⟩ | ⟨p, xb, pb, hx, -, -, -, rfl⟩
  · exact htop rfl
  · simp [hx]

/-- Unplugging only takes parent links away. -/
theorem disconnect_parentOf {x i q : Nat} {r : Except HostError Unit}
    (h : (disconnect x).run.run ws = (r, ws')) (hq : ws'.parentOf i = some q) :
    ws.parentOf i = some q := by
  rcases disconnect_cases h with ⟨rfl, -⟩ | ⟨p, xb, pb, -, -, -, -, rfl⟩
  · exact hq
  · rw [parentOf_change] at hq
    split at hq
    · simp at hq
    · rwa [parentOf_change_of_parent (Block.release_parent · x)] at hq

/-- Unplugging changes no parent link but that of the unplugged block. -/
theorem disconnect_parentOf_ne {x j : Nat} {r : Except HostError Unit}
    (h : (disconnect x).run.run ws = (r, ws')) (hj : j ≠ x) : ws'.parentOf j = ws.parentOf j := by
  rcases disconnect_cases h with ⟨rfl, -⟩ | ⟨p, xb, pb, -, -, -, -, rfl⟩
  · rfl
  · rw [parentOf_change, if_neg (Ne.symm hj), parentOf_change_of_parent (Block.release_parent · x)]

/-- A successful unplugging changes no block but the unplugged one and its parent, which lets go
of it. -/
theorem disconnect_get?_ne {x j : Nat} (h : (disconnect x).run.run ws = (.ok (), ws'))
    (hj : j ≠ x) :
    ws'.get? j = if ws.parentOf x = some j then (ws.get? j).map (·.release x) else ws.get? j := by
  rcases disconnect_cases h with ⟨rfl, htop⟩ | ⟨p, xb, pb, hx, hp, -, -, rfl⟩
  · rw [htop rfl]
    rfl
  · have hxp : ws.parentOf x = some p := by rw [parentOf_of_get? hx, hp]
    simp only [get?_change, if_neg (Ne.symm hj), hxp, Option.some.injEq]

section Kept

variable {Q : Block → Prop} (hrel : ∀ b x, Q b → Q (b.release x)) (hun : ∀ b, Q b → Q b.unplug)
include hrel hun

/-- A property of a live block that releasing and unplugging keep survives unplugging. -/
theorem disconnect_at (x i : Nat) :
    Keeps (fun ws => ∃ b, ws.get? i = some b ∧ Q b) (disconnect x) := by
  rintro ws ⟨b, hb, hQ⟩
  rcases hr : (disconnect x).run.run ws with ⟨r, ws'⟩
  rcases disconnect_cases hr with ⟨rfl, -⟩ | ⟨p, xb, pb, -, -, -, -, rfl⟩
  · exact ⟨b, hb, hQ⟩
  · by_cases hpi : p = i <;> by_cases hxi : x = i <;> simp [hpi, hxi, hb, hQ, hrel, hun]

/-- A property of every live block that releasing and unplugging keep survives unplugging. -/
theorem disconnect_all (x : Nat) : Keeps (Workspace.All Q) (disconnect x) := by
  intro ws hall
  rcases hr : (disconnect x).run.run ws with ⟨r, ws'⟩
  rcases disconnect_cases hr with ⟨rfl, -⟩ | ⟨p, xb, pb, -, -, -, -, rfl⟩
  · exact hall
  · exact (hall.change (fun b => hrel b x) p).change hun x

end Kept

/-- On a forest, unplugging a live block succeeds. -/
theorem disconnect_ok (hF : ws.Forest) {x : Nat} {xb : Block} (hx : ws.get? x = some xb) :
    ∃ ws', (disconnect x).run.run ws = (.ok (), ws') := by
  rcases hp : xb.parent with _ | p
  · exact ⟨ws, run_disconnect_top hx hp⟩
  · -- the parent of a live block is live
    have hxp : ws.parentOf x = some p := by rw [parentOf_of_get? hx, hp]
    obtain ⟨pb, hpb⟩ := live_of_mem_socketsOf (hF.held_by_parent hxp)
    exact ⟨_, run_disconnect hx hp hpb⟩

/-! ### Connecting -/

/-- A check that throws leaves the workspace as it was. -/
theorem unchanged_of_throw {e : HostError} {r : Except HostError Unit}
    (h : ((Except.error e : Except HostError Unit), ws) = (r, ws')) :
    ws' = ws ∧ ∃ e, r = .error e :=
  ⟨(congrArg Prod.snd h).symm, e, (congrArg Prod.fst h).symm⟩

/-- `connect` fails with nothing changed, or all its checks pass and it links the child into the
visible input of the name. -/
theorem connect_cases {parent child : Nat} {name : String} {r : Except HostError Unit}
    (h : (connect parent name child).run.run ws = (r, ws')) :
    (ws' = ws ∧ ∃ e, r = .error e) ∨
    ∃ pb k input socket, ws.get? parent = some pb ∧
      (∃ b plug, ws.get? child = some b ∧
        (if (input.kind == .statement) = true then b.previous else b.output) = some plug ∧
        socket.compatible plug = true) ∧
      pb.inputNamed? name = some k ∧ pb.input? k = some input ∧ input.connection = some socket ∧
      parent ≠ child ∧
      ws.isAncestor child (ws.blocks.length + 1) pb.parent = false ∧
      (link parent child socket.target (·.plugInput k child) (input.kind == .statement)).run.run ws
        = (r, ws') := by
  rcases hpb : ws.get? parent with _ | pb
  · simp only [connect, run_bind, run_block_none hpb] at h
    exact Or.inl (unchanged_of_throw h)
  rcases hcb : ws.get? child with _ | cb
  · simp only [connect, run_bind, run_block hpb, run_block_none hcb] at h
    exact Or.inl (unchanged_of_throw h)
  simp only [connect, run_bind, run_block hpb, run_block hcb] at h
  -- every failed check throws before anything is changed
  rcases hk : pb.inputNamed? name with _ | k
  · simp only [hk, run_throw] at h
    exact Or.inl (unchanged_of_throw h)
  rcases hi : pb.input? k with _ | input
  · simp only [hk, hi, run_throw] at h
    exact Or.inl (unchanged_of_throw h)
  rcases hs : input.connection with _ | socket
  · simp only [hk, hi, hs, run_throw] at h
    exact Or.inl (unchanged_of_throw h)
  rcases hplug : (if (input.kind == .statement) = true then cb.previous else cb.output) with
    _ | plug
  · simp only [hk, hi, hs, hplug, run_throw] at h
    exact Or.inl (unchanged_of_throw h)
  simp only [hk, hi, hs, hplug] at h
  split at h
  · simp only [run_bind, run_throw] at h
    exact Or.inl (unchanged_of_throw h)
  rename_i hcompat
  simp only [run_bind, run_get] at h
  split at h
  · simp only [run_bind, run_throw] at h
    exact Or.inl (unchanged_of_throw h)
  rename_i hcyc
  simp only [Bool.or_eq_true, beq_iff_eq, not_or, Bool.not_eq_true] at hcyc
  exact Or.inr ⟨pb, k, input, socket, rfl, ⟨cb, plug, rfl, hplug, by simpa using hcompat⟩, hk, hi,
    hs, hcyc.1, hcyc.2, h⟩

/-- `connectNext` fails with nothing changed, or all its checks pass and it links the block in. -/
theorem connectNext_cases {previous next : Nat} {r : Except HostError Unit}
    (h : (connectNext previous next).run.run ws = (r, ws')) :
    (ws' = ws ∧ ∃ e, r = .error e) ∨ ∃ pb socket, ws.get? previous = some pb ∧
      (∃ b plug, ws.get? next = some b ∧ b.previous = some plug ∧ socket.compatible plug = true) ∧
      pb.next = some socket ∧ previous ≠ next ∧
      ws.isAncestor next (ws.blocks.length + 1) pb.parent = false ∧
      (link previous next socket.target (·.plugNext next) true).run.run ws = (r, ws') := by
  rcases hpb : ws.get? previous with _ | pb
  · simp only [connectNext, run_bind, run_block_none hpb] at h
    exact Or.inl (unchanged_of_throw h)
  rcases hnb : ws.get? next with _ | nb
  · simp only [connectNext, run_bind, run_block hpb, run_block_none hnb] at h
    exact Or.inl (unchanged_of_throw h)
  simp only [connectNext, run_bind, run_block hpb, run_block hnb] at h
  -- every failed check throws before anything is changed
  rcases hs : pb.next with _ | socket
  · simp only [hs, run_throw] at h
    exact Or.inl (unchanged_of_throw h)
  rcases hplug : nb.previous with _ | plug
  · simp only [hs, hplug, run_throw] at h
    exact Or.inl (unchanged_of_throw h)
  simp only [hs, hplug] at h
  split at h
  · simp only [run_bind, run_throw] at h
    exact Or.inl (unchanged_of_throw h)
  rename_i hcompat
  simp only [run_bind, run_get] at h
  split at h
  · simp only [run_bind, run_throw] at h
    exact Or.inl (unchanged_of_throw h)
  rename_i hcyc
  simp only [Bool.or_eq_true, beq_iff_eq, not_or, Bool.not_eq_true] at hcyc
  exact Or.inr ⟨pb, socket, rfl, ⟨nb, plug, rfl, hplug, by simpa using hcompat⟩, hs, hcyc.1,
    hcyc.2, h⟩
/-- The cycle check of a connection is exact on a hierarchy, so on a forest too: it passes only
when the child is not an ancestor of the parent. -/
theorem not_ancestor_of_check (hH : ws.Hierarchy) {parent child : Nat} {pb : Block}
    (hpb : ws.get? parent = some pb)
    (hcyc : ws.isAncestor child (ws.blocks.length + 1) pb.parent = false) :
    ¬ ws.Ancestor child parent := by
  rw [← hH.isAncestor_iff, parentOf_of_get? hpb, hcyc]
  exact Bool.false_ne_true

/-! ### Plugging in

The forest and the hierarchy are kept by one argument: unplugging is a detachment, plugging a
top-level block into a free socket is an attachment, and the cycle check of a connection is exact.
The lemmas below make that argument once, for an invariant `I` that includes the hierarchy and
survives both kinds of edit; the forest and the hierarchy are its two instances. -/

section Link

variable {p c : Nat} (s : Bool)

/-- Linking a top-level block into a socket that holds nothing plugs it in at once. -/
theorem run_link_free {cb : Block} (hc : ws.get? c = some cb) (htop : cb.parent = none)
    (plug : Block → Block) : (link p c none plug s).run.run ws =
      (.ok (), (ws.change p plug).change c (·.hangFrom p s)) := by
  simp only [link, run_bind, run_disconnect_top hc htop, run_update]

variable {I : Workspace → Prop} (hH : ∀ {ws : Workspace}, I ws → ws.Hierarchy)
  (hdetach : ∀ {ws ws' : Workspace} {c p : Nat}, I ws → ws.parentOf c = some p →
    (∀ {i b}, ws'.get? i = some b → b.id = i) → ws'.parentOf c = none →
    (∀ i, i ≠ c → ws'.parentOf i = ws.parentOf i) →
    ws'.socketsOf p = (ws.socketsOf p).filter (· != c) →
    (∀ i, i ≠ p → ws'.socketsOf i = ws.socketsOf i) → I ws')
include hH hdetach

/-- Unplugging keeps an invariant that every detachment keeps, whether it succeeds or fails. -/
theorem disconnect_keeps (x : Nat) : Keeps I (disconnect x) := by
  intro ws hI
  rcases hr : (disconnect x).run.run ws with ⟨r, ws'⟩
  rcases disconnect_cases hr with ⟨rfl, -⟩ | ⟨p, xb, pb, hx, hp, hpb, -, rfl⟩
  · exact hI
  have hxp : ws.parentOf x = some p := by rw [parentOf_of_get? hx, hp]
  -- `x` is not its own parent
  have hne : p ≠ x := fun he => (hH hI).acyclic x (Ancestor.of_parentOf (he ▸ hxp))
  refine hdetach hI hxp (id_eq_change (id_eq_change (hH hI).id_eq (Block.release_id · x))
    Block.unplug_id) ?_ (fun i hi => ?_) ?_ (fun i hi => ?_)
  · simp [hx, hne]
  · exact disconnect_parentOf_ne hr hi
  · have hnd := (hH hI).sockets_nodup p
    rw [socketsOf_of_get? hpb] at hnd
    simp [hpb, Block.release_sockets x hnd, socketsOf_of_get? hpb]
  · rw [socketsOf_change_of_sockets Block.unplug_sockets, socketsOf_change, if_neg (Ne.symm hi)]

variable (hattach : ∀ {ws ws' : Workspace} {c p : Nat}, I ws → ws.parentOf c = none → c ≠ p →
    ¬ ws.Ancestor c p → (∀ {i b}, ws'.get? i = some b → b.id = i) → ws'.parentOf c = some p →
    (∀ i, i ≠ c → ws'.parentOf i = ws.parentOf i) → (ws'.socketsOf p).Perm (c :: ws.socketsOf p) →
    (∀ i, i ≠ p → ws'.socketsOf i = ws.socketsOf i) → I ws') (F : Block.Filling c)
include hattach

/-- Once the socket is free, unplugging the child from its old place and plugging it into the
socket keeps the invariant. -/
theorem plug_keeps (hI : I ws) (hp : ∃ b, ws.get? p = some b ∧ F.Open b)
    (hc : ∃ b, ws.get? c = some b) (hne : c ≠ p) (hanc : ¬ ws.Ancestor c p) :
    I ((do disconnect c; update p F.plug; update c (·.hangFrom p s) : WorkspaceM Unit)
      |>.run.run ws).2 := by
  have hkeep := disconnect_keeps hH hdetach c ws hI
  rw [run_bind]
  rcases hr : (disconnect c).run.run ws with ⟨_ | _, ws2⟩
  · simpa [hr] using hkeep
  simp only [run_bind, run_update]
  have hI2 : I ws2 := by simpa [hr] using hkeep
  obtain ⟨pb, hpb, hopen⟩ : ∃ b, ws2.get? p = some b ∧ F.Open b := by
    simpa [hr] using disconnect_at F.open_release F.open_unplug c p ws hp
  obtain ⟨cb, hcb, -⟩ : ∃ b, ws2.get? c = some b ∧ True := by
    simpa [hr] using disconnect_at (Q := fun _ => True) (fun _ _ _ => trivial) (fun _ _ => trivial)
      c c ws (by simpa using hc)
  have htop : ws2.parentOf c = none := disconnect_ok_top hr
  have hanc2 : ¬ ws2.Ancestor c p := fun h =>
    hanc (Ancestor.mono (fun _ _ hq => disconnect_parentOf hr hq) h)
  refine hattach hI2 htop hne hanc2
    (id_eq_change (id_eq_change (hH hI2).id_eq F.plug_id) (Block.hangFrom_id · p s)) ?_
    (fun i hi => ?_) ?_ (fun i hi => ?_)
  · simp [Ne.symm hne, hcb]
  · rw [parentOf_change, if_neg (Ne.symm hi), parentOf_change_of_parent F.plug_parent]
  · rw [socketsOf_change_of_sockets (Block.hangFrom_sockets · p s), socketsOf_change, if_pos rfl,
      hpb, socketsOf_of_get? hpb]
    exact F.plug_sockets pb hopen
  · rw [socketsOf_change_of_sockets (Block.hangFrom_sockets · p s), socketsOf_change,
      if_neg (Ne.symm hi)]

/-- Linking keeps the invariant: the socket's old block `occ`, held by `p`, is unplugged first,
which frees the socket, and then the child is plugged in. -/
theorem link_keeps {occ : Option Nat} (hI : I ws) {pb : Block} (hpb : ws.get? p = some pb)
    (hc : ∃ b, ws.get? c = some b) (hne : c ≠ p) (hanc : ¬ ws.Ancestor c p)
    (hocc : ∀ o ∈ occ, ws.parentOf o = some p) (hopen : F.Open (occ.elim pb pb.release)) :
    I ((link p c occ F.plug s).run.run ws).2 := by
  cases occ with
  | none => exact plug_keeps s hH hdetach hattach F hI ⟨pb, hpb, hopen⟩ hc hne hanc
  | some o =>
    have hop : ws.parentOf o = some p := hocc o rfl
    obtain ⟨ob, hob, hobp⟩ : ∃ b, ws.get? o = some b ∧ b.parent = some p := by
      obtain ⟨ob, hob⟩ := live_of_parentOf hop
      exact ⟨ob, hob, by rwa [parentOf_of_get? hob] at hop⟩
    have hrun := run_disconnect hob hobp hpb
    -- `o` is not its own parent
    have hpo : p ≠ o := fun he => (hH hI).acyclic o (Ancestor.of_parentOf (he ▸ hop))
    simp only [link]
    rw [run_bind, hrun]
    refine plug_keeps s hH hdetach hattach F
      (by simpa [hrun] using disconnect_keeps hH hdetach o ws hI) ?_ ?_ hne ?_
    · exact ⟨pb.release o, by simp [hpb, Ne.symm hpo], hopen⟩
    · obtain ⟨cb, hcb⟩ := hc
      by_cases hoc : o = c <;> by_cases hpc : p = c <;> simp [hcb, hoc, hpc]
    · exact fun h => hanc (Ancestor.mono (fun _ _ hq => disconnect_parentOf hrun hq) h)

end Link

section Connecting

variable {I : Workspace → Prop} (hH : ∀ {ws : Workspace}, I ws → ws.Hierarchy)
  (hdetach : ∀ {ws ws' : Workspace} {c p : Nat}, I ws → ws.parentOf c = some p →
    (∀ {i b}, ws'.get? i = some b → b.id = i) → ws'.parentOf c = none →
    (∀ i, i ≠ c → ws'.parentOf i = ws.parentOf i) →
    ws'.socketsOf p = (ws.socketsOf p).filter (· != c) →
    (∀ i, i ≠ p → ws'.socketsOf i = ws.socketsOf i) → I ws')
  (hattach : ∀ {ws ws' : Workspace} {c p : Nat}, I ws → ws.parentOf c = none → c ≠ p →
    ¬ ws.Ancestor c p → (∀ {i b}, ws'.get? i = some b → b.id = i) → ws'.parentOf c = some p →
    (∀ i, i ≠ c → ws'.parentOf i = ws.parentOf i) → (ws'.socketsOf p).Perm (c :: ws.socketsOf p) →
    (∀ i, i ≠ p → ws'.socketsOf i = ws.socketsOf i) → I ws')
include hH hdetach hattach

/-- Connecting keeps an invariant that detachments and attachments keep, whether it succeeds or
fails. -/
theorem connect_keeps (parent : Nat) (name : String) (child : Nat) :
    Keeps I (connect parent name child) := by
  intro ws hI
  rcases hr : (connect parent name child).run.run ws with ⟨r, ws'⟩
  rcases connect_cases hr with ⟨rfl, -⟩ | ⟨pb, k, input, socket, hpb, hc, -, hi, hs, hne, hcyc, hlink⟩
  · exact hI
  have hnd : pb.sockets.Nodup := by
    simpa [socketsOf_of_get? hpb] using (hH hI).sockets_nodup parent
  -- the block the input holds, if any, is a child of `parent`
  have hheld : ∀ o, socket.target = some o → pb.HoldsAt k o := fun o ho => by
    simp [Block.HoldsAt, hi, Input.target, hs, ho]
  rw [← hlink]
  refine link_keeps _ hH hdetach hattach (Block.Filling.input k child) hI hpb
    (hc.imp fun _ ⟨_, h, _⟩ => h) (Ne.symm hne)
    (not_ancestor_of_check (hH hI) hpb hcyc) (fun o ho => ?_) ?_
  · exact (hH hI).parent_of_held
      (by rw [socketsOf_of_get? hpb]; exact (hheld o ho).mem_sockets)
  · rcases ht : socket.target with _ | o
    · exact ⟨input, socket, hi, hs, ht⟩
    · exact (hheld o ht).release_open ((hheld o ht).next_ne hnd)

/-- Chaining keeps an invariant that detachments and attachments keep, whether it succeeds or
fails. -/
theorem connectNext_keeps (previous next : Nat) : Keeps I (connectNext previous next) := by
  intro ws hI
  rcases hr : (connectNext previous next).run.run ws with ⟨r, ws'⟩
  rcases connectNext_cases hr with ⟨rfl, -⟩ | ⟨pb, socket, hpb, hn, hs, hne, hcyc, hlink⟩
  · exact hI
  rw [← hlink]
  refine link_keeps _ hH hdetach hattach (Block.Filling.next next) hI hpb
    (hn.imp fun _ ⟨_, h, _⟩ => h) (Ne.symm hne)
    (not_ancestor_of_check (hH hI) hpb hcyc) (fun o ho => ?_) ?_
  · -- the block chained before is a child of `previous`
    have hmem : o ∈ pb.sockets := by simp [Block.sockets, hs, Option.mem_def.mp ho]
    exact (hH hI).parent_of_held (by rw [socketsOf_of_get? hpb]; exact hmem)
  · rcases ht : socket.target with _ | o
    · exact ⟨socket, hs, ht⟩
    · exact Block.release_openNext (by simp [hs, ht])

end Connecting

/-! ### The forest and the hierarchy -/

/-- **Unplugging keeps the forest**, whether it succeeds or fails. -/
theorem disconnect_forest (x : Nat) : Keeps Forest (disconnect x) :=
  disconnect_keeps Forest.hierarchy (fun hF hcp => hF.detach hcp) x

/-- Once the socket is free, unplugging the child from its old place and plugging it into the
socket keeps the forest. -/
theorem plug_forest {p c : Nat} (F : Block.Filling c) (s : Bool) (hF : ws.Forest)
    (hp : ∃ b, ws.get? p = some b ∧ F.Open b) (hc : ∃ b, ws.get? c = some b) (hne : c ≠ p)
    (hanc : ¬ ws.Ancestor c p) :
    Forest ((do disconnect c; update p F.plug; update c (·.hangFrom p s) : WorkspaceM Unit)
      |>.run.run ws).2 :=
  plug_keeps s Forest.hierarchy (fun hF hcp => hF.detach hcp)
    (fun hF htop => hF.attach htop) F hF hp hc hne hanc

/-- **Connecting keeps the forest**, whether it succeeds or fails. -/
theorem connect_forest (parent : Nat) (name : String) (child : Nat) :
    Keeps Forest (connect parent name child) :=
  connect_keeps Forest.hierarchy (fun hF hcp => hF.detach hcp) (fun hF htop => hF.attach htop)
    parent name child

/-- **Chaining keeps the forest**, whether it succeeds or fails. -/
theorem connectNext_forest (previous next : Nat) : Keeps Forest (connectNext previous next) :=
  connectNext_keeps Forest.hierarchy (fun hF hcp => hF.detach hcp)
    (fun hF htop => hF.attach htop) previous next

/-- Unplugging keeps the hierarchy, whether it succeeds or fails. -/
theorem disconnect_hierarchy (x : Nat) : Keeps Hierarchy (disconnect x) :=
  disconnect_keeps id (fun hH hcp => hH.detach hcp) x

/-- Connecting keeps the hierarchy, whether it succeeds or fails. -/
theorem connect_hierarchy (parent : Nat) (name : String) (child : Nat) :
    Keeps Hierarchy (connect parent name child) :=
  connect_keeps id (fun hH hcp => hH.detach hcp) (fun hH htop => hH.attach htop) parent name child

/-- Chaining keeps the hierarchy, whether it succeeds or fails. -/
theorem connectNext_hierarchy (previous next : Nat) : Keeps Hierarchy (connectNext previous next) :=
  connectNext_keeps id (fun hH hcp => hH.detach hcp) (fun hH htop => hH.attach htop) previous next

end WorkspaceM

end Blockwork
