import Mathlib.Data.List.Nodup
import Mathlib.Logic.Relation
import Blockwork.Proofs.Workspace.Run

/-!
# The workspace forest

Every connection of a workspace is recorded on both of its ends: the parent's socket (its next
connection, or the connection of one of its inputs) holds the child's id, and the child holds the
parent's id. The blocks form a **forest** when the two records agree and parent links never come
back: a block's parent is live and holds it in exactly one socket, a block held in a socket is
live and has the holder as its parent, no block is held by two sockets, and following parent links
never revisits a block.

`Workspace.Forest` states these through two views of the store, `parentOf` and `socketsOf`, so
that an operation that leaves both views alone (changing a field, laying a block out again)
keeps the forest by `Forest.congr`. The other operations change the views in four ways, and
each way has its lemma: a child is unplugged (`Forest.detach`), a top-level block is plugged in
(`Forest.attach`), a set of blocks closed under what they hold is removed (`Forest.remove`), and
a fresh block is added (`Forest.append`).

The last part shows that the ancestor search of a workspace, which follows parents at most one
more time than there are ids, finds every ancestor of a forest, and of any workspace whose parent
links never come back: a chain of distinct live blocks is never longer than the store
(`isAncestor_iff_of_acyclic`).
-/

namespace Blockwork

namespace Block

/-- The blocks a block's sockets hold: the block chained after it, then the blocks plugged into
its inputs, visible or hidden, in arena order. A socket that holds nothing adds nothing. -/
def sockets (b : Block) : List Nat := (b.next.bind (·.target)).toList ++ b.arenaTargets

end Block

namespace Workspace

/-- The parent of a live block; `none` for a top-level block and for an id with no block. -/
def parentOf (ws : Workspace) (i : Nat) : Option Nat := (ws.get? i).bind (·.parent)

/-- What the sockets of a live block hold; nothing for an id with no block. -/
def socketsOf (ws : Workspace) (i : Nat) : List Nat := ((ws.get? i).map Block.sockets).getD []

/-- `a` is a strict ancestor of `x`: following parent links from `x` reaches `a`. -/
def Ancestor (ws : Workspace) (a x : Nat) : Prop :=
  Relation.TransGen (fun x y => ws.parentOf x = some y) x a

/-- **The forest invariant** of a workspace; see the module comment. The two records are stated
through the views, which also make the held and the parent blocks live; that a parent holds its
child in exactly one socket, and that no block is held twice, follow from each block's sockets
having no repeats (`Forest.count_sockets_parent`, `Forest.nodup_allSockets`). -/
structure Forest (ws : Workspace) : Prop where
  /-- Every live block is stored under its own id. -/
  id_eq : ∀ {i b}, ws.get? i = some b → b.id = i
  /-- A block's parent holds it in one of its sockets. -/
  held_by_parent : ∀ {i p}, ws.parentOf i = some p → i ∈ ws.socketsOf p
  /-- A block held in a socket has the holder as its parent. -/
  parent_of_held : ∀ {i c}, c ∈ ws.socketsOf i → ws.parentOf c = some i
  /-- No block holds another twice. -/
  sockets_nodup : ∀ i, (ws.socketsOf i).Nodup
  /-- Following parents never comes back. -/
  acyclic : ∀ i, ¬ ws.Ancestor i i

variable {ws ws' : Workspace}

/-! ### The two views -/

theorem parentOf_of_get? {i : Nat} {b : Block} (h : ws.get? i = some b) :
    ws.parentOf i = b.parent := by
  simp [parentOf, h]

theorem socketsOf_of_get? {i : Nat} {b : Block} (h : ws.get? i = some b) :
    ws.socketsOf i = b.sockets := by
  simp [socketsOf, h]

theorem parentOf_of_get?_none {i : Nat} (h : ws.get? i = none) : ws.parentOf i = none := by
  simp [parentOf, h]

theorem socketsOf_of_get?_none {i : Nat} (h : ws.get? i = none) : ws.socketsOf i = [] := by
  simp [socketsOf, h]

/-- A block with a parent is live. -/
theorem live_of_parentOf {i p : Nat} (h : ws.parentOf i = some p) : ∃ b, ws.get? i = some b := by
  rcases hi : ws.get? i with _ | b
  · rw [parentOf_of_get?_none hi] at h; cases h
  · exact ⟨b, rfl⟩

/-- A block whose sockets hold something is live. -/
theorem live_of_mem_socketsOf {i c : Nat} (h : c ∈ ws.socketsOf i) : ∃ b, ws.get? i = some b := by
  rcases hi : ws.get? i with _ | b
  · rw [socketsOf_of_get?_none hi] at h; cases h
  · exact ⟨b, rfl⟩

/-- Parent links that survive an edit were there before it, so ancestry after the edit was
ancestry before it. -/
theorem Ancestor.mono (h : ∀ x y, ws'.parentOf x = some y → ws.parentOf x = some y) {a x : Nat}
    (ha : ws'.Ancestor a x) : ws.Ancestor a x :=
  Relation.TransGen.mono (fun x y hxy => h x y hxy) _ _ ha

theorem Ancestor.of_parentOf {x p : Nat} (h : ws.parentOf x = some p) : ws.Ancestor p x :=
  Relation.TransGen.single h

/-! ### Parents, sockets and holders in a forest -/

namespace Forest

/-- A live block's parent is live and holds it in exactly one socket. -/
theorem count_sockets_parent (hF : ws.Forest) {i p : Nat} {b : Block} (hb : ws.get? i = some b)
    (hp : b.parent = some p) : ∃ pb, ws.get? p = some pb ∧ pb.sockets.count i = 1 := by
  have hheld := hF.held_by_parent (by rw [parentOf_of_get? hb, hp])
  obtain ⟨pb, hpb⟩ := live_of_mem_socketsOf hheld
  have hnd := hF.sockets_nodup p
  rw [socketsOf_of_get? hpb] at hheld hnd
  exact ⟨pb, hpb, List.count_eq_one_of_mem hnd hheld⟩

/-- What a live block's sockets hold is a live block whose parent is that block. -/
theorem held_live (hF : ws.Forest) {i c : Nat} {b : Block} (hb : ws.get? i = some b)
    (hc : c ∈ b.sockets) : ∃ cb, ws.get? c = some cb ∧ cb.parent = some i := by
  have hpar := hF.parent_of_held (by rw [socketsOf_of_get? hb]; exact hc)
  obtain ⟨cb, hcb⟩ := live_of_parentOf hpar
  exact ⟨cb, hcb, by rw [← parentOf_of_get? hcb]; exact hpar⟩

/-- Two sockets of different blocks never hold the same block. -/
theorem eq_of_mem_socketsOf (hF : ws.Forest) {i j c : Nat} (hi : c ∈ ws.socketsOf i)
    (hj : c ∈ ws.socketsOf j) : i = j := by
  have h := (hF.parent_of_held hi).symm.trans (hF.parent_of_held hj)
  exact Option.some.inj h

end Forest

/-- Every socket of every live block, in id order. -/
def allSockets (ws : Workspace) : List Nat := (ws.blocks.filterMap id).flatMap Block.sockets

/-- No block is held by two sockets of the workspace. -/
theorem Forest.nodup_allSockets (hF : ws.Forest) : ws.allSockets.Nodup := by
  unfold allSockets
  refine List.nodup_flatMap.mpr ⟨fun b hb => ?_, ?_⟩
  · obtain ⟨o, ho, hob⟩ := List.mem_filterMap.mp hb
    obtain ⟨i, hi, hoi⟩ := List.getElem_of_mem ho
    have hget : ws.get? i = some b := by
      simpa [get?, List.getElem?_eq_getElem hi, hoi] using hob
    have := hF.sockets_nodup i
    rwa [socketsOf_of_get? hget] at this
  · refine List.pairwise_filterMap.mpr (List.pairwise_iff_getElem.mpr ?_)
    intro i j hi hj hij b hb b' hb' c hc hc'
    have hgi : ws.get? i = some b := by simpa [get?, List.getElem?_eq_getElem hi] using hb
    have hgj : ws.get? j = some b' := by simpa [get?, List.getElem?_eq_getElem hj] using hb'
    have := hF.eq_of_mem_socketsOf (c := c) (by rw [socketsOf_of_get? hgi]; exact hc)
      (by rw [socketsOf_of_get? hgj]; exact hc')
    omega

/-! ### Edits that keep the forest -/

namespace Forest

/-- An edit that keeps every block's id, parent and sockets (up to order) keeps the forest. -/
theorem congr (hF : ws.Forest) (hid : ∀ {i b}, ws'.get? i = some b → b.id = i)
    (hp : ∀ i, ws'.parentOf i = ws.parentOf i)
    (hs : ∀ i, (ws'.socketsOf i).Perm (ws.socketsOf i)) : ws'.Forest where
  id_eq := hid
  held_by_parent h := (hs _).mem_iff.mpr (hF.held_by_parent (by rw [← hp]; exact h))
  parent_of_held h := by rw [hp]; exact hF.parent_of_held ((hs _).mem_iff.mp h)
  sockets_nodup i := (hs i).nodup_iff.mpr (hF.sockets_nodup i)
  acyclic i h := hF.acyclic i (Ancestor.mono (fun x y hxy => by rw [← hp]; exact hxy) h)

/-- Unplugging `c` from its parent `p` keeps the forest: `c` loses its parent, `p`'s sockets lose
`c`, and nothing else changes. -/
theorem detach (hF : ws.Forest) {c p : Nat} (hcp : ws.parentOf c = some p)
    (hid : ∀ {i b}, ws'.get? i = some b → b.id = i)
    (hpc : ws'.parentOf c = none) (hpo : ∀ i, i ≠ c → ws'.parentOf i = ws.parentOf i)
    (hsp : ws'.socketsOf p = (ws.socketsOf p).filter (· != c))
    (hso : ∀ i, i ≠ p → ws'.socketsOf i = ws.socketsOf i) : ws'.Forest where
  id_eq := hid
  held_by_parent {i q} h := by
    have hic : i ≠ c := by rintro rfl; rw [hpc] at h; cases h
    rw [hpo i hic] at h
    by_cases hq : q = p
    · subst hq
      rw [hsp]
      simp [hF.held_by_parent h, hic]
    · rw [hso q hq]
      exact hF.held_by_parent h
  parent_of_held {i x} h := by
    by_cases hi : i = p
    · subst hi
      rw [hsp, List.mem_filter] at h
      have hxc : x ≠ c := by simpa using h.2
      rw [hpo x hxc]
      exact hF.parent_of_held h.1
    · rw [hso i hi] at h
      -- `x` is not `c`: the sockets holding `c` are `p`'s
      have hxc : x ≠ c := by
        rintro rfl
        exact hi (Option.some.inj ((hF.parent_of_held h).symm.trans hcp))
      rw [hpo x hxc]
      exact hF.parent_of_held h
  sockets_nodup i := by
    by_cases hi : i = p
    · subst hi
      rw [hsp]
      exact (hF.sockets_nodup _).filter _
    · rw [hso i hi]
      exact hF.sockets_nodup i
  acyclic i h := hF.acyclic i (Ancestor.mono (fun x y hxy => by
    by_cases hx : x = c
    · subst hx
      rw [hpc] at hxy
      cases hxy
    · rw [← hpo x hx]
      exact hxy) h)

/-- After plugging the top-level `c` under `p`, a chain of parents either uses only old links, or
climbs to `c`, takes the new link to `p` and climbs on from there: it cannot take the new link
twice, since that would make `c` an ancestor of `p`. -/
theorem ancestor_of_attach {c p : Nat} (hne : c ≠ p) (hanc : ¬ ws.Ancestor c p)
    (hpc : ws'.parentOf c = some p) (hpo : ∀ i, i ≠ c → ws'.parentOf i = ws.parentOf i)
    {a x : Nat} (h : ws'.Ancestor a x) :
    ws.Ancestor a x ∨ (Relation.ReflTransGen (fun x y => ws.parentOf x = some y) x c ∧
      Relation.ReflTransGen (fun x y => ws.parentOf x = some y) p a) := by
  induction h with
  | @single y hxy =>
    by_cases hx : x = c
    · subst hx
      rw [hpc] at hxy
      cases hxy
      exact Or.inr ⟨.refl, .refl⟩
    · exact Or.inl (.single (by rw [← hpo x hx]; exact hxy))
  | @tail b y _ hba ih =>
    by_cases hb : b = c
    · subst hb
      rw [hpc] at hba
      cases hba
      rcases ih with h | ⟨_, h2⟩
      · exact Or.inr ⟨h.to_reflTransGen, .refl⟩
      · -- the chain came back to `c` from `p`
        rcases Relation.reflTransGen_iff_eq_or_transGen.mp h2 with h | h
        · exact absurd h hne
        · exact absurd h hanc
    · have hba' : ws.parentOf b = some y := by rw [← hpo b hb]; exact hba
      rcases ih with h | ⟨h1, h2⟩
      · exact Or.inl (h.tail hba')
      · exact Or.inr ⟨h1, h2.tail hba'⟩

/-- Plugging the top-level block `c` into a socket of `p` keeps the forest when `c` is neither `p`
nor an ancestor of `p`: `c` takes `p` as its parent, `p`'s sockets gain `c`, and nothing else
changes. -/
theorem attach (hF : ws.Forest) {c p : Nat} (htop : ws.parentOf c = none) (hne : c ≠ p)
    (hanc : ¬ ws.Ancestor c p) (hid : ∀ {i b}, ws'.get? i = some b → b.id = i)
    (hpc : ws'.parentOf c = some p) (hpo : ∀ i, i ≠ c → ws'.parentOf i = ws.parentOf i)
    (hsp : (ws'.socketsOf p).Perm (c :: ws.socketsOf p))
    (hso : ∀ i, i ≠ p → ws'.socketsOf i = ws.socketsOf i) : ws'.Forest where
  id_eq := hid
  held_by_parent {i q} h := by
    by_cases hic : i = c
    · subst hic
      rw [hpc] at h
      cases h
      exact hsp.mem_iff.mpr (List.mem_cons_self ..)
    · rw [hpo i hic] at h
      by_cases hq : q = p
      · subst hq
        exact hsp.mem_iff.mpr (List.mem_cons_of_mem _ (hF.held_by_parent h))
      · rw [hso q hq]
        exact hF.held_by_parent h
  parent_of_held {i x} h := by
    -- `c` was held by no socket, having no parent
    have hold : ∀ {j}, x ∈ ws.socketsOf j → ws'.parentOf x = some j := fun hx => by
      have hxc : x ≠ c := by rintro rfl; rw [hF.parent_of_held hx] at htop; cases htop
      rw [hpo x hxc]
      exact hF.parent_of_held hx
    by_cases hi : i = p
    · subst hi
      rcases List.mem_cons.mp (hsp.mem_iff.mp h) with rfl | hx
      · exact hpc
      · exact hold hx
    · rw [hso i hi] at h
      exact hold h
  sockets_nodup i := by
    by_cases hi : i = p
    · subst hi
      refine hsp.nodup_iff.mpr (List.nodup_cons.mpr ⟨fun hc => ?_, hF.sockets_nodup _⟩)
      rw [hF.parent_of_held hc] at htop
      cases htop
    · rw [hso i hi]
      exact hF.sockets_nodup i
  acyclic i h := by
    rcases ancestor_of_attach hne hanc hpc hpo h with h | ⟨h1, h2⟩
    · exact hF.acyclic i h
    · rcases Relation.reflTransGen_iff_eq_or_transGen.mp (h2.trans h1) with h | h
      · exact hne h
      · exact hanc h

/-- Removing a set of blocks keeps the forest when the set holds everything its members hold and
no block outside it holds one of its members. -/
theorem remove (hF : ws.Forest) (R : Nat → Prop) (hR : ∀ i, R i → ws'.get? i = none)
    (hK : ∀ i, ¬ R i → ws'.get? i = ws.get? i)
    (hdown : ∀ {i c}, R i → c ∈ ws.socketsOf i → R c)
    (hout : ∀ {i c}, ¬ R i → c ∈ ws.socketsOf i → ¬ R c) : ws'.Forest := by
  have hpar : ∀ i, ¬ R i → ws'.parentOf i = ws.parentOf i := fun i hi => by
    simp [parentOf, hK i hi]
  have hsock : ∀ i, ¬ R i → ws'.socketsOf i = ws.socketsOf i := fun i hi => by
    simp [socketsOf, hK i hi]
  have hkept : ∀ {i}, (∃ b, ws'.get? i = some b) → ¬ R i := fun {i} ⟨b, hb⟩ hi => by
    rw [hR i hi] at hb
    cases hb
  refine ⟨fun {i b} hb => ?_, fun {i q} h => ?_, fun {i x} h => ?_, fun i => ?_, fun i h => ?_⟩
  · rw [hK i (hkept ⟨b, hb⟩)] at hb
    exact hF.id_eq hb
  · have hi := hkept (live_of_parentOf h)
    rw [hpar i hi] at h
    have hq : ¬ R q := fun hq => hi (hdown hq (hF.held_by_parent h))
    rw [hsock q hq]
    exact hF.held_by_parent h
  · have hi := hkept (live_of_mem_socketsOf h)
    rw [hsock i hi] at h
    rw [hpar x (hout hi h)]
    exact hF.parent_of_held h
  · by_cases hi : R i
    · simp [socketsOf, hR i hi]
    · rw [hsock i hi]
      exact hF.sockets_nodup i
  · refine hF.acyclic i (Ancestor.mono (fun x y hxy => ?_) h)
    rw [← hpar x (hkept (live_of_parentOf hxy))]
    exact hxy

end Forest

theorem parentOf_push {b : Block} (hpar : b.parent = none) (j : Nat) :
    (ws.push b).parentOf j = if j = ws.blocks.length then none else ws.parentOf j := by
  by_cases hj : j = ws.blocks.length <;> simp [parentOf, hj, hpar]

theorem socketsOf_push {b : Block} (hs : b.sockets = []) (j : Nat) :
    (ws.push b).socketsOf j = if j = ws.blocks.length then [] else ws.socketsOf j := by
  by_cases hj : j = ws.blocks.length <;> simp [socketsOf, hj, hs]

theorem ne_length_of_live {j : Nat} : (∃ b, ws.get? j = some b) → j ≠ ws.blocks.length :=
  fun ⟨_, h⟩ => Nat.ne_of_lt (lt_length_of_get? h)

namespace Forest

/-- Adding a fresh block with no parent and empty sockets, under the first unused id, keeps the
forest. -/
theorem append (hF : ws.Forest) {b : Block} (hid : b.id = ws.blocks.length)
    (hpar : b.parent = none) (hs : b.sockets = []) :
    (ws.push b).Forest := by
  have hp := @parentOf_push ws b hpar
  have hsk := @socketsOf_push ws b hs
  refine ⟨fun {i b'} hb => ?_, fun {i q} h => ?_, fun {i x} h => ?_, fun i => ?_, fun i h => ?_⟩
  · rw [get?_push] at hb
    split at hb
    · rename_i hi
      cases hb
      rw [hid, hi]
    · exact hF.id_eq hb
  · rw [hp] at h
    split at h
    · cases h
    · rw [hsk, if_neg (ne_length_of_live (live_of_mem_socketsOf (hF.held_by_parent h)))]
      exact hF.held_by_parent h
  · rw [hsk] at h
    split at h
    · cases h
    · have hx := hF.parent_of_held h
      rw [hp, if_neg (ne_length_of_live (live_of_parentOf hx))]
      exact hx
  · rw [hsk]
    split
    · exact List.nodup_nil
    · exact hF.sockets_nodup i
  · refine hF.acyclic i (Ancestor.mono (fun x y hxy => ?_) h)
    rw [hp] at hxy
    split at hxy
    · cases hxy
    · exact hxy

end Forest

/-! ### The ancestor search -/

/-- The block reached from `x` by following `n` parent links. -/
def ascend (ws : Workspace) : Nat → Nat → Option Nat
  | 0, x => some x
  | n + 1, x => (ws.parentOf x).bind (ws.ascend n)

theorem ascend_add (m n x : Nat) :
    ws.ascend (m + n) x = (ws.ascend m x).bind (ws.ascend n) := by
  induction m generalizing x with
  | zero => simp [ascend]
  | succ m ih =>
    rw [Nat.add_right_comm, ascend, ascend]
    rcases ws.parentOf x with _ | y
    · rfl
    · exact ih y

/-- The last link of a climb: `n + 1` links are `n` links and one more. -/
theorem ascend_succ' (n x : Nat) : ws.ascend (n + 1) x = (ws.ascend n x).bind ws.parentOf := by
  rw [ascend_add]
  rcases ws.ascend n x with _ | y
  · rfl
  · simp [ascend]

/-- The search follows parents from its start for as many steps as it has fuel. -/
theorem isAncestor_eq_true_iff (c fuel : Nat) (o : Option Nat) :
    ws.isAncestor c fuel o = true ↔ ∃ p n, o = some p ∧ n < fuel ∧ ws.ascend n p = some c := by
  induction fuel generalizing o with
  | zero => simp [isAncestor]
  | succ fuel ih =>
    rcases o with _ | p
    · simp [isAncestor]
    · have hstep : ws.isAncestor c (fuel + 1) (some p) =
          (p == c || ws.isAncestor c fuel (ws.parentOf p)) := rfl
      rw [hstep, Bool.or_eq_true, ih]
      constructor
      · rintro (h | ⟨q, n, hq, hn, hc⟩)
        · exact ⟨p, 0, rfl, Nat.zero_lt_succ _, by simpa [ascend] using h⟩
        · exact ⟨p, n + 1, rfl, Nat.succ_lt_succ hn, by simp [ascend, hq, hc]⟩
      · rintro ⟨p', n, hp, hn, hc⟩
        cases hp
        cases n with
        | zero => exact Or.inl (by simpa [ascend] using hc)
        | succ n =>
          simp only [ascend, Option.bind_eq_some_iff] at hc
          obtain ⟨q, hq, hc⟩ := hc
          exact Or.inr ⟨q, n, hq, Nat.lt_of_succ_lt_succ hn, hc⟩

theorem ancestor_iff_ascend (c x : Nat) : ws.Ancestor c x ↔ ∃ n, ws.ascend (n + 1) x = some c := by
  constructor
  · intro h
    induction h using Relation.TransGen.head_induction_on with
    | single hxc => exact ⟨0, by simp [ascend, hxc]⟩
    | head hxy _ ih =>
      obtain ⟨n, hn⟩ := ih
      exact ⟨n + 1, by rw [ascend, hxy]; exact hn⟩
  · rintro ⟨n, hn⟩
    induction n generalizing x with
    | zero => exact .single (by simpa [ascend] using hn)
    | succ n ih =>
      rw [ascend, Option.bind_eq_some_iff] at hn
      obtain ⟨y, hy, hn⟩ := hn
      exact .head hy (ih y hn)

/-- When following parents never comes back, a chain of parents ending at a live block is no
longer than the store: every block on it before the end has a parent, so it is live, and no block
comes twice, since meeting one again would make it its own ancestor. -/
theorem ascend_le_of_acyclic (hacyc : ∀ i, ¬ ws.Ancestor i i) {n x c : Nat}
    (h : ws.ascend n x = some c) (hc : ∃ b, ws.get? c = some b) : n + 1 ≤ ws.blocks.length := by
  let f : Nat → Nat := fun i => (ws.ascend i x).getD 0
  have hsome : ∀ i, i ≤ n → ws.ascend i x = some (f i) := fun i hi => by
    have hsplit := @ascend_add ws i (n - i) x
    rw [show i + (n - i) = n by omega, h] at hsplit
    rcases hi' : ws.ascend i x with _ | y
    · rw [hi'] at hsplit; cases hsplit
    · simp [f, hi']
  have hlive : ∀ i, i ≤ n → f i < ws.blocks.length := fun i hi => by
    rcases Nat.lt_or_ge i n with hlt | hge
    · -- a block on the way up has a parent
      have hup := hsome (i + 1) hlt
      rw [ascend_succ', hsome i (Nat.le_of_lt hlt), Option.bind_some] at hup
      obtain ⟨_, hb⟩ := live_of_parentOf hup
      exact lt_length_of_get? hb
    · obtain ⟨_, hb⟩ := hc
      obtain rfl : i = n := by omega
      have hfn : f i = c := Option.some.inj ((hsome i (Nat.le_refl _)).symm.trans h)
      rw [hfn]
      exact lt_length_of_get? hb
  have hinj : ∀ i j, i ≤ n → j ≤ n → f i = f j → i = j := fun i j hi hj hij => by
    by_contra hne
    -- the later of the two is reached from the earlier by a climb of at least one link
    have key : ∀ a b, a < b → b ≤ n → f a ≠ f b := fun a b hab hb heq => by
      have hclimb := @ascend_add ws a (b - a - 1 + 1) x
      rw [show a + (b - a - 1 + 1) = b by omega, hsome b hb, hsome a (by omega),
        Option.bind_some, ← heq] at hclimb
      exact hacyc (f a) ((ancestor_iff_ascend _ _).mpr ⟨_, hclimb.symm⟩)
    rcases Nat.lt_or_gt_of_ne hne with hlt | hlt
    · exact key i j hlt hj hij
    · exact key j i hlt hi hij.symm
  have hnd : ((List.range (n + 1)).map f).Nodup :=
    List.Nodup.map_on (fun i hi j hj hij => hinj i j (by simpa [Nat.lt_succ_iff] using hi)
      (by simpa [Nat.lt_succ_iff] using hj) hij) List.nodup_range
  have hsub : (List.range (n + 1)).map f ⊆ List.range ws.blocks.length := fun y hy => by
    obtain ⟨i, hi, rfl⟩ := List.mem_map.mp hy
    exact List.mem_range.mpr (hlive i (by simpa [Nat.lt_succ_iff] using hi))
  simpa using hnd.length_le_of_subset hsub

/-- **The ancestor search is exact when following parents never comes back.** Following parents
at most one more time than there are ids, starting from `x`'s parent, finds `c` exactly when `c`
is an ancestor of `x`. -/
theorem isAncestor_iff_of_acyclic (hacyc : ∀ i, ¬ ws.Ancestor i i) (c x : Nat) :
    ws.isAncestor c (ws.blocks.length + 1) (ws.parentOf x) = true ↔ ws.Ancestor c x := by
  rw [isAncestor_eq_true_iff, ancestor_iff_ascend]
  constructor
  · rintro ⟨p, n, hp, _, hc⟩
    exact ⟨n, by rw [ascend, hp]; exact hc⟩
  · rintro ⟨n, hn⟩
    -- the block before the last has a parent, so it is live and closes a chain of `n` links
    rw [ascend_succ', Option.bind_eq_some_iff] at hn
    obtain ⟨y, hy, hyc⟩ := hn
    have hle := ascend_le_of_acyclic hacyc hy (live_of_parentOf hyc)
    have hn' : ws.ascend (n + 1) x = some c := by rw [ascend_succ', hy, Option.bind_some, hyc]
    rw [ascend, Option.bind_eq_some_iff] at hn'
    obtain ⟨p, hp, hc⟩ := hn'
    exact ⟨p, n, hp, by omega, hc⟩

theorem Forest.isAncestor_iff (hF : ws.Forest) (c x : Nat) :
    ws.isAncestor c (ws.blocks.length + 1) (ws.parentOf x) = true ↔ ws.Ancestor c x :=
  isAncestor_iff_of_acyclic hF.acyclic c x

end Workspace

end Blockwork
