import Blockwork.Proofs.Workspace.Session
import Blockwork.Code.Generate

/-!
# Code generation never dangles

A pass makes the code of a block by walking down from it: into the blocks its template binds or
its generator's operands name, and along the chain of next connections. Three failures of a pass
come from the workspace and not from the block's own generator: a block the walk reaches is
missing (`noSuchBlock`), a block's type has no generator (`missingGenerator`), or the walk runs out
of fuel (`tooDeep`), which is where a walk around a cycle would end. These are the **structural**
failures (`GenerateError.Structural`), and a result that is none of them is `Sound`.

No pass over a workspace that a session reaches meets one (`session_generation_sound`), whatever
the steps of the session, admitted or not:

* every walk down follows sockets, and on a hierarchy what a socket holds is live and a walk down
  is a chain of parent links read backwards, so it is shorter than the store
  (`Hierarchy.chain_le`); a pass spends at most four units of fuel a level and has eight a block
  (`Pass.blockToCode_sound`);
* blocks are only made of defined types and no definition is ever taken back, and defining a type
  gives it a generator, which replacing the generator keeps (`Session.Generating`).
-/

namespace Blockwork

namespace Code

/-- The failures a pass meets only through the workspace: a missing block, a type without a
generator, a walk deeper than the store. -/
def GenerateError.Structural : GenerateError → Prop
  | .missingGenerator _ | .noSuchBlock _ | .tooDeep => True
  | _ => False

/-- A result that is code, or a failure of the block's own generator. -/
def Sound {α : Type} (r : Except GenerateError α) : Prop := ∀ e, r = .error e → ¬ e.Structural

section Sound

variable {α β : Type}

theorem sound_pure (a : α) : Sound (pure a : Except GenerateError α) := fun _ h => by cases h

theorem sound_throw {e : GenerateError} (h : ¬ e.Structural) :
    Sound (throw e : Except GenerateError α) := fun _ he => by
  cases he
  exact h

theorem Sound.bind {x : Except GenerateError α} {f : α → Except GenerateError β} (hx : Sound x)
    (hf : ∀ a, x = .ok a → Sound (f a)) : Sound (x >>= f) := by
  intro e he
  rcases hxr : x with e' | a
  · rw [hxr] at he
    simp only [Bind.bind, Except.bind, Except.error.injEq] at he
    subst he
    exact hx _ hxr
  · rw [hxr] at he
    exact hf a hxr e he

theorem Sound.mapM {f : α → Except GenerateError β} :
    ∀ {l : List α}, (∀ a ∈ l, Sound (f a)) → Sound (l.mapM f)
  | [], _ => sound_pure _
  | a :: l, h => by
    rw [List.mapM_cons]
    exact Sound.bind (h a List.mem_cons_self) fun _ _ =>
      Sound.bind (Sound.mapM fun x hx => h x (List.mem_cons_of_mem a hx)) fun _ _ => sound_pure _

end Sound

/-! ### Where a pass goes

A pass goes only into blocks that a socket of the block it stands on holds. -/

theorem mem_arenaTargets {b : Block} {i c : Nat} {inp : Input} (h : b.input? i = some inp)
    (hc : inp.target = some c) : c ∈ b.arenaTargets := by
  unfold Block.input? at h
  rw [← Array.getElem?_toList] at h
  exact List.mem_filterMap.mpr ⟨inp, List.mem_of_getElem? h, hc⟩

theorem mem_sockets_of_targetOf? {b : Block} {name : String} {c : Nat}
    (h : b.targetOf? name = some c) : c ∈ b.sockets := by
  unfold Block.targetOf? at h
  obtain ⟨i, -, hi⟩ := Option.bind_eq_some_iff.mp h
  obtain ⟨inp, hinp, hc⟩ := Option.bind_eq_some_iff.mp hi
  exact List.mem_append_right _ (mem_arenaTargets hinp hc)

theorem input?_of_mem_visibleInputs {b : Block} {i : Nat} {inp : Input}
    (h : (i, inp) ∈ b.visibleInputs) : b.input? i = some inp := by
  obtain ⟨j, -, hj⟩ := List.mem_filterMap.mp h
  obtain ⟨inp', hinp', he⟩ := Option.map_eq_some_iff.mp hj
  cases he
  exact hinp'

/-- A fold keeps what each of its steps keeps. -/
theorem foldl_inv {β γ : Type} {Q : β → Prop} {f : β → γ → β} :
    ∀ {l : List γ} {init : β}, Q init → (∀ acc x, x ∈ l → Q acc → Q (f acc x)) →
      Q (l.foldl f init)
  | [], _, h0, _ => h0
  | x :: l, _, h0, hf => by
    rw [List.foldl_cons]
    exact foldl_inv (hf _ x List.mem_cons_self h0) fun acc y hy =>
      hf acc y (List.mem_cons_of_mem x hy)

/-- Setting a key keeps a property of every entry that the new entry has. -/
theorem setKey_forall {α : Type} {Q : String × α → Prop} {l : List (String × α)} {k : String}
    {v : α} (hl : ∀ x ∈ l, Q x) (hkv : Q (k, v)) : ∀ x ∈ setKey l k v, Q x := by
  unfold setKey
  split
  · rintro x hx
    obtain ⟨⟨k', w⟩, hmem, rfl⟩ := List.mem_map.mp hx
    dsimp only
    split
    · rename_i hk
      rw [beq_iff_eq] at hk
      subst hk
      exact hkv
    · exact hl _ hmem
  · intro x hx
    rcases List.mem_append.mp hx with hx | hx
    · exact hl x hx
    · rw [List.mem_singleton.mp hx]
      exact hkv

/-- A name is bound to a block a socket of `b` holds, or to a value. -/
def Binding.Held (b : Block) : Binding → Prop
  | .child c _ => c ∈ b.sockets
  | .value _ => True

/-- Every child a block's template sees is held by one of the block's inputs. -/
theorem bindings_held (b : Block) : ∀ x ∈ bindings b, x.2.Held b := by
  unfold bindings
  refine foldl_inv (Q := fun acc : List (String × Binding) => ∀ x ∈ acc, x.2.Held b) (by simp) ?_
  rintro acc ⟨i, inp⟩ hmem hacc
  dsimp only
  -- the input's own name first, then the fields of its row, which bind values
  refine foldl_inv (Q := fun acc : List (String × Binding) => ∀ x ∈ acc, x.2.Held b) ?_
    fun acc' f _ hacc' => ?_
  · split
    · split
      · exact hacc
      · refine setKey_forall hacc ?_
        split
        · exact List.mem_append_right _ (mem_arenaTargets (input?_of_mem_visibleInputs hmem) ‹_›)
        · trivial
    · exact hacc
  · split
    · split
      · exact hacc'
      · exact setKey_forall hacc' trivial
    · exact hacc'

/-- A member's text in a chain: a value ends in `;` and a newline, and statements end in a newline
unless they are empty. -/
def Fragment.chained : Fragment → String
  | .value c _ => c ++ ";\n"
  | .statement c => if !c.isEmpty && !c.endsWith "\n" then c ++ "\n" else c

/-- The code of a chain whose members' generators made `f` and then `fs`: a lone value as it is,
anything else the statement joining every member's text in the chain. -/
def chainOf : Fragment → List Fragment → Fragment
  | .value c o, [] => .value c o
  | f, fs => .statement (String.join ((f :: fs).map Fragment.chained))

/-! ### One level of a pass

Each function of a pass is sound when the blocks the current block's sockets hold generate soundly
with the fuel it hands them: four levels below a block's own fuel at most. -/

namespace Pass

variable (g : Pass)

/-- The code a block's own generator makes, with `fuel` for the blocks it reads below it. -/
def ownCode (fuel : Nat) (b : Block) : Except GenerateError Fragment := do
  let some tg := g.host.generator? b.typeName | throw (.missingGenerator b.typeName)
  match tg with
  | .direct gen => g.run fuel b gen
  | .attached =>
    match b.generator with
    | some gen => g.run fuel b gen
    | none => throw (.noFunctionAttached b.typeName)

/-- What a block's code becomes once its own generator made `f`: the chain after it follows when
its next connection holds a block. -/
def follow (fuel : Nat) (f : Fragment) : Option Nat → Except GenerateError Fragment
  | none => pure (chainOf f [])
  | some y => do
    let rest ← g.chainCode fuel y
    pure (.statement (f.chained ++ rest))

/-- Every block that `b`'s sockets hold generates soundly with fuel `n` or more. -/
def HeldSound (n : Nat) (b : Block) : Prop :=
  ∀ c ∈ b.sockets, ∀ m, n ≤ m → Sound (g.blockCode m c)

variable {g} {n : Nat} {b : Block}

theorem HeldSound.mono {m : Nat} (h : g.HeldSound n b) (hnm : n ≤ m) : g.HeldSound m b :=
  fun c hc k hk => h c hc k (Nat.le_trans hnm hk)

/-- A live block's code is its own generator's code, then what follows it. -/
theorem blockCode_succ {n x : Nat} {b : Block} (hb : g.workspace.get? x = some b) :
    g.blockCode (n + 1) x = g.ownCode n b >>= fun f => g.follow n f (b.next.bind (·.target)) := by
  rw [blockCode]
  simp only [hb]
  unfold ownCode
  rcases g.host.generator? b.typeName with _ | tg
  · rfl
  · dsimp only
    -- the block's own generator or the type's runs, and the same chain follows either
    rcases tg with _ | gen
    · rcases b.generator with _ | gen
      · rfl
      · refine bind_congr fun f => ?_
        rcases b.next.bind (·.target) with _ | y <;> cases f <;>
          simp [follow, chainOf, Fragment.chained]
    · refine bind_congr fun f => ?_
      rcases b.next.bind (·.target) with _ | y <;> cases f <;>
        simp [follow, chainOf, Fragment.chained]

theorem chainCode_sound {c : Nat} (h : Sound (g.blockCode n c)) : Sound (g.chainCode (n + 1) c) := by
  rw [chainCode]
  exact Sound.bind h fun code _ => by split <;> exact sound_pure _

theorem childCode_sound {c : Nat} (h : Sound (g.blockCode n c)) (s : Bool) :
    Sound (g.childCode (n + 1) c s) := by
  rw [childCode]
  exact Sound.bind h fun _ _ => sound_pure _

theorem valueCode_sound (h : g.HeldSound n b) (name : String) (outer : Order) :
    Sound (g.valueCode (n + 1) b name outer) := by
  rw [valueCode]
  split
  · exact sound_pure _
  · rename_i c hc
    refine Sound.bind (h c (mem_sockets_of_targetOf? hc) n (Nat.le_refl n)) fun code _ => ?_
    split <;> exact sound_pure _

theorem statementCode_sound (h : g.HeldSound n b) (name : String) :
    Sound (g.statementCode (n + 2) b name) := by
  rw [statementCode]
  split
  · exact sound_pure _
  · rename_i c hc
    exact childCode_sound (h c (mem_sockets_of_targetOf? hc) n (Nat.le_refl n)) true

theorem templateData_sound (h : g.HeldSound n b) : Sound (g.templateData (n + 2) (bindings b)) := by
  rw [templateData]
  refine Sound.mapM fun ⟨k, bnd⟩ hmem => ?_
  cases bnd with
  | child c s =>
    exact Sound.bind (childCode_sound (h c (bindings_held b _ hmem) n (Nat.le_refl n)) s)
      fun _ _ => sound_pure _
  | value v => exact sound_pure _

/-- By induction on the steps: **a generator written as a function fails soundly** when the code it
asks for does, since it fails otherwise only with its own message. -/
theorem Steps.run_sound {value : String → Order → Except GenerateError String}
    {statement : String → Except GenerateError String}
    (hv : ∀ input outer, Sound (value input outer)) (hs : ∀ input, Sound (statement input))
    (steps : Steps) : Sound (steps.run value statement) := by
  induction steps with
  | done code => exact sound_pure _
  | fail message => exact sound_throw (by simp [GenerateError.Structural])
  | value input outer next ih =>
    rw [Steps.run]
    exact Sound.bind (hv input outer) fun code _ => ih code
  | statement input next ih =>
    rw [Steps.run]
    exact Sound.bind (hs input) fun code _ => ih code

/-- Every generator recurses only through the operands and inputs of the block it is given. -/
theorem run_sound (h : g.HeldSound n b) (gen : Generator) : Sound (g.run (n + 3) b gen) := by
  have hv : ∀ name outer, Sound (g.valueCode (n + 2) b name outer) :=
    valueCode_sound (h.mono (Nat.le_succ n))
  cases gen with
  | template t shape =>
    unfold Pass.run
    refine Sound.bind (templateData_sound h) fun _ _ => ?_
    split
    · exact sound_pure _
    · exact sound_throw (by simp [GenerateError.Structural])
  | binary symbol order left right =>
    unfold Pass.run
    exact Sound.bind (hv left order) fun _ _ => Sound.bind (hv right order) fun _ _ => sound_pure _
  | unary opening order input =>
    unfold Pass.run
    exact Sound.bind (hv input order) fun _ _ => sound_pure _
  | call name args =>
    unfold Pass.run
    exact Sound.bind (Sound.mapM fun a _ => hv a .comma) fun _ _ => sound_pure _
  | body input header =>
    unfold Pass.run
    exact Sound.bind (statementCode_sound h input) fun _ _ => sound_pure _
  | fail text =>
    unfold Pass.run
    exact sound_throw (by simp [GenerateError.Structural])
  | literal | field | statement | settings =>
    unfold Pass.run
    exact sound_pure _
  | function steps =>
    unfold Pass.run
    exact Steps.run_sound hv (statementCode_sound h) _

/-- A block's own generator, the type's or the block's, generates soundly with three more units
of fuel than the blocks its sockets hold need. -/
theorem ownCode_sound (hgen : (g.host.generator? b.typeName).isSome) (h : g.HeldSound n b) :
    Sound (g.ownCode (n + 3) b) := by
  obtain ⟨tg, ht⟩ := Option.isSome_iff_exists.mp hgen
  unfold ownCode
  simp only [ht]
  cases tg with
  | direct gen => exact run_sound h gen
  | attached =>
    cases b.generator with
    | some gen => exact run_sound h gen
    | none => exact sound_throw (by simp [GenerateError.Structural])

/-- **One block**: a live block whose type has a generator generates soundly with four more units
of fuel than the blocks its sockets hold need. -/
theorem blockCode_sound {id : Nat} (hb : g.workspace.get? id = some b)
    (hgen : (g.host.generator? b.typeName).isSome) (h : g.HeldSound n b) :
    Sound (g.blockCode (n + 4) id) := by
  rw [blockCode_succ hb]
  refine Sound.bind (ownCode_sound hgen h) fun f _ => ?_
  -- then the chain after the block, when its next connection holds one
  rcases hc : b.next.bind (·.target) with _ | c
  · exact sound_pure _
  · have hchain : Sound (g.chainCode (n + 3) c) :=
      chainCode_sound (h c (by simp [Block.sockets, hc]) (n + 2) (by omega))
    exact Sound.bind hchain fun _ _ => sound_pure _

/-! ### A whole pass

On a hierarchy a block that sockets hold `k` levels below `x` climbs back to `x` by `k` parent
links, so a block with no climb of `k` links ending at it needs fuel `4 * k`. A live block ends
no climb as long as the store, by `Hierarchy.chain_le`. -/

open Workspace in
/-- By induction on the levels below `x`: a live block that no climb of `k` parent links ends at
generates soundly with fuel `4 * k` or more. -/
theorem blockCode_sound_below (hH : g.workspace.Hierarchy)
    (hgen : g.workspace.All fun b => (g.host.generator? b.typeName).isSome) :
    ∀ k x b, g.workspace.get? x = some b → (∀ y, g.workspace.ascend k y ≠ some x) →
      ∀ m, 4 * k ≤ m → Sound (g.blockCode m x)
  | 0, x, _, _, hk, _, _ => (hk x rfl).elim
  | k + 1, x, b, hb, hk, m, hm => by
    obtain ⟨m, rfl⟩ : ∃ m', m = m' + 4 := ⟨m - 4, by omega⟩
    refine blockCode_sound hb (hgen x b hb) fun c hc m' hm' => ?_
    -- what `x` holds is live, and a climb of `k` links ending at it goes on to `x`
    have hcx : g.workspace.parentOf c = some x :=
      hH.parent_of_held (by rw [socketsOf_of_get? hb]; exact hc)
    obtain ⟨cb, hcb⟩ := live_of_parentOf hcx
    refine blockCode_sound_below hH hgen k c cb hcb (fun y hy => hk y ?_) m' (by omega)
    rw [ascend_succ', hy, Option.bind_some, hcx]

/-- **A pass over a hierarchy never fails structurally** from a live block, when the type of every
live block has a generator. -/
theorem blockToCode_sound (hH : g.workspace.Hierarchy)
    (hgen : g.workspace.All fun b => (g.host.generator? b.typeName).isSome) {id : Nat}
    (hb : g.workspace.get? id = some b) : Sound (g.blockToCode id) := by
  refine blockCode_sound_below hH hgen g.workspace.blocks.length id b hb (fun y hy => ?_) _
    (by unfold fuel; omega)
  have := hH.chain_le hy ⟨b, hb⟩
  omega

end Pass

end Code

/-! ### Generators of the defined types -/

namespace Host

/-- Every defined type has a generator. -/
def Generates (h : Host) : Prop := ∀ t, h.isDefined t = true → (h.generator? t).isSome

variable {h : Host}

/-- No definition is ever taken back. -/
theorem isDefined_redefine (p : BlockPlan) {t : String} (ht : h.isDefined t = true) :
    (h.redefine p).1.isDefined t = true := by
  show ((setKey h.definitions p.name p).lookup t).isSome = true
  rw [lookup_setKey]
  split
  · rfl
  · exact ht

/-- Defining a type gives it the blocks' own generators. -/
theorem Generates.redefine (hg : h.Generates) (p : BlockPlan) : (h.redefine p).1.Generates := by
  intro t ht
  show ((setKey h.generators p.name .attached).lookup t).isSome = true
  rw [lookup_setKey]
  split
  · rfl
  · rename_i htp
    have hdef : ((setKey h.definitions p.name p).lookup t).isSome = true := ht
    rw [lookup_setKey, if_neg htp] at hdef
    exact hg t hdef

theorem Generates.setGenerator (hg : h.Generates) (t : String) (gen : Code.Generator) :
    (h.setGenerator t gen).Generates := by
  intro u hu
  show ((setKey h.generators t (.direct gen)).lookup u).isSome = true
  rw [lookup_setKey]
  split
  · rfl
  · exact hg u hu

theorem define_eq {p : BlockPlan} {h' : Host} (hd : h.define p = .ok h') :
    h' = (h.redefine p).1 := by
  unfold define at hd
  split at hd
  · cases hd
  · cases hd
    rfl

end Host

namespace WorkspaceM

open Workspace

variable {host : Host}

/-- Every step of placing keeps the hierarchy, and every live block of a defined type: a new block
is of the type asked for, which is defined, and no other step changes a block's type. -/
theorem typed_placeSteps :
    PlaceSteps host fun ws => ws.Hierarchy ∧ ws.All fun b => host.isDefined b.typeName = true where
  hierarchy h := h.1
  newBlock type := Keeps.and (newBlock_hierarchy type) (newBlock_all fun p b _ hp hs => by
    rw [(BlockPlan.setUp_relaid hs).typeName]
    simp [Host.isDefined, Host.lookup_of_definition hp])
  markShadow id s := Keeps.and (fun _ h => h.change id fun _ => ⟨rfl, rfl, rfl, rfl, rfl⟩)
    (Keeps.update id fun _ h => h)
  setField id name value ws h _ := ⟨setField_hierarchy id name value ws h.1,
    setField_all (fun _ hr hb => by rwa [hr.typeName]) id name value ws h.2⟩
  connect parent name child := Keeps.and (connect_hierarchy parent name child)
    (connect_all (by simp) (by simp) (by simp) (by simp) parent name child)
  connectNext previous next := Keeps.and (connectNext_hierarchy previous next)
    (connectNext_all (by simp) (by simp) (by simp) (by simp) previous next)
  dispose x := Keeps.and (dispose_hierarchy x) (dispose_all (by simp) (by simp) x)

end WorkspaceM

namespace Session

open Workspace WorkspaceM

/-- What every session keeps for code generation: the hierarchy, live blocks of defined types
only, and a generator for every defined type. -/
structure Generating (σ : Session) : Prop where
  hierarchy : σ.ws.Hierarchy
  typed : σ.ws.All fun b => σ.host.isDefined b.typeName = true
  generates : σ.host.Generates

theorem generating_init : init.Generating where
  hierarchy := (wellFormed_empty {}).forest.hierarchy
  typed _ _ hb := by cases hb
  generates _ ht := by cases ht

theorem Generating.edit {σ : Session} {α : Type} {m : WorkspaceM α} (h : σ.Generating)
    (hm : Keeps (fun ws => ws.Hierarchy ∧ ws.All fun b => σ.host.isDefined b.typeName = true) m) :
    (σ.edit m).Generating :=
  ⟨(hm σ.ws ⟨h.hierarchy, h.typed⟩).1, (hm σ.ws ⟨h.hierarchy, h.typed⟩).2, h.generates⟩

theorem Generating.redefine {σ : Session} (h : σ.Generating) (p : BlockPlan) :
    ({ σ with host := (σ.host.redefine p).1 } : Session).Generating :=
  ⟨h.hierarchy, fun i b hb => Host.isDefined_redefine p (h.typed i b hb), h.generates.redefine p⟩

/-- **Every step keeps what code generation needs**, admitted or not, whether it succeeds or
fails. -/
theorem step_generating {σ : Session} (h : σ.Generating) : ∀ op, (σ.step op).Generating
  | .define p => by
    simp only [step]
    split
    · rename_i host' hd
      rw [Host.define_eq hd]
      exact h.redefine p
    · exact h
  | .redefine p => h.redefine p
  | .setGenerator t gen => ⟨h.hierarchy, h.typed, h.generates.setGenerator t gen⟩
  | .newBlock t => h.edit (typed_placeSteps.newBlock t)
  | .connect p n c => h.edit (typed_placeSteps.connect p n c)
  | .connectNext p n => h.edit (typed_placeSteps.connectNext p n)
  | .disconnect x => h.edit (Keeps.and (disconnect_hierarchy x) (disconnect_all (by simp) (by simp) x))
  | .dispose x => h.edit (typed_placeSteps.dispose x)
  | .setField x n v => h.edit fun ws hw => ⟨setField_hierarchy x n v ws hw.1,
      setField_all (fun _ hr hb => by rwa [hr.typeName]) x n v ws hw.2⟩
  | .place s => h.edit (placeAs_keeps typed_placeSteps false s)

theorem run_generating : ∀ {σ : Session} (ops : List Op), σ.Generating → (σ.run ops).Generating
  | _, [], h => h
  | σ, op :: ops, h => run_generating (σ := σ.step op) ops (step_generating h op)

end Session

open Workspace in
/-- **Code generation never dangles.** In every session, whatever its steps and whether they
succeed or fail: what a live block's sockets hold, through an input shown or hidden or through its
next connection, is live; the type of every live block has a generator; and generating the code of
a live block, with any settings, never finds a block missing, a type without a generator, or blocks
nested deeper than the store. -/
theorem session_generation_sound (ops : List Op) :
    let σ := Session.init.run ops
    (∀ i b c, σ.ws.get? i = some b → c ∈ b.sockets → ∃ cb, σ.ws.get? c = some cb) ∧
    (∀ i b, σ.ws.get? i = some b → (σ.host.generator? b.typeName).isSome) ∧
    ∀ (config : Code.Config) (i : Nat) (b : Block) (e : Code.GenerateError), σ.ws.get? i = some b →
      Code.Pass.blockToCode ⟨σ.host, σ.ws, config⟩ i = .error e → ¬ e.Structural := by
  intro σ
  have h : σ.Generating := Session.run_generating ops Session.generating_init
  have hgen : ∀ i b, σ.ws.get? i = some b → (σ.host.generator? b.typeName).isSome :=
    fun i b hb => h.generates _ (h.typed i b hb)
  refine ⟨fun i b c hb hc => h.hierarchy.live_of_held (by rw [socketsOf_of_get? hb]; exact hc),
    hgen, fun config i b e hb => ?_⟩
  exact Code.Pass.blockToCode_sound (g := ⟨σ.host, σ.ws, config⟩) h.hierarchy hgen hb e

end Blockwork
