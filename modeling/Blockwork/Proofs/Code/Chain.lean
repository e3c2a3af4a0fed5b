import Blockwork.Proofs.Code.Reading

/-!
# Chains generate as the concatenation of their members

A block with blocks chained after it generates the code of the whole chain: each member's own
generator runs once, in chain order, and the results are joined. In a chain a value is followed by
`;` and a newline, and statements end in a newline unless they are empty (`Fragment.chained`); a
lone value keeps its shape, anything else is one statement (`chainOf`). The first member whose
generator fails gives the failure (`chain_code_concatenates`).

A pass runs on fuel, so the law needs the fuel to play no part. Fuel only cuts a walk short: a
result that did not run out of fuel is the result with any more fuel (`Pass.stable`). On a
workspace that a session reaches no walk runs out (`Pass.blockToCode_sound`), so a member's own
generator gives the same result at every fuel the chain walk reaches it with
(`Pass.ownCode_settled`), and a chain is no longer than the store (`NextChain.length_lt`).
-/

namespace Blockwork

namespace Code

/-- A chain's code, chained after another block, adds the text of every member. -/
theorem chainText_chainOf (f : Fragment) (fs : List Fragment) :
    (chainOf f fs).chainText = String.join ((f :: fs).map Fragment.chained) := by
  cases f <;> cases fs <;> simp [chainOf, Fragment.chainText, Fragment.chained]

theorem chainOf_cons (f f' : Fragment) (fs : List Fragment) :
    chainOf f (f' :: fs) = .statement (f.chained ++ String.join ((f' :: fs).map Fragment.chained)) := by
  cases f <;> simp [chainOf]

/-- A result that does not fail structurally did not run out of fuel. -/
theorem Sound.ne_tooDeep {α : Type} {r : Except GenerateError α} (h : Sound r) :
    r ≠ .error .tooDeep :=
  fun he => h _ he trivial

/-- A step that passes on its first part's failures is sound only if that part is. -/
theorem Sound.of_bind {α β : Type} {x : Except GenerateError α} {f : α → Except GenerateError β}
    (h : Sound (x >>= f)) : Sound x := by
  intro e he
  rw [he] at h
  exact h e rfl

namespace Pass

variable {g : Pass}

/-! ### A member's own code on a reachable workspace -/

/-- On a hierarchy whose blocks' types have generators, a live block's own generator makes the
same code with any fuel from four units a block of the store on. -/
theorem ownCode_settled (hH : g.workspace.Hierarchy)
    (hgen : g.workspace.All fun b => (g.host.generator? b.typeName).isSome) {x : Nat} {b : Block}
    (hb : g.workspace.get? x = some b) {m : Nat} (hm : 4 * g.workspace.blocks.length ≤ m) :
    g.ownCode m b = g.generated b := by
  -- with that much fuel the block's code, and so its own generator's, fails only on its own
  have hsound : ∀ k, 4 * g.workspace.blocks.length ≤ k → Sound (g.ownCode k b) := fun k hk => by
    have hcode := blockCode_sound_below hH hgen g.workspace.blocks.length x b hb
      (fun y hy => by have := hH.chain_le hy ⟨b, hb⟩; omega) (k + 1) (by omega)
    rw [blockCode_succ hb] at hcode
    exact hcode.of_bind
  have hfuel : 4 * g.workspace.blocks.length ≤ g.fuel := by unfold fuel; omega
  unfold generated
  rcases Nat.le_total m g.fuel with hle | hle
  · exact (ownCode_extends (Alike.refl g) (fun k _ => stable k) hle (Block.ReadsAlike.refl b)
      (fun _ _ => rfl) (hsound m hm).ne_tooDeep).symm
  · exact ownCode_extends (Alike.refl g) (fun k _ => stable k) hle (Block.ReadsAlike.refl b)
      (fun _ _ => rfl) (hsound _ hfuel).ne_tooDeep

end Pass

end Code

/-! ### Chains of next connections -/

namespace Workspace

/-- `x` holds the live block `b`, and `bs` are the live blocks chained after it, one next
connection after another, the last with nothing chained after it. -/
inductive NextChain (ws : Workspace) : Nat → Block → List Block → Prop
  | last {x : Nat} {b : Block} : ws.get? x = some b → b.next.bind (·.target) = none →
      NextChain ws x b []
  | cons {x y : Nat} {b c : Block} {bs : List Block} : ws.get? x = some b →
      b.next.bind (·.target) = some y → NextChain ws y c bs → NextChain ws x b (c :: bs)

theorem NextChain.get? {ws : Workspace} {x : Nat} {b : Block} {bs : List Block}
    (h : ws.NextChain x b bs) : ws.get? x = some b := by
  cases h with
  | last hb _ => exact hb
  | cons hb _ _ => exact hb

/-- On a hierarchy the last block of a chain climbs back to its first by one parent link a
member. -/
theorem NextChain.climbs {ws : Workspace} (hH : ws.Hierarchy) {x : Nat} {b : Block}
    {bs : List Block} (h : ws.NextChain x b bs) : ∃ z, ws.ascend bs.length z = some x := by
  induction h with
  | last _ _ => exact ⟨_, rfl⟩
  | @cons x y b c bs hb hnext _ ih =>
    obtain ⟨z, hz⟩ := ih
    -- the block chained after `x` has `x` as its parent
    have hyx : ws.parentOf y = some x :=
      hH.parent_of_held (by rw [socketsOf_of_get? hb]; simp [Block.sockets, hnext])
    refine ⟨z, ?_⟩
    rw [List.length_cons, ascend_succ', hz, Option.bind_some, hyx]

/-- On a hierarchy a chain is shorter than the store. -/
theorem NextChain.length_lt {ws : Workspace} (hH : ws.Hierarchy) {x : Nat} {b : Block}
    {bs : List Block} (h : ws.NextChain x b bs) : bs.length < ws.blocks.length := by
  obtain ⟨z, hz⟩ := h.climbs hH
  have := hH.chain_le hz ⟨b, h.get?⟩
  omega

end Workspace

/-! ### The chain law -/

namespace Code.Pass

variable {g : Pass} {T : Nat}
  (hset : ∀ x b, g.workspace.get? x = some b → ∀ m, T ≤ m → g.ownCode m b = g.generated b)
include hset

/-- By induction on the chain: with two units of fuel a member on top of the fuel from which every
live block's own code is settled, a block's code is the chain law over its members' codes. -/
theorem blockCode_chain {x : Nat} {b : Block} {bs : List Block}
    (hc : g.workspace.NextChain x b bs) : ∀ n, T + 2 * bs.length ≤ n →
      g.blockCode (n + 1) x = (do
        let f ← g.generated b
        let fs ← bs.mapM g.generated
        pure (chainOf f fs)) := by
  induction hc with
  | last hb hnext =>
    intro n hn
    rw [blockCode_succ hb, hset _ _ hb n (by simpa using hn), hnext]
    simp [follow]
  | @cons x y b c bs hb hnext _ ih =>
    intro n hn
    rw [List.length_cons] at hn
    obtain ⟨n, rfl⟩ : ∃ n', n = n' + 2 := ⟨n - 2, by omega⟩
    rw [blockCode_succ hb, hset _ _ hb _ (by omega), hnext]
    -- the chain after the block, as chained text, is the chain law over the rest
    simp only [follow, chainCode_succ, ih n (by omega), List.mapM_cons, bind_assoc, pure_bind,
      chainText_chainOf, chainOf_cons]

end Code.Pass

open Code in
/-- **Chains generate as the concatenation of their members.** In every session, for every chain
of live blocks from `x` along next connections to a block with nothing chained after it, the code
of `x` is what the members' own generators make, joined: the first member's code when nothing is
chained after it and it is a value, and otherwise the statement of every member's code as it
reads in a chain. A member whose generator fails gives the failure of the first such member. -/
theorem chain_code_concatenates (ops : List Op) (config : Config) {x : Nat} {b : Block}
    {bs : List Block} (hc : (Session.init.run ops).ws.NextChain x b bs) :
    let g : Pass := ⟨(Session.init.run ops).host, (Session.init.run ops).ws, config⟩
    g.blockToCode x = (do
      let f ← g.generated b
      let fs ← bs.mapM g.generated
      pure (chainOf f fs)) := by
  intro g
  have h : (Session.init.run ops).Generating := Session.run_generating ops Session.generating_init
  have hgen : g.workspace.All fun b => (g.host.generator? b.typeName).isSome :=
    fun i b hb => h.generates _ (h.typed i b hb)
  have hlen : bs.length < g.workspace.blocks.length := hc.length_lt h.hierarchy
  -- the walk along the chain spends two units a member, and the whole pass has eight a block
  obtain ⟨n, hn⟩ : ∃ n, g.fuel = n + 1 := ⟨g.fuel - 1, by unfold Pass.fuel; omega⟩
  have hfuel : 4 * g.workspace.blocks.length + 2 * bs.length ≤ n := by
    unfold Pass.fuel at hn
    omega
  unfold Pass.blockToCode
  rw [hn]
  exact Pass.blockCode_chain (fun _ _ hb _ hm => Pass.ownCode_settled h.hierarchy hgen hb hm) hc n
    hfuel

/-- A statement type `S` whose blocks' own generator makes the value `x`. -/
def Op.valueStepPlan : BlockPlan :=
  { name := "S", kind := .statement, orientation := .horizontal, categories := [], tooltip := "",
    helpUrl := "", colours := [],
    variants := .leaf ⟨"S", [], [], none, some (.literal "x" .atomic)⟩ "" }

/-- Two blocks of `S`, the second chained after the first. -/
def Op.valueChainSession : List Op :=
  [.define Op.valueStepPlan, .newBlock "S", .newBlock "S", .connectNext 0 1]

/-- The two blocks of `S` form a chain, whose code the chain law gives. -/
theorem value_chain_concatenates :
    let σ := Session.init.run Op.valueChainSession
    let g : Code.Pass := ⟨σ.host, σ.ws, {}⟩
    ∃ b c, σ.ws.NextChain 0 b [c] ∧ g.blockToCode 0 = (do
      let f ← g.generated b
      let fs ← [c].mapM g.generated
      pure (Code.chainOf f fs)) := by
  intro σ g
  obtain ⟨b, hb⟩ : ∃ b, σ.ws.get? 0 = some b := Option.isSome_iff_exists.mp (by decide +kernel)
  obtain ⟨c, hc⟩ : ∃ c, σ.ws.get? 1 = some c := Option.isSome_iff_exists.mp (by decide +kernel)
  have hb1 : b.next.bind (·.target) = some 1 := by
    have h : (σ.ws.get? 0).bind (·.next.bind (·.target)) = some 1 := by decide +kernel
    simpa [hb] using h
  have hc1 : c.next.bind (·.target) = none := by
    have h : (σ.ws.get? 1).bind (·.next.bind (·.target)) = none := by decide +kernel
    simpa [hc] using h
  have hchain : σ.ws.NextChain 0 b [c] := .cons hb hb1 (.last hc hc1)
  exact ⟨b, c, hchain, chain_code_concatenates Op.valueChainSession {} hchain⟩

/-- Each block makes the value `x`, which reads `x;` and a newline in the chain. -/
example : (Code.Pass.blockToCode ⟨(Session.init.run Op.valueChainSession).host,
    (Session.init.run Op.valueChainSession).ws, {}⟩ 0).toOption.map Code.Fragment.text =
      some "x;\nx;\n" := by
  decide +kernel

end Blockwork
