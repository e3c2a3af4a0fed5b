import Blockwork.Proofs.Plan.Reaction
import Blockwork.Proofs.Code.Generation

/-!
# Setting a field, all or nothing

`setField` writes a field's new value back before the plan of the block's type reacts to it, and
keeps it when the reaction fails. Everything it checks before writing (the block, a visible field
of the name, a value the field accepts) fails with the workspace untouched; after writing, only
two things can fail: finding the type's plan, and the reaction. So a failed set leaves the
workspace as it was exactly when those two cannot fail: the type is defined, and the block is
unambiguous (`setField_error_unchanged`).

That holds in a session whose plans are all unambiguous (`BlockPlan.Unambiguous`): every live
block stays unambiguous through every step, succeeding or failing (`Session.step_setsCleanly`),
and so every failed set of every session leaves its workspace as it was
(`unambiguous_setField_all_or_nothing`). Without the condition a set can fail halfway: a plan
whose text field in one variant has the name of a branch in another is accepted, and setting that
text field writes the text and then fails to select a child of that name
(`ambiguous_setField_keeps_value`).
-/

namespace Blockwork

open Workspace WorkspaceM

/-- A plan whose tree is checked, and in which each branch is the one field of its name. -/
def BlockPlan.Unambiguous (p : BlockPlan) : Prop := p.variants.Checked ∧ p.variants.Unambiguous

theorem Host.definition_of_isDefined {host : Host} {t : String} (h : host.isDefined t = true) :
    ∃ p, host.definition t = .ok p := by
  obtain ⟨p, hp⟩ := Option.isSome_iff_exists.mp h
  exact ⟨p, by simp [Host.definition, hp]⟩

/-- A plan of the host after a redefinition is the new plan or a plan from before. -/
theorem Host.definition_redefine {host : Host} {p q : BlockPlan} {t : String}
    (h : (host.redefine p).1.definition t = .ok q) : q = p ∨ host.definition t = .ok q := by
  unfold Host.definition at h ⊢
  rw [show (host.redefine p).1.definitions = setKey host.definitions p.name p from rfl,
    lookup_setKey] at h
  by_cases ht : t = p.name
  · rw [if_pos ht, Except.ok.injEq] at h
    exact Or.inl h.symm
  · rw [if_neg ht] at h
    exact Or.inr h

namespace Block.BranchesUnambiguous

variable {b : Block}

/-- Connecting and disconnecting change no block's fields and no block's tree. -/
theorem release (h : b.BranchesUnambiguous) (x : Nat) :
    (b.release x).BranchesUnambiguous := by
  unfold Block.release
  split
  · exact h.of_eq rfl rfl
  · exact h.of_eq rfl rfl

theorem unplug (h : b.BranchesUnambiguous) : b.unplug.BranchesUnambiguous :=
  h.of_eq rfl rfl

theorem hangFrom (h : b.BranchesUnambiguous) (p : Nat) (s : Bool) :
    (b.hangFrom p s).BranchesUnambiguous := by
  unfold Block.hangFrom
  split
  · exact h.of_eq rfl rfl
  · exact h.of_eq rfl rfl

theorem plugInput (h : b.BranchesUnambiguous) (k c : Nat) :
    (b.plugInput k c).BranchesUnambiguous :=
  h.of_eq rfl rfl

theorem plugNext (h : b.BranchesUnambiguous) (c : Nat) :
    (b.plugNext c).BranchesUnambiguous :=
  h.of_eq rfl rfl

end Block.BranchesUnambiguous

namespace WorkspaceM

variable {host : Host}

/-- **A failed set leaves the workspace as it was** when the types of the live blocks are
defined and the blocks are unambiguous: after the write only the reaction could fail, and the
reaction to a value the field accepted succeeds on an unambiguous block. -/
theorem setField_error_unchanged {ws ws' : Workspace} {id : Nat} {name : String}
    {value : Json} {e : HostError} (hA : ws.All Block.BranchesUnambiguous)
    (hT : ws.All fun b => host.isDefined b.typeName = true)
    (h : (setField host id name value).run.run ws = (.error e, ws')) : ws' = ws := by
  rcases setField_run_cases h with
    ⟨rfl, -⟩ | ⟨b, i, f, f', hb, hn, hf, hset, ⟨-, -, hfail⟩ | ⟨-, -, -, -, hok, -⟩⟩
  · rfl
  · obtain ⟨p, hp⟩ := Host.definition_of_isDefined (hT id b hb)
    obtain ⟨b₂, hb₂⟩ := BlockPlan.fieldChanged_ok (p := p) (hA id b hb) hn hf hset
    exact absurd hb₂ (hfail p b₂ hp)
  · cases hok

/-- Setting a field keeps every live block unambiguous, whether it succeeds or fails. -/
theorem setField_unambiguous (id : Nat) (name : String) (value : Json) :
    Keeps (Workspace.All Block.BranchesUnambiguous) (setField host id name value) := by
  intro ws hA
  rcases h : (setField host id name value).run.run ws with ⟨r, ws'⟩
  rcases setField_run_cases h with
    ⟨rfl, -⟩ | ⟨b, i, f, f', hb, -, hf, hset, ⟨-, rfl, -⟩ | ⟨p, b₂, -, hb₂, -, rfl⟩⟩
  · exact hA
  all_goals have hu₁ := (hA id b hb).setValue hf hset
  · exact hA.write _ fun c hc => by cases hc; exact hu₁
  · refine (hA.write _ fun c hc => ?_).write _ fun c hc => ?_
    · cases hc
      exact hu₁
    · cases hc
      exact BlockPlan.fieldChanged_unambiguous hu₁ hb₂

theorem newBlock_unambiguous (hr : host.classes.field? "dropdown" = .ok .dropdown)
    (hplans : ∀ t p, host.definition t = .ok p → p.Unambiguous) (type : String) :
    Keeps (Workspace.All Block.BranchesUnambiguous) (newBlock host type) :=
  newBlock_all fun p _ _ hp hs =>
    BlockPlan.setUp_unambiguous hr (hplans type p hp).1 (hplans type p hp).2 hs

/-- Every step of placing keeps the hierarchy and every live block unambiguous, when the host's
plans are unambiguous and dropdowns are made by the built-in constructor. -/
theorem unambiguous_placeSteps (hr : host.classes.field? "dropdown" = .ok .dropdown)
    (hplans : ∀ t p, host.definition t = .ok p → p.Unambiguous) :
    PlaceSteps host fun ws => ws.Hierarchy ∧ ws.All Block.BranchesUnambiguous where
  hierarchy h := h.1
  newBlock type := Keeps.and (newBlock_hierarchy type) (newBlock_unambiguous hr hplans type)
  markShadow id _ := Keeps.and (fun _ h => h.change id fun _ => ⟨rfl, rfl, rfl, rfl, rfl⟩)
    (Keeps.update id fun _ h => h.of_eq rfl rfl)
  setField id name value ws h _ :=
    ⟨setField_hierarchy id name value ws h.1, setField_unambiguous id name value ws h.2⟩
  connect parent name child := Keeps.and (connect_hierarchy parent name child)
    (connect_all (Q := Block.BranchesUnambiguous) (fun _ x h => h.release x)
      (fun _ h => h.unplug) (fun _ p s h => h.hangFrom p s) (fun _ k c h => h.plugInput k c)
      parent name child)
  connectNext previous next := Keeps.and (connectNext_hierarchy previous next)
    (connectNext_all (Q := Block.BranchesUnambiguous) (fun _ x h => h.release x)
      (fun _ h => h.unplug) (fun _ p s h => h.hangFrom p s) (fun _ c h => h.plugNext c)
      previous next)
  dispose x := Keeps.and (dispose_hierarchy x)
    (dispose_all (Q := Block.BranchesUnambiguous) (fun _ x h => h.release x)
      (fun _ h => h.unplug) x)

end WorkspaceM

/-! ### Sessions -/

/-- The step defines only unambiguous plans. -/
def Op.DefinesUnambiguous : Op → Prop
  | .define p => p.Unambiguous
  | .redefine p => p.Unambiguous
  | _ => True

namespace Session

open WorkspaceM

/-- What a session keeps for setting fields all or nothing: every live block is unambiguous,
dropdowns are made by the built-in constructor, and every plan of the host is unambiguous. -/
structure SetsCleanly (σ : Session) : Prop where
  unambiguous : σ.ws.All Block.BranchesUnambiguous
  classes : σ.host.classes = .builtin
  plans : ∀ t p, σ.host.definition t = .ok p → p.Unambiguous

theorem setsCleanly_init : init.SetsCleanly where
  unambiguous _ _ hb := by cases hb
  classes := rfl
  plans t p hp := by cases hp

theorem SetsCleanly.dropdown {σ : Session} (h : σ.SetsCleanly) :
    σ.host.classes.field? "dropdown" = .ok .dropdown := by
  rw [h.classes]
  rfl

theorem SetsCleanly.edit {σ : Session} {α : Type} {m : WorkspaceM α} (h : σ.SetsCleanly)
    (hm : Keeps (Workspace.All Block.BranchesUnambiguous) m) : (σ.edit m).SetsCleanly :=
  ⟨hm σ.ws h.unambiguous, h.classes, h.plans⟩

theorem SetsCleanly.redefine {σ : Session} (h : σ.SetsCleanly) {p : BlockPlan}
    (hp : p.Unambiguous) : ({ σ with host := (σ.host.redefine p).1 } : Session).SetsCleanly := by
  refine ⟨h.unambiguous, h.classes, fun t q hq => ?_⟩
  rcases Host.definition_redefine hq with rfl | hq
  · exact hp
  · exact h.plans t q hq

/-- **Every step keeps every live block unambiguous** when it defines only unambiguous plans,
whether it succeeds or fails. -/
theorem step_setsCleanly {σ : Session} (hg : σ.Generating) (h : σ.SetsCleanly) :
    ∀ {op : Op}, op.DefinesUnambiguous → (σ.step op).SetsCleanly
  | .define p, hp => by
    simp only [step]
    split
    · rename_i host' hd
      rw [Host.define_eq hd]
      exact h.redefine hp
    · exact h
  | .redefine p, hp => h.redefine hp
  | .setGenerator t gen, _ => ⟨h.unambiguous, h.classes, h.plans⟩
  | .newBlock t, _ => h.edit (newBlock_unambiguous h.dropdown h.plans t)
  | .connect p n c, _ => h.edit (connect_all (Q := Block.BranchesUnambiguous)
      (fun _ x h => h.release x) (fun _ h => h.unplug) (fun _ p s h => h.hangFrom p s)
      (fun _ k c h => h.plugInput k c) p n c)
  | .connectNext p n, _ => h.edit (connectNext_all (Q := Block.BranchesUnambiguous)
      (fun _ x h => h.release x)
      (fun _ h => h.unplug) (fun _ p s h => h.hangFrom p s) (fun _ c h => h.plugNext c) p n)
  | .disconnect x, _ => h.edit (disconnect_all (Q := Block.BranchesUnambiguous)
      (fun _ x h => h.release x) (fun _ h => h.unplug) x)
  | .dispose x, _ => h.edit (dispose_all (Q := Block.BranchesUnambiguous)
      (fun _ x h => h.release x) (fun _ h => h.unplug) x)
  | .setField x n v, _ => h.edit (setField_unambiguous x n v)
  | .place s, _ =>
    ⟨(placeAs_keeps (unambiguous_placeSteps h.dropdown h.plans) false s σ.ws
      ⟨hg.hierarchy, h.unambiguous⟩).2, h.classes, h.plans⟩

/-- Every run that defines only unambiguous plans keeps every live block unambiguous. -/
theorem run_setsCleanly :
    ∀ {σ : Session} {ops : List Op}, σ.Generating → σ.SetsCleanly →
      (∀ op ∈ ops, op.DefinesUnambiguous) → (σ.run ops).SetsCleanly
  | _, [], _, h, _ => h
  | σ, op :: _, hg, h, hops =>
    run_setsCleanly (σ := σ.step op) (step_generating hg op)
      (step_setsCleanly hg h (hops op List.mem_cons_self))
      fun o ho => hops o (List.mem_cons_of_mem _ ho)

end Session

/-- **Setting a field is all or nothing in every session whose plans are unambiguous**: when
each plan the session defines is checked and has each branch as the one field of its name,
every set that fails, on any block, field and value, after any steps succeeding or failing,
leaves the workspace as it was. -/
theorem unambiguous_setField_all_or_nothing (ops : List Op)
    (h : ∀ op ∈ ops, op.DefinesUnambiguous) :
    let σ := Session.init.run ops
    ∀ (id : Nat) (name : String) (value : Json) (e : HostError) (ws' : Workspace),
      (setField σ.host id name value).run.run σ.ws = (.error e, ws') → ws' = σ.ws := by
  intro σ id name value e ws' hrun
  have hg : σ.Generating := Session.run_generating ops Session.generating_init
  have hs : σ.SetsCleanly := Session.run_setsCleanly Session.generating_init
    Session.setsCleanly_init h
  exact setField_error_unchanged hs.unambiguous hg.typed hrun

/-- A value type `S` offering `A` or `B`, each with a text field `F`. -/
def choicePlan : BlockPlan :=
  { name := "S", kind := .value, orientation := .horizontal, categories := [], tooltip := "",
    helpUrl := "", colours := [BlockPlan.defaultColour],
    variants := .branch ⟨"S", [], [("S", branchDropdown "S" ["A", "B"])], none, none⟩
      [.leaf ⟨"A", [], [("F", { name := "F", type := "input" })], none, none⟩
          "%\x7bS\x7d %\x7bF\x7d",
        .leaf ⟨"B", [], [("F", { name := "F", type := "input" })], none, none⟩
          "%\x7bS\x7d %\x7bF\x7d"] }

/-- Two variants may share a field name, as long as no branch has it. -/
theorem choicePlan_unambiguous : choicePlan.Unambiguous := by
  refine ⟨.branch _ _ (by simp) ⟨[], rfl⟩ fun c hc => ?_, ?_⟩
  · simp only [List.mem_cons, List.not_mem_nil, or_false] at hc
    rcases hc with rfl | rfl
    · exact .leaf _ _
    · exact .leaf _ _
  · unfold VariantPlan.Unambiguous
    decide

/-- Defines `choicePlan`, makes a block of it, sets its text and picks `B`. -/
def choiceSession : List Op :=
  [.define choicePlan, .newBlock "S", .setField 0 "F" (.str "x"), .setField 0 "S" (.str "B")]

/-- The sessions that start with `choiceSession` set fields all or nothing. -/
theorem choice_setField_all_or_nothing :
    (∀ op ∈ choiceSession, op.DefinesUnambiguous) ∧
      let σ := Session.init.run choiceSession
      ∀ (id : Nat) (name : String) (value : Json) (e : HostError) (ws' : Workspace),
        (setField σ.host id name value).run.run σ.ws = (.error e, ws') → ws' = σ.ws := by
  have hops : ∀ op ∈ choiceSession, op.DefinesUnambiguous := by
    intro op hop
    simp only [choiceSession, List.mem_cons, List.not_mem_nil, or_false] at hop
    rcases hop with rfl | rfl | rfl | rfl
    · exact choicePlan_unambiguous
    all_goals trivial
  exact ⟨hops, unambiguous_setField_all_or_nothing choiceSession hops⟩

/-- A value type `T` whose variant `A` has a text field `X` and whose variant `X` is a branch
offering `P` or `Q`. -/
def ambiguousData : BlockData :=
  { name := "T",
    variants := some [
      { name := "A", fields := [{ name := "X", type := "input" }],
        message := some "%\x7bT\x7d %\x7bX\x7d" },
      { name := "X",
        variants := some [{ name := "P", message := some "%\x7bT\x7d %\x7bX\x7d" },
          { name := "Q", message := some "%\x7bT\x7d %\x7bX\x7d" }] }] }

/-- The plan built from `ambiguousData`. -/
def ambiguousPlan : BlockPlan :=
  { name := "T", kind := .value, orientation := .horizontal, categories := [], tooltip := "",
    helpUrl := "", colours := [BlockPlan.defaultColour],
    variants := .branch ⟨"T", [], [("T", branchDropdown "T" ["A", "X"])], none, none⟩
      [.leaf ⟨"A", [], [("X", { name := "X", type := "input" })], none, none⟩
          "%\x7bT\x7d %\x7bX\x7d",
        .branch ⟨"X", [], [("X", branchDropdown "X" ["P", "Q"])], none, none⟩
          [.leaf ⟨"P", [], [], none, none⟩ "%\x7bT\x7d %\x7bX\x7d",
            .leaf ⟨"Q", [], [], none, none⟩ "%\x7bT\x7d %\x7bX\x7d"]] }

theorem ambiguous_build : BlockPlan.build ambiguousData {} [] = .ok ambiguousPlan := by
  simp only [BlockPlan.build, Messages.lookup_empty, Option.getD_none]
  rfl

/-- Defines `ambiguousPlan` and makes a block of it. -/
def ambiguousSession : List Op := [.define ambiguousPlan, .newBlock "T"]

/-- **An accepted plan can make a set fail halfway.** The plan `ambiguousPlan` is accepted though
its branch `X` shares its name with the text field of `A`. Setting that text field of a new block
to `hello` fails, since the branch `X` has no child `hello`, but the field shows `hello` from then
on. -/
theorem ambiguous_setField_keeps_value :
    let σ := Session.init.run ambiguousSession
    let r := (setField σ.host 0 "X" (.str "hello")).run.run σ.ws
    BlockPlan.build ambiguousData {} [] = .ok ambiguousPlan ∧
      "X" ∈ ambiguousPlan.variants.branchNames ∧ ambiguousPlan.variants.fieldNames.count "X" = 2 ∧
      r.1.toOption = none ∧
      ((σ.ws.get? 0).bind fun b => ((b.fieldNamed? "X").bind b.field?).bind (·.value.str?)) =
        some "" ∧
      ((r.2.get? 0).bind fun b => ((b.fieldNamed? "X").bind b.field?).bind (·.value.str?)) =
        some "hello" := by
  refine ⟨ambiguous_build, ?_⟩
  -- the kernel runs the session and the set
  decide +kernel

end Blockwork
