import Blockwork.Proofs.Code.Generation

/-!
# What a pass reads

A block's code is what its own generator makes, followed by the chain after it
(`Pass.blockCode_succ`). A pass walks down from a block on fuel and reads each block it reaches
only through what the block shows: its type, its own generator, the block chained after it, the
inputs on its line and its fields (`Block.ReadsAlike`). Two passes over one host and one
configuration whose stores hold, id by id, blocks that read alike read alike (`Pass.Alike`). A
generator written as a function is given the whole block, its hidden inputs included; one that
reads only what a pass reads (`Code.ReadsShown`) is a hypothesis of the results that need it.

Both facts come out of one induction on the fuel. A result that did not run out of fuel at fuel
`n` is the result of any pass that reads alike with any fuel from `n` on (`Pass.kept`). So more
fuel only cuts walks short (`Pass.stable`), and replacing blocks by blocks that read alike changes
no code (`Pass.blockToCode_congr`).
-/

namespace Blockwork

/-! ### What a pass reads of a block -/

namespace Block

/-- Two blocks a pass reads alike: one id, one type and one own generator, the same block chained
after them, the same inputs on the line and the same fields on those inputs' rows. -/
structure ReadsAlike (b b' : Block) : Prop where
  id : b'.id = b.id
  typeName : b'.typeName = b.typeName
  generator : b'.generator = b.generator
  next : b'.next.bind (·.target) = b.next.bind (·.target)
  visibleInputs : b'.visibleInputs = b.visibleInputs
  shownFields : ∀ k inp, (k, inp) ∈ b.visibleInputs → ∀ i ∈ inp.fieldRow, b'.field? i = b.field? i

/-- A field a name finds stands on the row of an input on the line. -/
theorem mem_fieldRow_of_fieldNamed? {b : Block} {n : String} {i : Nat}
    (h : b.fieldNamed? n = some i) : ∃ k inp, (k, inp) ∈ b.visibleInputs ∧ i ∈ inp.fieldRow := by
  obtain ⟨⟨i', f⟩, hfind, rfl⟩ := Option.map_eq_some_iff.mp h
  obtain ⟨⟨k, inp⟩, hx, hi⟩ := List.mem_flatMap.mp (List.mem_of_find?_eq_some hfind)
  obtain ⟨j, hj, hji⟩ := List.mem_filterMap.mp hi
  obtain ⟨f', -, he⟩ := Option.map_eq_some_iff.mp hji
  obtain ⟨rfl, -⟩ := Prod.mk.inj he
  exact ⟨k, inp, hx, hj⟩

namespace ReadsAlike

variable {b b' : Block}

@[refl] theorem refl (b : Block) : b.ReadsAlike b := ⟨rfl, rfl, rfl, rfl, rfl, fun _ _ _ _ _ => rfl⟩

@[symm] theorem symm (h : b.ReadsAlike b') : b'.ReadsAlike b := by
  refine ⟨h.id.symm, h.typeName.symm, h.generator.symm, h.next.symm, h.visibleInputs.symm,
    fun k inp hx i hi => ?_⟩
  rw [h.visibleInputs] at hx
  exact (h.shownFields k inp hx i hi).symm

theorem bindings (h : b.ReadsAlike b') : Code.bindings b' = Code.bindings b := by
  unfold Code.bindings
  rw [h.visibleInputs]
  refine List.foldl_ext _ _ _ fun acc x hx => ?_
  obtain ⟨k, inp⟩ := x
  -- a template sees the fields on the rows of the inputs on the line, and only those
  refine List.foldl_ext _ _ _ fun acc i hi => ?_
  rw [h.shownFields k inp hx i hi]

theorem visibleFields (h : b.ReadsAlike b') : b'.visibleFields = b.visibleFields := by
  unfold Block.visibleFields
  rw [h.visibleInputs]
  refine List.flatMap_congr fun x hx => ?_
  obtain ⟨k, inp⟩ := x
  exact List.filterMap_congr fun i hi => by rw [h.shownFields k inp hx i hi]

theorem fieldNamed? (h : b.ReadsAlike b') (n : String) : b'.fieldNamed? n = b.fieldNamed? n := by
  unfold Block.fieldNamed?
  rw [h.visibleFields]

/-- The field a name finds is the same field in both blocks. -/
theorem field?_fieldNamed? (h : b.ReadsAlike b') (n : String) :
    (b'.fieldNamed? n).bind b'.field? = (b.fieldNamed? n).bind b.field? := by
  rw [h.fieldNamed?]
  rcases hn : b.fieldNamed? n with _ | i
  · rfl
  · obtain ⟨k, inp, hx, hi⟩ := mem_fieldRow_of_fieldNamed? hn
    exact h.shownFields k inp hx i hi

/-- The block in an input of a name is read off the line, where both blocks have the same
inputs. -/
theorem targetOf? (h : b.ReadsAlike b') (n : String) : b'.targetOf? n = b.targetOf? n := by
  unfold Block.targetOf? inputNamed?
  rw [h.visibleInputs]
  rcases hfind : b.visibleInputs.find? (·.2.name == some n) with _ | ⟨i, inp⟩
  · simp only [hfind, Option.map_none, Option.bind_none]
  · have hmem := List.mem_of_find?_eq_some hfind
    have hmem' : (i, inp) ∈ b'.visibleInputs := by rw [h.visibleInputs]; exact hmem
    simp only [hfind, Option.map_some, Option.bind_some]
    rw [Code.input?_of_mem_visibleInputs hmem, Code.input?_of_mem_visibleInputs hmem']

end ReadsAlike

end Block

/-- The generator a pass over the host runs on a block: the generator of the block's type, or the
block's own when the type's generator is attached to its blocks. -/
def Host.generatorFor (host : Host) (b : Block) : Option Code.Generator :=
  match host.generator? b.typeName with
  | some (.direct gen) => some gen
  | some .attached => b.generator
  | none => none

/-- Blocks that read alike get the same generator. -/
theorem Block.ReadsAlike.generatorFor {b b' : Block} (h : b.ReadsAlike b') (host : Host) :
    host.generatorFor b' = host.generatorFor b := by
  unfold Host.generatorFor
  rw [h.typeName, h.generator]

/-- A generator written as a function reads a block only through what a pass reads of it: blocks
that read alike give it the same steps. -/
def Code.ReadsShown (steps : Code.BlockView → Code.Config → Code.Steps) : Prop :=
  ∀ (b b' : Block) config, b.ReadsAlike b' → steps b'.view config = steps b.view config

/-- Two stores of the same length whose ids are live at the same places have as many live
blocks. -/
theorem Workspace.size_congr {ws ws' : Workspace} (hlen : ws'.blocks.length = ws.blocks.length)
    (h : ∀ x, (ws'.get? x).isSome = (ws.get? x).isSome) : ws'.size = ws.size := by
  have hmap : ws'.blocks.map Option.isSome = ws.blocks.map Option.isSome := by
    refine List.ext_getElem (by simp [hlen]) fun x h₁ h₂ => ?_
    have hx := h x
    rw [List.length_map] at h₁ h₂
    simp only [Workspace.get?, List.getElem?_eq_getElem h₁, List.getElem?_eq_getElem h₂,
      Option.join_some] at hx
    simpa using hx
  have hcount := congrArg (List.countP id) hmap
  simp only [List.countP_map] at hcount
  simp only [Workspace.size, ← List.countP_eq_length_filter]
  exact hcount

namespace Code

/-- The text a chained block's code adds after the block before it: a value followed by `;` and a
newline, statements as they are. -/
def Fragment.chainText : Fragment → String
  | .value c _ => c ++ ";\n"
  | .statement c => c

/-! ### Fuel only cuts a walk short -/

/-- `r'` is `r`, unless `r` ran out of fuel. -/
def Extends {α : Type} (r r' : Except GenerateError α) : Prop := r ≠ .error .tooDeep → r' = r

section Extends

variable {α β γ : Type}

theorem Extends.refl (r : Except GenerateError α) : Extends r r := fun _ => rfl

theorem extends_tooDeep (r : Except GenerateError α) : Extends (.error .tooDeep) r :=
  fun h => (h rfl).elim

theorem Extends.bind {x x' : Except GenerateError α} {f f' : α → Except GenerateError β}
    (hx : Extends x x') (hf : ∀ a, Extends (f a) (f' a)) : Extends (x >>= f) (x' >>= f') := by
  intro h
  cases x with
  | error e =>
    -- a failure other than running out is passed on as it is
    have he : e ≠ .tooDeep := fun he => h (by rw [he]; rfl)
    rw [hx fun h' => he (Except.error.inj h')]
    rfl
  | ok a =>
    rw [hx fun h' => by cases h']
    exact hf a h

theorem Extends.mapM {f f' : γ → Except GenerateError β} (hf : ∀ a, Extends (f a) (f' a)) :
    ∀ l : List γ, Extends (l.mapM f) (l.mapM f')
  | [] => Extends.refl _
  | a :: l => by
    simp only [List.mapM_cons]
    exact (hf a).bind fun _ => (Extends.mapM hf l).bind fun _ => Extends.refl _

/-- By induction on the steps: **a generator written as a function keeps its result** when each
answer it gets is kept. -/
theorem Steps.run_extends {value value' : String → Order → Except GenerateError String}
    {statement statement' : String → Except GenerateError String}
    (hv : ∀ input outer, Extends (value input outer) (value' input outer))
    (hs : ∀ input, Extends (statement input) (statement' input)) (steps : Steps) :
    Extends (steps.run value statement) (steps.run value' statement') := by
  induction steps with
  | done code => exact Extends.refl _
  | fail message => exact Extends.refl _
  | value input outer next ih =>
    rw [Steps.run, Steps.run]
    exact (hv input outer).bind ih
  | statement input next ih =>
    rw [Steps.run, Steps.run]
    exact (hs input).bind ih

end Extends

namespace Pass

variable (g : Pass)

/-- The code a block's own generator makes in the pass. -/
def generated (b : Block) : Except GenerateError Fragment := g.ownCode g.fuel b

variable {g}

theorem blockCode_succ_none {n x : Nat} (hb : g.workspace.get? x = none) :
    g.blockCode (n + 1) x = .error (.noSuchBlock x) := by
  rw [blockCode]
  simp only [hb]
  rfl

theorem chainCode_succ (n y : Nat) :
    g.chainCode (n + 1) y = g.blockCode n y >>= fun f => pure f.chainText := by
  rw [chainCode]
  rcases g.blockCode n y with e | f
  · rfl
  · cases f <;> rfl

/-! ### Passes that read alike -/

/-- Two passes over one host and one configuration whose stores have the same length and hold,
id by id, blocks that read alike, where every generator written as a function that the first pass
runs on a block reads it and the block of the second alike. -/
structure Alike (g g' : Pass) : Prop where
  host : g'.host = g.host
  config : g'.config = g.config
  length : g'.workspace.blocks.length = g.workspace.blocks.length
  get? : ∀ x, Option.Rel Block.ReadsAlike (g.workspace.get? x) (g'.workspace.get? x)
  functions : ∀ x b b' steps, g.workspace.get? x = some b → g'.workspace.get? x = some b' →
    g.host.generatorFor b = some (.function steps) → steps b'.view g.config = steps b.view g.config

namespace Alike

variable {g' : Pass}

@[refl] theorem refl (g : Pass) : g.Alike g := by
  refine ⟨rfl, rfl, rfl, fun x => by cases g.workspace.get? x <;> constructor; rfl, ?_⟩
  intro x b b' steps hb hb' _
  rw [Option.some.inj (hb.symm.trans hb')]

theorem get?_none (hg : g.Alike g') {x : Nat} (hx : g.workspace.get? x = none) :
    g'.workspace.get? x = none := by
  have hr := hg.get? x
  rw [hx] at hr
  rcases hx' : g'.workspace.get? x with _ | b'
  · rfl
  · rw [hx'] at hr
    cases hr

theorem get?_some (hg : g.Alike g') {x : Nat} {b : Block} (hx : g.workspace.get? x = some b) :
    ∃ b', g'.workspace.get? x = some b' ∧ b.ReadsAlike b' := by
  have hr := hg.get? x
  rw [hx] at hr
  rcases hx' : g'.workspace.get? x with _ | b'
  · rw [hx'] at hr
    cases hr
  · rw [hx'] at hr
    cases hr with
    | some h => exact ⟨b', rfl, h⟩

@[symm] theorem symm (hg : g.Alike g') : g'.Alike g := by
  refine ⟨hg.host.symm, hg.config.symm, hg.length.symm, fun x => ?_,
    fun x b' b steps hb' hb hgen => ?_⟩
  · rcases hx : g.workspace.get? x with _ | b
    · rw [hg.get?_none hx]
      exact .none
    · obtain ⟨b', hb', hbb'⟩ := hg.get?_some hx
      rw [hb']
      exact .some hbb'.symm
  · obtain ⟨c, hc, hbc⟩ := hg.get?_some hb
    rw [hb'] at hc
    cases hc
    rw [hg.host, hbc.generatorFor] at hgen
    rw [hg.config]
    exact (hg.functions x b b' steps hb hb' hgen).symm

theorem size (hg : g.Alike g') : g'.workspace.size = g.workspace.size := by
  refine Workspace.size_congr hg.length fun x => ?_
  rcases hx : g.workspace.get? x with _ | b
  · rw [hg.get?_none hx]
  · obtain ⟨b', hb', -⟩ := hg.get?_some hx
    rw [hb']
    rfl

end Alike

/-! ### More fuel keeps every result that did not run out -/

variable (g) in
/-- The code of every block at fuel `n` in `g` is kept in `g'` with more fuel. -/
def Kept (g' : Pass) (n : Nat) : Prop :=
  ∀ m x, n ≤ m → Extends (g.blockCode n x) (g'.blockCode m x)

section Below

/- Each function of a pass keeps its results in a pass that reads alike, with more fuel, when the
blocks it generates, with less fuel than it has, do. -/
variable {g' : Pass} {n m : Nat} (hg : g.Alike g') (h : ∀ k < n, g.Kept g' k) (hm : n ≤ m)
include hg h hm

omit hg in
theorem chainCode_extends (y : Nat) : Extends (g.chainCode n y) (g'.chainCode m y) := by
  cases n with
  | zero => exact extends_tooDeep _
  | succ n =>
    obtain ⟨m, rfl⟩ : ∃ m', m = m' + 1 := ⟨m - 1, by omega⟩
    rw [chainCode_succ, chainCode_succ]
    exact (h n (by omega) m y (by omega)).bind fun _ => Extends.refl _

theorem childCode_extends (y : Nat) (s : Bool) :
    Extends (g.childCode n y s) (g'.childCode m y s) := by
  cases n with
  | zero => exact extends_tooDeep _
  | succ n =>
    obtain ⟨m, rfl⟩ : ∃ m', m = m' + 1 := ⟨m - 1, by omega⟩
    rw [childCode, childCode, hg.config]
    exact (h n (by omega) m y (by omega)).bind fun _ => Extends.refl _

omit hg in
theorem valueCode_extends {b b' : Block} (hb : b.ReadsAlike b') (name : String) (outer : Order) :
    Extends (g.valueCode n b name outer) (g'.valueCode m b' name outer) := by
  cases n with
  | zero => exact extends_tooDeep _
  | succ n =>
    obtain ⟨m, rfl⟩ : ∃ m', m = m' + 1 := ⟨m - 1, by omega⟩
    rw [valueCode, valueCode, hb.targetOf?]
    split
    · exact Extends.refl _
    · exact (h n (by omega) m _ (by omega)).bind fun _ => Extends.refl _

theorem statementCode_extends {b b' : Block} (hb : b.ReadsAlike b') (name : String) :
    Extends (g.statementCode n b name) (g'.statementCode m b' name) := by
  cases n with
  | zero => exact extends_tooDeep _
  | succ n =>
    obtain ⟨m, rfl⟩ : ∃ m', m = m' + 1 := ⟨m - 1, by omega⟩
    rw [statementCode, statementCode, hb.targetOf?]
    split
    · exact Extends.refl _
    · exact childCode_extends hg (fun k hk => h k (by omega)) (by omega) _ true

theorem templateData_extends (bs : List (String × Binding)) :
    Extends (g.templateData n bs) (g'.templateData m bs) := by
  cases n with
  | zero => exact extends_tooDeep _
  | succ n =>
    obtain ⟨m, rfl⟩ : ∃ m', m = m' + 1 := ⟨m - 1, by omega⟩
    rw [templateData, templateData]
    refine Extends.mapM (fun p => ?_) bs
    rcases p with ⟨k, _ | _⟩
    · exact (childCode_extends hg (fun k hk => h k (by omega)) (by omega) _ _).bind
        fun _ => Extends.refl _
    · exact Extends.refl _

theorem run_extends {b b' : Block} (hb : b.ReadsAlike b') (gen : Generator)
    (hfun : ∀ steps, gen = .function steps → steps b'.view g'.config = steps b.view g.config) :
    Extends (g.run n b gen) (g'.run m b' gen) := by
  cases n with
  | zero => exact extends_tooDeep _
  | succ n =>
    obtain ⟨m, rfl⟩ : ∃ m', m = m' + 1 := ⟨m - 1, by omega⟩
    have h' : ∀ k < n, g.Kept g' k := fun k hk => h k (by omega)
    have hv : ∀ name outer, Extends (g.valueCode n b name outer) (g'.valueCode m b' name outer) :=
      valueCode_extends h' (by omega) hb
    -- the operands, inputs and fields the generator reads, then the same assembly
    cases gen <;> rw [run, run]
    case template t shape =>
      rw [hb.bindings]
      exact (templateData_extends hg h' (by omega) _).bind fun _ => Extends.refl _
    case binary symbol order left right =>
      exact (hv left order).bind fun _ => (hv right order).bind fun _ => Extends.refl _
    case unary opening order input => exact (hv input order).bind fun _ => Extends.refl _
    case call name args =>
      exact (Extends.mapM (fun a => hv a .comma) args).bind fun _ => Extends.refl _
    case field name order =>
      rw [hb.field?_fieldNamed?]
      exact Extends.refl _
    case body input header =>
      exact (statementCode_extends hg h' (by omega) hb input).bind fun _ => Extends.refl _
    case settings =>
      rw [hg.size, hg.config]
      exact Extends.refl _
    case function steps =>
      rw [hfun steps rfl]
      exact Steps.run_extends hv (statementCode_extends hg h' (by omega) hb) _
    all_goals exact Extends.refl _

theorem ownCode_extends {b b' : Block} (hb : b.ReadsAlike b')
    (hfun : ∀ steps, g.host.generatorFor b = some (.function steps) →
      steps b'.view g'.config = steps b.view g.config) :
    Extends (g.ownCode n b) (g'.ownCode m b') := by
  unfold ownCode
  rw [hg.host, hb.typeName, hb.generator]
  unfold Host.generatorFor at hfun
  rcases ht : g.host.generator? b.typeName with _ | tg
  · exact Extends.refl _
  · rw [ht] at hfun
    rcases tg with _ | gen
    · rcases hgen : b.generator with _ | gen
      · exact Extends.refl _
      · rw [hgen] at hfun
        exact run_extends hg h hm hb gen fun steps hs => hfun steps (by rw [hs])
    · exact run_extends hg h hm hb gen fun steps hs => hfun steps (by rw [hs])

omit hg in
theorem follow_extends (f : Fragment) (next : Option Nat) :
    Extends (g.follow n f next) (g'.follow m f next) := by
  cases next with
  | none => exact Extends.refl _
  | some y => exact (chainCode_extends h hm y).bind fun _ => Extends.refl _

end Below

/-- By strong induction on the fuel: **a pass that reads alike keeps every block's code** that
did not run out of fuel, with any more fuel. -/
theorem kept {g' : Pass} (hg : g.Alike g') (n : Nat) : g.Kept g' n := by
  induction n using Nat.strong_induction_on with
  | _ n ih =>
    intro m x hm
    cases n with
    | zero => exact extends_tooDeep _
    | succ n =>
      obtain ⟨m, rfl⟩ : ∃ m', m = m' + 1 := ⟨m - 1, by omega⟩
      have h' : ∀ k < n, g.Kept g' k := fun k hk => ih k (by omega)
      rcases hb : g.workspace.get? x with _ | b
      · rw [blockCode_succ_none hb, blockCode_succ_none (hg.get?_none hb)]
        exact Extends.refl _
      · obtain ⟨b', hb', hbb'⟩ := hg.get?_some hb
        rw [blockCode_succ hb, blockCode_succ hb', hbb'.next]
        have hfun : ∀ steps, g.host.generatorFor b = some (.function steps) →
            steps b'.view g'.config = steps b.view g.config := fun steps hs => by
          rw [hg.config]
          exact hg.functions x b b' steps hb hb' hs
        exact (ownCode_extends hg h' (by omega) hbb' hfun).bind fun f =>
          follow_extends h' (by omega) f _

/-- **More fuel keeps every block's code** that did not run out of fuel. -/
theorem stable (n : Nat) : g.Kept g n := kept (Alike.refl g) n

/-- Passes that read alike give every block the same code at every fuel: each keeps what the
other did not run out of fuel on. -/
theorem blockCode_congr {g' : Pass} (hg : g.Alike g') (n x : Nat) :
    g'.blockCode n x = g.blockCode n x := by
  by_cases h : g.blockCode n x = .error .tooDeep
  · by_cases h' : g'.blockCode n x = .error .tooDeep
    · rw [h, h']
    · exact absurd ((kept hg.symm n n x le_rfl h').symm.trans h) h'
  · exact kept hg n n x le_rfl h

/-- **Blocks that read alike generate alike**: passes that read alike give every block the same
code. -/
theorem blockToCode_congr {g' : Pass} (hg : g.Alike g') (x : Nat) :
    g'.blockToCode x = g.blockToCode x := by
  have hfuel : g'.fuel = g.fuel := by
    unfold fuel
    rw [hg.length]
  unfold blockToCode
  rw [hfuel]
  exact blockCode_congr hg _ x

end Pass

end Code

end Blockwork
