import Blockwork.Proofs.Workspace.Forest

/-!
# What plans do to a block's connections

A plan touches a block in two ways. Making the block (`BlockPlan.setUp`) adds the inputs and
fields of every variant to the block's arenas; laying it out (`BlockPlan.configure`, after a
variant is selected) rewrites its line and turns its output, previous and next connections on or
off by the plan's kind.

Neither plugs anything in: every input a plan makes holds no block, so a block that grows by a
plan's inputs and fields (`Block.Grows`) keeps its sockets, its parent, its id and its type. A
layout keeps the inputs' connections and keeps what the next connection holds unless the kind
is `value`, which drops the next connection; it keeps the sockets exactly when a `value` block
had no next connection to drop (`configure_sockets`). A fresh block made by a plan holds nothing
and has no parent (`setUp_sockets`, `setUp_parent`).

A reaction to a changed field (`BlockPlan.fieldChanged`) does nothing or selects a variant, and a
selection sets the branch's dropdown, lays the block out and stores the new tree
(`selectVariant_cases`); a relation that each of these steps keeps, the whole reaction keeps
(`fieldChanged_induct`).
-/

namespace Blockwork

namespace Block

/-- `b'` is `b` with inputs and fields added at the ends of its arenas, none of the new inputs
holding a block. -/
structure Grows (b b' : Block) : Prop where
  inputs : ∃ l, b'.inputArena.toList = b.inputArena.toList ++ l ∧ ∀ i ∈ l, i.target = none
  fields : ∃ l, b'.fieldArena.toList = b.fieldArena.toList ++ l
  rest : { b' with inputArena := b.inputArena, fieldArena := b.fieldArena } = b

namespace Grows

variable {b b' b'' : Block}

@[refl] theorem refl (b : Block) : b.Grows b :=
  ⟨⟨[], by simp, by simp⟩, ⟨[], by simp⟩, rfl⟩

@[trans] theorem trans (h₁ : b.Grows b') (h₂ : b'.Grows b'') : b.Grows b'' := by
  obtain ⟨l₁, hl₁, ht₁⟩ := h₁.inputs
  obtain ⟨l₂, hl₂, ht₂⟩ := h₂.inputs
  obtain ⟨f₁, hf₁⟩ := h₁.fields
  obtain ⟨f₂, hf₂⟩ := h₂.fields
  refine ⟨⟨l₁ ++ l₂, by rw [hl₂, hl₁, List.append_assoc], ?_⟩,
    ⟨f₁ ++ f₂, by rw [hf₂, hf₁, List.append_assoc]⟩, ?_⟩
  · intro i hi
    rcases List.mem_append.mp hi with hi | hi
    · exact ht₁ i hi
    · exact ht₂ i hi
  · -- forgetting the arenas of `b''` twice over is forgetting them once
    have h := congrArg (fun x => { x with inputArena := b.inputArena, fieldArena := b.fieldArena })
      h₂.rest
    exact h.trans h₁.rest

theorem id_eq (h : b.Grows b') : b'.id = b.id := by rw [← h.rest]
theorem typeName_eq (h : b.Grows b') : b'.typeName = b.typeName := by rw [← h.rest]
theorem parent_eq (h : b.Grows b') : b'.parent = b.parent := by rw [← h.rest]
theorem next_eq (h : b.Grows b') : b'.next = b.next := by rw [← h.rest]

theorem arenaTargets_eq (h : b.Grows b') : b'.arenaTargets = b.arenaTargets := by
  obtain ⟨l, hl, ht⟩ := h.inputs
  have hnone : l.filterMap Input.target = [] := List.filterMap_eq_nil_iff.mpr ht
  simp only [arenaTargets, hl, List.filterMap_append, hnone, List.append_nil]

end Grows

theorem grows_adoptInput (b : Block) {i : Input} (hi : i.target = none) :
    b.Grows (b.adoptInput i).1 :=
  ⟨⟨[i], by simp [adoptInput], by simpa using hi⟩, ⟨[], by simp [adoptInput]⟩, rfl⟩

theorem grows_adoptField (b : Block) (f : Field) : b.Grows (b.adoptField f).1 :=
  ⟨⟨[], by simp [adoptField], by simp⟩, ⟨[f], by simp [adoptField]⟩, rfl⟩

end Block

/-- The inputs a registry makes hold no block. -/
theorem Registry.makeInput_target {r : Registry} {k : InputKind} {n : Option String}
    {c : Option (List String)} {i : Input} (h : r.makeInput k n c = .ok i) : i.target = none := by
  unfold Registry.makeInput at h
  rcases hk : r.input? k.registryName with e | k'
  · rw [hk] at h
    cases h
  · rw [hk] at h
    cases h
    cases k' <;> rfl

/-! ### Making a block -/

theorem Except.eq_ok_of_mapError {ε ε' α : Type} {g : ε → ε'} {x : Except ε α} {a : α}
    (h : x.mapError g = .ok a) : x = .ok a := by
  cases x with
  | error e => cases h
  | ok b => cases h; rfl

/-- A declared field that is made: a maker of the registry made a field from the arguments, the
default, if any, was set on it, and the result is named after the declaration. -/
theorem FieldData.make_ok {r : Registry} {d : FieldData} {f : Field} (h : d.make r = .ok f) :
    ∃ (maker : FieldMaker) (f₀ f₁ : Field), maker.make d.args = .ok f₀ ∧
      d.default.elim (.ok f₀) f₀.setValue = .ok f₁ ∧ f = { f₁ with name := some d.name } := by
  simp only [FieldData.make, bind, Except.bind, pure, Except.pure, throw, throwThe,
    MonadExceptOf.throw] at h
  -- the maker is found under the type's name or else under the prefixed one; from there on both
  -- ways go alike
  split at h
  on_goal 2 =>
    split at h
    on_goal 2 => cases h
  all_goals
    rename_i maker _
    split at h
    · cases h
    rename_i f₀ hf₀
    refine ⟨maker, f₀, ?_⟩
    cases hd : d.default with
    | none =>
      simp only [hd] at h
      cases h
      exact ⟨f₀, Except.eq_ok_of_mapError hf₀, rfl, rfl⟩
    | some v =>
      simp only [hd] at h
      split at h
      · cases h
      rename_i f₁ hf₁
      cases h
      exact ⟨f₁, Except.eq_ok_of_mapError hf₀, Except.eq_ok_of_mapError hf₁, rfl⟩

/-- A fold whose every step grows the block grows it. -/
theorem foldlM_grows {α β : Type} {step : Block × β → α → Except PlanError (Block × β)}
    (hstep : ∀ x a y, step x a = .ok y → x.1.Grows y.1) :
    ∀ (l : List α) (x y : Block × β), l.foldlM step x = .ok y → x.1.Grows y.1
  | [], x, y, h => by
    cases h
    exact Block.Grows.refl _
  | a :: l, x, y, h => by
    rw [List.foldlM_cons] at h
    rcases hx : step x a with e | x'
    · rw [hx] at h
      cases h
    · rw [hx] at h
      exact (hstep x a x' hx).trans (foldlM_grows hstep l x' y h)

/-- Adding a dummy adopts the input the registry makes for an unnamed dummy. -/
theorem addDummy_ok {r : Registry} {b b' : Block} {i : Nat} (h : addDummy r b = .ok (b', i)) :
    ∃ input, r.makeInput .dummy none none = .ok input ∧ b.adoptInput input = (b', i) := by
  unfold addDummy at h
  rcases hm : r.makeInput .dummy none none with e | input
  · simp [hm, Except.mapError] at h
  · simp only [hm, Except.mapError] at h
    refine ⟨input, rfl, ?_⟩
    cases h
    rfl

theorem addDummy_grows {r : Registry} {b b' : Block} {i : Nat} (h : addDummy r b = .ok (b', i)) :
    b.Grows b' := by
  obtain ⟨input, hm, heq⟩ := addDummy_ok h
  cases heq
  exact b.grows_adoptInput (Registry.makeInput_target hm)

/-- An input made from a plan's input holds no block. -/
theorem makeInput_mapError_target {r : Registry} {k : InputKind} {n : Option String}
    {c : Option (List String)} {i : Input}
    (h : (r.makeInput k n c).mapError PlanError.registry = .ok i) : i.target = none := by
  rcases hm : r.makeInput k n c with e | i'
  · simp [hm, Except.mapError] at h
  · simp only [hm, Except.mapError, Except.ok.injEq] at h
    subst h
    exact Registry.makeInput_target hm

/-- Extending a view over a scope grows the block by the scope's fields and inputs. -/
theorem Proto.extend_grows {r : Registry} {b b' : Block} {s : Scope} {parent p : Proto}
    (h : Proto.extend r b s parent = .ok (b', p)) : b.Grows b' := by
  unfold Proto.extend at h
  simp only [bind, Except.bind] at h
  split at h
  · cases h
  rename_i x hfields
  have h₁ : b.Grows x.1 := by
    refine foldlM_grows ?_ _ (b, parent.fields) _ hfields
    intro y a y' hy
    split at hy
    · cases hy
    · cases hy
      exact Block.grows_adoptField _ _
  split at h
  · cases h
  rename_i x' hinputs
  have h₂ : x.1.Grows x'.1 := by
    refine foldlM_grows ?_ _ (x.1, parent.inputs) _ hinputs
    intro y a y' hy
    split at hy
    · cases hy
    · rename_i hm
      cases hy
      exact Block.grows_adoptInput _ (makeInput_mapError_target hm)
  cases h
  exact h₁.trans h₂

/-- **What a layout does, step by step**, whatever the registry: a run of text adopts a label
that joins the waiting fields, a line break adopts a dummy input that takes them, and so does the
end of the message when something waits; a reference to an input of the view ends an entry with
the waiting fields, and one to a field joins them. A property of the block, the waiting fields and
the entries laid so far that each step keeps holds of the layout's result. -/
theorem layoutLine_invariant {r : Registry} {p : Proto} {leaf : String}
    (P : Block → List Nat → List LineEntry → Prop)
    (text : ∀ b buffer line s, P b buffer line →
      P (b.adoptField (Field.label s)).1 (buffer ++ [(b.adoptField (Field.label s)).2]) line)
    (dummy : ∀ b b' i buffer line, addDummy r b = .ok (b', i) → P b buffer line →
      P b' [] (line ++ [⟨i, buffer⟩]))
    (input : ∀ b n i buffer line, p.inputs.lookup n = some i → P b buffer line →
      P b [] (line ++ [⟨i, buffer⟩]))
    (field : ∀ b n f buffer line, p.fields.lookup n = some f → P b buffer line →
      P b (buffer ++ [f]) line) :
    ∀ {ts : List Message.Token} {b : Block} {buffer : List Nat} {line : List LineEntry}
      {b' : Block} {line' : List LineEntry},
      layoutLine r p leaf b ts buffer line = .ok (b', line') → P b buffer line → P b' [] line' := by
  intro ts
  induction ts with
  | nil =>
    intro b buffer line b' line' h hP
    simp only [layoutLine, bind, Except.bind] at h
    split at h
    · -- nothing waits: the layout ends here
      rename_i hb
      cases h
      rwa [List.isEmpty_iff.mp hb] at hP
    · split at h
      · cases h
      · rename_i x hd
        obtain ⟨b₁, i⟩ := x
        cases h
        exact dummy b b₁ i buffer line hd hP
  | cons t ts ih =>
    intro b buffer line b' line' h hP
    cases t with
    | text s =>
      simp only [layoutLine] at h
      exact ih h (text b buffer line s hP)
    | newline =>
      simp only [layoutLine, bind, Except.bind] at h
      split at h
      · cases h
      · rename_i x hd
        obtain ⟨b₁, i⟩ := x
        exact ih h (dummy b b₁ i buffer line hd hP)
    | param n =>
      simp only [layoutLine] at h
      split at h
      · rename_i i hi
        exact ih h (input b n i buffer line hi hP)
      · split at h
        · rename_i f hf
          exact ih h (field b n f buffer line hf hP)
        · cases h

/-- Laying a leaf's message out grows the block by labels and dummy inputs. -/
theorem layoutLine_grows {r : Registry} {p : Proto} {leaf : String} :
    ∀ (b : Block) (ts : List Message.Token) (buffer : List Nat) (line : List LineEntry)
      {b' : Block} {line' : List LineEntry},
      layoutLine r p leaf b ts buffer line = .ok (b', line') → b.Grows b' := by
  intro b ts buffer line b' line' h
  -- every step grows the block the layout started from
  exact layoutLine_invariant (fun b₁ _ _ => b.Grows b₁)
    (fun b₁ _ _ _ hg => hg.trans (b₁.grows_adoptField _))
    (fun _ _ _ _ _ hd hg => hg.trans (addDummy_grows hd)) (fun _ _ _ _ _ _ hg => hg)
    (fun _ _ _ _ _ _ hg => hg) h (Block.Grows.refl b)

namespace VariantPlan

section Inversion

variable {r : Registry} {parent : Proto} {b b' : Block}

/-- Making a leaf: its view over the parent's, then its message laid out with that view. -/
theorem construct_leaf_ok {s : Scope} {message : String} {v : Variant}
    (h : (VariantPlan.leaf s message).construct r parent b = .ok (b', v)) :
    ∃ b₁ p line, Proto.extend r b s parent = .ok (b₁, p) ∧
      layoutLine r p s.name b₁ (Message.tokenize message) [] [] = .ok (b', line) ∧
      v = .leaf ⟨s.name, line, p.output, p.generator⟩ := by
  simp only [construct, bind, Except.bind] at h
  split at h
  · cases h
  rename_i y hext
  obtain ⟨b₁, p⟩ := y
  split at h
  · cases h
  rename_i z hline
  obtain ⟨b₂, line⟩ := z
  cases h
  exact ⟨b₁, p, line, hext, hline, rfl⟩

/-- Making a branch: its view over the parent's, the branch's dropdown found in that view under
the branch's name, then its children below the view, the first one current. -/
theorem construct_branch_ok {s : Scope} {cs : List VariantPlan} {v : Variant}
    (h : (VariantPlan.branch s cs).construct r parent b = .ok (b', v)) :
    ∃ b₁ p d vs, Proto.extend r b s parent = .ok (b₁, p) ∧ p.fields.lookup s.name = some d ∧
      constructAll r p b₁ cs = .ok (b', vs) ∧ v = .branch s.name d 0 vs := by
  simp only [construct, bind, Except.bind] at h
  split at h
  · cases h
  rename_i y hext
  obtain ⟨b₁, p⟩ := y
  split at h
  · rename_i d hd
    simp only [pure, Except.pure] at h
    split at h
    · cases h
    rename_i z hall
    obtain ⟨b₂, vs⟩ := z
    cases h
    exact ⟨b₁, p, d, vs, hext, hd, hall, rfl⟩
  · -- a branch whose dropdown is not in its view is refused
    simp [throw, throwThe, MonadExceptOf.throw] at h

/-- Making a list of plans: the first one, then the rest on the block it left. -/
theorem constructAll_cons_ok {c : VariantPlan} {cs : List VariantPlan} {vs : List Variant}
    (h : constructAll r parent b (c :: cs) = .ok (b', vs)) :
    ∃ b₁ x xs, c.construct r parent b = .ok (b₁, x) ∧ constructAll r parent b₁ cs = .ok (b', xs) ∧
      vs = x :: xs := by
  simp only [constructAll, bind, Except.bind] at h
  split at h
  · cases h
  rename_i y hc
  obtain ⟨b₁, x⟩ := y
  split at h
  · cases h
  rename_i z hcs
  obtain ⟨b₂, xs⟩ := z
  cases h
  exact ⟨b₁, x, xs, hc, hcs, rfl⟩

end Inversion

mutual
/-- Making a variant tree grows the block by the inputs and fields of its nodes. -/
theorem construct_grows {r : Registry} {parent : Proto} :
    ∀ (v : VariantPlan) {b b' : Block} {x : Variant},
      v.construct r parent b = .ok (b', x) → b.Grows b'
  | .leaf s message, b, b', x, h => by
    obtain ⟨b₁, p, line, hext, hlay, -⟩ := construct_leaf_ok h
    exact (Proto.extend_grows hext).trans (layoutLine_grows _ _ _ _ hlay)
  | .branch s children, b, b', x, h => by
    obtain ⟨b₁, p, d, vs, hext, -, hall, -⟩ := construct_branch_ok h
    exact (Proto.extend_grows hext).trans (constructAll_grows children hall)

theorem constructAll_grows {r : Registry} {parent : Proto} :
    ∀ (vs : List VariantPlan) {b b' : Block} {xs : List Variant},
      constructAll r parent b vs = .ok (b', xs) → b.Grows b'
  | [], b, b', xs, h => by
    cases h
    exact Block.Grows.refl b
  | v :: vs, b, b', xs, h => by
    obtain ⟨b₁, x, xs', hv, hvs, -⟩ := constructAll_cons_ok h
    exact (construct_grows v hv).trans (constructAll_grows vs hvs)
end

end VariantPlan

/-! ### Laying a block out -/

namespace Connection

variable (n : Option Connection) (e : Bool) (c c' : Option (List String))

@[simp] theorem toggle_isSome : (toggle n e c).isSome = e := by
  cases e <;> rfl

@[simp] theorem toggle_target : (toggle n e c).bind (·.target) = if e then n.bind (·.target) else none := by
  cases e <;> cases n <;> rfl

theorem toggle_toggle : toggle (toggle n e c) e c' = toggle n e c' := by
  cases e <;> rfl

end Connection

namespace Block

/-- `b'` is `b` laid out again for a type of kind `k`, or left alone: it keeps `b`'s id, type,
parent and what its inputs hold, and its next connection is kept, or turned on or off by `k` with
what it held. -/
structure Relaid (k : BlockKind) (b b' : Block) : Prop where
  id : b'.id = b.id
  typeName : b'.typeName = b.typeName
  parent : b'.parent = b.parent
  arenaTargets : b'.arenaTargets = b.arenaTargets
  next : b'.next = b.next ∨ ∃ c, b'.next = Connection.toggle b.next (k != .value) c

namespace Relaid

variable {k : BlockKind} {b b' b'' : Block}

@[refl] theorem refl (k : BlockKind) (b : Block) : b.Relaid k b :=
  ⟨rfl, rfl, rfl, rfl, Or.inl rfl⟩

@[trans] theorem trans (h₁ : b.Relaid k b') (h₂ : b'.Relaid k b'') : b.Relaid k b'' := by
  refine ⟨h₂.id.trans h₁.id, h₂.typeName.trans h₁.typeName, h₂.parent.trans h₁.parent,
    h₂.arenaTargets.trans h₁.arenaTargets, ?_⟩
  rcases h₂.next with h₂n | ⟨c', h₂n⟩
  · rw [h₂n]
    exact h₁.next
  · -- a second toggle by the same kind overrides the first
    rcases h₁.next with h₁n | ⟨c, h₁n⟩
    · exact Or.inr ⟨c', by rw [h₂n, h₁n]⟩
    · exact Or.inr ⟨c', by rw [h₂n, h₁n, Connection.toggle_toggle]⟩

/-- A layout keeps the sockets unless it drops a next connection that a `value` kind has none of. -/
theorem sockets (h : b.Relaid k b') (hk : k = .value → b.next = none) : b'.sockets = b.sockets := by
  unfold Block.sockets
  rw [h.arenaTargets]
  rcases h.next with hn | ⟨c, hn⟩
  · rw [hn]
  · rw [hn, Connection.toggle_target]
    cases k with
    | value => simp [hk rfl]
    | statement => rfl
    | valueAndStatement => rfl

/-- Whatever the kind, a layout adds no socket: it can only drop the next connection. -/
theorem sockets_sublist (h : b.Relaid k b') : b'.sockets.Sublist b.sockets := by
  unfold Block.sockets
  rw [h.arenaTargets]
  refine List.Sublist.append_right ?_ _
  rcases h.next with hn | ⟨c, hn⟩
  · rw [hn]
  · rw [hn, Connection.toggle_target]
    split
    · exact List.Sublist.refl _
    · exact List.nil_sublist _

/-- A next connection after a layout was there before, or the kind has one. -/
theorem next_isSome (h : b.Relaid k b') (hn : b'.next.isSome) : b.next.isSome ∨ k ≠ .value := by
  rcases h.next with h' | ⟨c, h'⟩
  · rw [h'] at hn
    exact Or.inl hn
  · rw [h', Connection.toggle_isSome] at hn
    refine Or.inr fun hv => ?_
    subst hv
    cases hn

end Relaid

/-- `b'` keeps everything the links read of `b`, its next connection included. -/
structure SameLinks (b b' : Block) : Prop where
  id : b'.id = b.id
  typeName : b'.typeName = b.typeName
  parent : b'.parent = b.parent
  next : b'.next = b.next
  arenaTargets : b'.arenaTargets = b.arenaTargets

theorem SameLinks.relaid {b b' : Block} (h : b.SameLinks b') (k : BlockKind) : b.Relaid k b' :=
  ⟨h.id, h.typeName, h.parent, h.arenaTargets, Or.inl h.next⟩

theorem SameLinks.sockets {b b' : Block} (h : b.SameLinks b') : b'.sockets = b.sockets := by
  simp only [Block.sockets, h.next, h.arenaTargets]

theorem Grows.relaid {b b' : Block} (h : b.Grows b') (k : BlockKind) : b.Relaid k b' :=
  ⟨h.id_eq, h.typeName_eq, h.parent_eq, h.arenaTargets_eq, Or.inl h.next_eq⟩

end Block

/-- Changing entries of a list in a way `g` does not see leaves what `g` keeps alone. -/
theorem filterMap_modify_of_comp {α β : Type} {f : α → α} {g : α → Option β}
    (hf : ∀ a, g (f a) = g a) : ∀ (l : List α) (i : Nat), (l.modify i f).filterMap g = l.filterMap g
  | [], _ => by simp
  | a :: l, 0 => by rw [List.modify_zero_cons, List.filterMap_cons, List.filterMap_cons, hf]
  | a :: l, i + 1 => by
    rw [List.modify_succ_cons, List.filterMap_cons, List.filterMap_cons,
      filterMap_modify_of_comp hf l i]

namespace Block

variable (k : BlockKind) (b : Block)

theorem relaid_modifyInput (i : Nat) {f : Input → Input} (hf : ∀ x, (f x).target = x.target) :
    b.Relaid k (b.modifyInput i f) := by
  refine ⟨rfl, rfl, rfl, ?_, Or.inl rfl⟩
  simp only [arenaTargets, modifyInput, Array.toList_modify]
  exact filterMap_modify_of_comp hf _ _

theorem relaid_modifyField (i : Nat) (f : Field → Field) : b.Relaid k (b.modifyField i f) :=
  ⟨rfl, rfl, rfl, rfl, Or.inl rfl⟩

/-- What every entry of a layout keeps, the whole layout keeps. -/
theorem layOut_induct (P : Block → Prop) (line : List LineEntry) (hstart : P { b with line := [] })
    (hstep : ∀ b₀ (e : LineEntry), P b₀ →
      P { (b₀.modifyInput e.input fun i => { i with fieldRow := e.fields }) with
            line := b₀.line ++ [e.input] }) :
    P (b.layOut line) := by
  unfold layOut
  suffices h : ∀ (l : List LineEntry) (b₀ : Block), P b₀ →
      P (l.foldl (fun b e => { (b.modifyInput e.input fun i => { i with fieldRow := e.fields }) with
        line := b.line ++ [e.input] }) b₀) from h line _ hstart
  intro l
  induction l with
  | nil => exact fun _ h => h
  | cons e l ih => exact fun b₀ h => ih _ (hstep b₀ e h)

/-- A layout writes field rows and the line, nothing the links read. -/
theorem relaid_layOut (line : List LineEntry) : b.Relaid k (b.layOut line) :=
  b.layOut_induct (b.Relaid k) line ⟨rfl, rfl, rfl, rfl, Or.inl rfl⟩ fun b₀ e h =>
    h.trans ((relaid_modifyInput k b₀ e.input (f := fun i => { i with fieldRow := e.fields })
      fun _ => rfl).trans ⟨rfl, rfl, rfl, rfl, Or.inl rfl⟩)

theorem layOut_next (line : List LineEntry) : (b.layOut line).next = b.next :=
  b.layOut_induct (·.next = b.next) line rfl fun _ _ h => h

end Block

namespace BlockPlan

/-- A layout turns the next connection on or off by the plan's kind. -/
theorem configure_relaid (p : BlockPlan) (b : Block) (leaf : Leaf) :
    b.Relaid p.kind (p.configure b leaf) := by
  have hl := b.relaid_layOut p.kind leaf.line
  refine ⟨hl.id, hl.typeName, hl.parent, hl.arenaTargets, Or.inr ?_⟩
  cases hk : p.kind with
  | value => exact ⟨none, by simp [configure, hk]; rfl⟩
  | statement =>
    exact ⟨leaf.output.bind (·.types), by simp [configure, hk, Block.layOut_next]; rfl⟩
  | valueAndStatement => exact ⟨none, by simp [configure, hk, Block.layOut_next]; rfl⟩

end BlockPlan

namespace BlockPlan

variable {p : BlockPlan} {b b' : Block}

/-- Setting a block up grows it by the variants' inputs and fields and lays it out. -/
theorem setUp_relaid {r : Registry} (h : p.setUp r b = .ok b') : b.Relaid p.kind b' := by
  simp only [setUp, bind, Except.bind] at h
  split at h
  · cases h
  rename_i y hcons
  obtain ⟨b₁, v⟩ := y
  cases h
  have h₁ := (VariantPlan.construct_grows _ hcons).relaid p.kind
  -- the looks set first and the variant tree stored last are nothing the links read
  split
  · rename_i leaf _
    refine Block.Relaid.trans ?_ (h₁.trans ((p.configure_relaid b₁ leaf).trans ?_))
    · exact ⟨rfl, rfl, rfl, rfl, Or.inl rfl⟩
    · exact ⟨rfl, rfl, rfl, rfl, Or.inl rfl⟩
  · refine Block.Relaid.trans ?_ (h₁.trans ?_)
    · exact ⟨rfl, rfl, rfl, rfl, Or.inl rfl⟩
    · exact ⟨rfl, rfl, rfl, rfl, Or.inl rfl⟩

/-- What a successful selection does: the tree selects `c` in `br`, the branch's dropdown is set
to `c` when the block has it, the block is laid out from the new active leaf when there is one,
and the new tree is stored. -/
theorem selectVariant_cases {br c : String} (h : p.selectVariant b br c = .ok b') :
    ∃ v v' d b₁, b.variants = some v ∧ v.select br c = some (.ok (v', d)) ∧
      ((b.field? d = none ∧ b₁ = b) ∨
        ∃ f f', b.field? d = some f ∧ f.setValue (.str c) = .ok f' ∧
          b₁ = b.modifyField d fun _ => f') ∧
      ((v'.activeLeaf? = none ∧ b' = { b₁ with variants := some v' }) ∨
        ∃ leaf, v'.activeLeaf? = some leaf ∧
          b' = { p.configure b₁ leaf with variants := some v' }) := by
  unfold selectVariant at h
  rcases hv : b.variants with _ | v
  · simp [hv, bind, Except.bind, throw, throwThe, MonadExceptOf.throw] at h
  rcases hs : v.select br c with _ | (e | ⟨v', d⟩)
  · simp [hv, hs, bind, Except.bind, pure, Except.pure, throw, throwThe,
      MonadExceptOf.throw] at h
  · simp [hv, hs, bind, Except.bind, pure, Except.pure, throw, throwThe,
      MonadExceptOf.throw] at h
  -- a block without the dropdown is laid out as it is
  rcases hf : b.field? d with _ | f
  · refine ⟨v, v', d, b, rfl, hs, Or.inl ⟨hf, rfl⟩, ?_⟩
    rcases hl : v'.activeLeaf? with _ | leaf
    · simp only [hv, hs, hf, hl, bind, Except.bind, pure, Except.pure, Except.ok.injEq] at h
      exact Or.inl ⟨rfl, h.symm⟩
    · simp only [hv, hs, hf, hl, bind, Except.bind, pure, Except.pure, Except.ok.injEq] at h
      exact Or.inr ⟨leaf, rfl, h.symm⟩
  rcases hset : f.setValue (.str c) with e | f'
  · simp [hv, hs, hf, hset, bind, Except.bind, pure, Except.pure] at h
  refine ⟨v, v', d, b.modifyField d fun _ => f', rfl, hs, Or.inr ⟨f, f', hf, hset, rfl⟩, ?_⟩
  rcases hl : v'.activeLeaf? with _ | leaf
  · simp only [hv, hs, hf, hset, hl, bind, Except.bind, pure, Except.pure, Except.ok.injEq] at h
    exact Or.inl ⟨rfl, h.symm⟩
  · simp only [hv, hs, hf, hset, hl, bind, Except.bind, pure, Except.pure, Except.ok.injEq] at h
    exact Or.inr ⟨leaf, rfl, h.symm⟩

/-- What a reaction to a changed field does: nothing, or select the variant that the visible
field of the branch's name shows. -/
theorem fieldChanged_cases {n : String} (h : p.fieldChanged b n = .ok b') :
    b' = b ∨ ∃ c, p.selectVariant b n c = .ok b' := by
  unfold fieldChanged at h
  split at h
  · split at h
    · split at h
      · exact Or.inr ⟨_, h⟩
      · cases h
        exact Or.inl rfl
    · cases h
      exact Or.inl rfl
  · cases h
    exact Or.inl rfl

section Reacting

/- A relation between a block and a later state of it that each step of a reaction to a changed
field keeps: setting a field, laying the block out for a leaf and storing a variant tree. -/
variable (R : Block → Block → Prop) (hrefl : ∀ b, R b b)
  (htrans : ∀ {b₁ b₂ b₃ : Block}, R b₁ b₂ → R b₂ b₃ → R b₁ b₃)
  (hfield : ∀ (b : Block) i f, R b (b.modifyField i f))
  (hconf : ∀ b leaf, R b (p.configure b leaf))
  (hvar : ∀ (b : Block) v, R b { b with variants := v })
include hrefl htrans hfield hconf hvar

/-- Selecting a variant relates the block to its result by every relation its steps keep. -/
theorem selectVariant_induct {branch choice : String}
    (h : p.selectVariant b branch choice = .ok b') : R b b' := by
  obtain ⟨v, v', d, b₁, -, -, hset, hb'⟩ := selectVariant_cases h
  -- the branch's dropdown is set first
  have h₁ : R b b₁ := by
    rcases hset with ⟨-, rfl⟩ | ⟨f, f', -, -, rfl⟩
    · exact hrefl _
    · exact hfield _ d _
  rcases hb' with ⟨-, rfl⟩ | ⟨leaf, -, rfl⟩
  · exact htrans h₁ (hvar _ _)
  · exact htrans h₁ (htrans (hconf b₁ leaf) (hvar _ _))

/-- Reacting to a changed field relates the block to its result by every relation the steps of a
selection keep. -/
theorem fieldChanged_induct {name : String} (h : p.fieldChanged b name = .ok b') : R b b' := by
  rcases fieldChanged_cases h with rfl | ⟨c, hc⟩
  · exact hrefl _
  · exact selectVariant_induct R hrefl htrans hfield hconf hvar hc

end Reacting

/-- Selecting a variant sets a dropdown and lays the block out. -/
theorem selectVariant_relaid {branch choice : String} (h : p.selectVariant b branch choice = .ok b') :
    b.Relaid p.kind b' :=
  selectVariant_induct (Block.Relaid p.kind) (Block.Relaid.refl p.kind) Block.Relaid.trans
    (Block.relaid_modifyField p.kind) p.configure_relaid
    (fun _ _ => ⟨rfl, rfl, rfl, rfl, Or.inl rfl⟩) h

/-- Reacting to a changed field selects a variant or changes nothing. -/
theorem fieldChanged_relaid {name : String} (h : p.fieldChanged b name = .ok b') :
    b.Relaid p.kind b' :=
  fieldChanged_induct (Block.Relaid p.kind) (Block.Relaid.refl p.kind) Block.Relaid.trans
    (Block.relaid_modifyField p.kind) p.configure_relaid
    (fun _ _ => ⟨rfl, rfl, rfl, rfl, Or.inl rfl⟩) h

end BlockPlan

end Blockwork
