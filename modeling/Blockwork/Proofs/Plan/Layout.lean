import Blockwork.Proofs.Plan.Names

/-!
# Laying a message out into a line

A leaf's message becomes the leaf's line token by token (`layoutLine`). Fields exist only on
inputs, so a run of text, which becomes a new label field, and a reference to a field wait in a
buffer until an input ends the entry: a reference to an input, a line break, which adds a new
dummy input, or the end of the message, which adds one only when something waits. A reference
reads the view's inputs first and then its fields; one that names neither fails the layout.

Read off item by item, each entry showing its fields and then its input (`LineEntry.items`), a
layout shows the message's tokens in order, each as what it became (`Shows`), and after them one
more dummy exactly when a run of text or a field reference comes after the last line break or
input reference (`Trailing`). The labels and dummies it adds are new and all different
(`layoutLine_laid`, `layout_realizes_message`). With the built-in registry, a layout fails only on
a reference to a name the view does not know (`layoutLine_isOk_iff`).

Putting a leaf's line on a block (`BlockPlan.configure`) lists the line's inputs in order and
writes each entry's fields into its input's row. An input has one row, so the last entry naming
an input decides the row it shows (`configure_shows_line`): a message that names one input twice
shows, at both places, the fields of the second (`repeated_input_hides_row`).
-/

namespace Blockwork

open Message (Token)

/-- One thing a line shows: a field, or the input an entry ends with. -/
inductive LineItem (α : Type) where
  | field (x : α)
  | input (x : α)
  deriving DecidableEq

/-- What an entry shows, in order: its fields, then its input. -/
def LineEntry.items (e : LineEntry) : List (LineItem Nat) :=
  e.fields.map .field ++ [.input e.input]

/-- A field or input the block `b` did not have yet. -/
def LineItem.NewIn (b : Block) : LineItem Nat → Prop
  | .field f => b.fieldArena.size ≤ f
  | .input i => b.inputArena.size ≤ i

namespace Proto

/-- What a view shows for a name: its input, else its field. -/
def resolve (p : Proto) (n : String) : Option (LineItem Nat) :=
  match p.inputs.lookup n with
  | some i => some (.input i)
  | none => (p.fields.lookup n).map .field

/-- Whether a token ends an entry of the line: a line break, or a reference to an input. -/
def closes (p : Proto) : Token → Bool
  | .newline => true
  | .param n => (p.inputs.lookup n).isSome
  | .text _ => false

end Proto

/-- `Shows p b b' t x`: laid out from the view `p` while the block grew from `b` to `b'`, the
token `t` became the item `x`: a run of text a new label holding the text, a line break a new
dummy input, a reference what the view shows for the name. -/
def Shows (p : Proto) (b b' : Block) : Token → LineItem Nat → Prop
  | .text s, .field f => b.fieldArena.size ≤ f ∧ b'.field? f = some (Field.label s)
  | .newline, .input i => b.inputArena.size ≤ i ∧ b'.input? i = some (Input.ofKind none .dummy)
  | .param n, x => p.resolve n = some x
  | _, _ => False

/-- Some run of text or field reference comes after the last line break or input reference. -/
def Trailing (p : Proto) (ts : List Token) : Prop :=
  ∃ pre t post, ts = pre ++ t :: post ∧ p.closes t = false ∧ ∀ u ∈ post, p.closes u = false

/-- The items a layout made for the runs of text and the line breaks of `ts`, in order. -/
def madeItems : List Token → List (LineItem Nat) → List (LineItem Nat)
  | .text _ :: ts, x :: xs => x :: madeItems ts xs
  | .newline :: ts, x :: xs => x :: madeItems ts xs
  | .param _ :: ts, _ :: xs => madeItems ts xs
  | _, _ => []

/-- What laying the tokens `ts` out from the view `p` made while the block grew from `b` to
`b'`: each token became its item of `shown`, `extra` is the trailing dummy if there is one, and
every label and dummy made is new and made once. -/
structure Laid (p : Proto) (b b' : Block) (ts : List Token) (shown extra : List (LineItem Nat)) :
    Prop where
  tokens : List.Forall₂ (Shows p b b') ts shown
  dummy : ∃ ds : List Nat, extra = ds.map .input ∧ ds.length ≤ 1 ∧
    ∀ i ∈ ds, b.inputArena.size ≤ i ∧ b'.input? i = some (Input.ofKind none .dummy)
  fresh : (madeItems ts shown ++ extra).Nodup
  new : ∀ x ∈ madeItems ts shown ++ extra, x.NewIn b

/-! ### Small facts -/

theorem Block.input?_adoptInput (b : Block) (i : Input) :
    (b.adoptInput i).1.input? (b.adoptInput i).2 = some i := by
  simp [Block.adoptInput, Block.input?]

/-- The built-in registry makes the plain dummy input. -/
theorem addDummy_builtin (b : Block) :
    addDummy Registry.builtin b = .ok (b.adoptInput (Input.ofKind none .dummy)) :=
  rfl

theorem Proto.resolve_isSome_iff {p : Proto} {n : String} :
    (p.resolve n).isSome ↔ n ∈ p.inputs.map (·.1) ∨ n ∈ p.fields.map (·.1) := by
  rw [← VariantPlan.lookup_isSome_iff_mem, ← VariantPlan.lookup_isSome_iff_mem]
  unfold Proto.resolve
  split
  · rename_i i hi
    simp [hi]
  · rename_i hi
    simp [hi]

/-- A token after the last end of an entry, read from the front. -/
theorem trailing_cons {p : Proto} {t : Token} {ts : List Token} :
    Trailing p (t :: ts) ↔ (p.closes t = false ∧ ∀ u ∈ ts, p.closes u = false) ∨ Trailing p ts := by
  constructor
  · rintro ⟨pre, u, post, heq, hu, hpost⟩
    cases pre with
    | nil =>
      rw [List.nil_append, List.cons.injEq] at heq
      obtain ⟨rfl, rfl⟩ := heq
      exact Or.inl ⟨hu, hpost⟩
    | cons v pre =>
      rw [List.cons_append, List.cons.injEq] at heq
      exact Or.inr ⟨pre, u, post, heq.2, hu, hpost⟩
  · rintro (⟨ht, hts⟩ | ⟨pre, u, post, rfl, hu, hpost⟩)
    · exact ⟨[], t, ts, rfl, ht, hts⟩
    · exact ⟨t :: pre, u, post, rfl, hu, hpost⟩

theorem not_trailing_nil {p : Proto} : ¬ Trailing p [] := by
  rintro ⟨pre, t, post, heq, -, -⟩
  cases pre <;> cases heq

/-- What the layout showed for a token stays shown as the block grows. -/
theorem Shows.grow {p : Proto} {b b₁ b' : Block} {t : Token} {x : LineItem Nat}
    (h : Shows p b₁ b' t x) (hf : b.fieldArena.size ≤ b₁.fieldArena.size)
    (hi : b.inputArena.size ≤ b₁.inputArena.size) : Shows p b b' t x := by
  -- only the bounds of new labels and dummies mention the block the layout started from
  cases t with
  | text s =>
    cases x with
    | field f => exact ⟨Nat.le_trans hf h.1, h.2⟩
    | input i => cases h
  | newline =>
    cases x with
    | field f => cases h
    | input i => exact ⟨Nat.le_trans hi h.1, h.2⟩
  | param n => exact h

theorem LineItem.NewIn.mono {b b₁ : Block} {x : LineItem Nat} (h : x.NewIn b₁)
    (hf : b.fieldArena.size ≤ b₁.fieldArena.size) (hi : b.inputArena.size ≤ b₁.inputArena.size) :
    x.NewIn b := by
  cases x <;> simp only [LineItem.NewIn] at h ⊢ <;> omega

namespace Laid

variable {p : Proto} {b b₁ b' : Block} {ts : List Token} {shown extra : List (LineItem Nat)}

theorem nil (b : Block) : Laid p b b [] [] [] :=
  ⟨.nil, ⟨[], rfl, by simp, by simp⟩, List.nodup_nil, fun _ h => by cases h⟩

/-- A layout that ends by adding the trailing dummy. -/
theorem trailing (h : b'.input? b.inputArena.size = some (Input.ofKind none .dummy)) :
    Laid p b b' [] [] [.input b.inputArena.size] :=
  ⟨.nil, ⟨[b.inputArena.size], rfl, by simp, by simp [h]⟩, List.nodup_singleton _,
    fun x hx => by rw [List.mem_singleton.mp hx]; exact Nat.le_refl _⟩

/-- A token that made the new item `x`, in front of a layout that went on from the block `b₁`,
which holds `x`. -/
theorem cons_made {t : Token} {x : LineItem Nat} (h : Laid p b₁ b' ts shown extra)
    (hmade : ∀ xs, madeItems (t :: ts) (x :: xs) = x :: madeItems ts xs)
    (hshow : Shows p b b' t x) (hx : x.NewIn b) (hx₁ : ¬ x.NewIn b₁)
    (hf : b.fieldArena.size ≤ b₁.fieldArena.size) (hi : b.inputArena.size ≤ b₁.inputArena.size) :
    Laid p b b' (t :: ts) (x :: shown) extra := by
  obtain ⟨htok, ⟨ds, hds, hlen, hdum⟩, hfresh, hnew⟩ := h
  refine ⟨.cons hshow (htok.imp fun _ _ hs => hs.grow hf hi),
    ⟨ds, hds, hlen, fun i hd => ⟨Nat.le_trans hi (hdum i hd).1, (hdum i hd).2⟩⟩, ?_, ?_⟩
  · -- `x` is new to `b` but not to `b₁`, which every later item is new to
    rw [hmade, List.cons_append, List.nodup_cons]
    exact ⟨fun hmem => hx₁ (hnew x hmem), hfresh⟩
  · rw [hmade, List.cons_append]
    intro y hy
    rcases List.mem_cons.mp hy with rfl | hy
    · exact hx
    · exact (hnew y hy).mono hf hi

/-- A reference, shown as what the view shows for its name. -/
theorem cons_param {n : String} {x : LineItem Nat} (hshow : p.resolve n = some x)
    (h : Laid p b b' ts shown extra) : Laid p b b' (.param n :: ts) (x :: shown) extra :=
  ⟨.cons hshow h.tokens, h.dummy, h.fresh, h.new⟩

end Laid

/-! ### One token at a time -/

section Steps

variable {r : Registry} {p : Proto} {leaf : String} {b : Block} {ts : List Token}
  {buffer : List Nat} {line : List LineEntry}

theorem layoutLine_end_empty : layoutLine r p leaf b [] [] line = .ok (b, line) :=
  rfl

theorem layoutLine_end_buffer (h : buffer ≠ []) :
    layoutLine Registry.builtin p leaf b [] buffer line =
      .ok ((b.adoptInput (Input.ofKind none .dummy)).1, line ++ [⟨b.inputArena.size, buffer⟩]) := by
  simp only [layoutLine, List.isEmpty_iff, h, if_false, addDummy_builtin]
  rfl

theorem layoutLine_text (s : String) :
    layoutLine r p leaf b (.text s :: ts) buffer line =
      layoutLine r p leaf (b.adoptField (Field.label s)).1 ts (buffer ++ [b.fieldArena.size]) line :=
  rfl

theorem layoutLine_newline :
    layoutLine Registry.builtin p leaf b (.newline :: ts) buffer line =
      layoutLine Registry.builtin p leaf (b.adoptInput (Input.ofKind none .dummy)).1 ts []
        (line ++ [⟨b.inputArena.size, buffer⟩]) :=
  rfl

theorem layoutLine_input {n : String} {i : Nat} (h : p.inputs.lookup n = some i) :
    layoutLine r p leaf b (.param n :: ts) buffer line =
      layoutLine r p leaf b ts [] (line ++ [⟨i, buffer⟩]) := by
  simp only [layoutLine, h]

theorem layoutLine_field {n : String} {f : Nat} (hi : p.inputs.lookup n = none)
    (hf : p.fields.lookup n = some f) :
    layoutLine r p leaf b (.param n :: ts) buffer line =
      layoutLine r p leaf b ts (buffer ++ [f]) line := by
  simp only [layoutLine, hi, hf]

theorem layoutLine_unknown {n : String} (hi : p.inputs.lookup n = none)
    (hf : p.fields.lookup n = none) :
    layoutLine r p leaf b (.param n :: ts) buffer line = .error (.unknownParameter leaf n) := by
  simp only [layoutLine, hi, hf]
  rfl

end Steps

/-! ### What a layout shows -/

/-- **A layout fails only on an unknown name**: with the built-in registry, laying tokens out
succeeds exactly when the view shows something for every name they reference. -/
theorem layoutLine_isOk_iff {p : Proto} {leaf : String} :
    ∀ (ts : List Token) (b : Block) (buffer : List Nat) (line : List LineEntry),
      (∃ res, layoutLine Registry.builtin p leaf b ts buffer line = .ok res) ↔
        ∀ n, .param n ∈ ts → (p.resolve n).isSome
  | [], b, buffer, line => by
    refine ⟨fun _ n hn => (by cases hn), fun _ => ?_⟩
    by_cases h : buffer = []
    · subst h
      exact ⟨_, layoutLine_end_empty⟩
    · exact ⟨_, layoutLine_end_buffer h⟩
  | .text s :: ts, b, buffer, line => by
    rw [layoutLine_text, layoutLine_isOk_iff ts]
    simp
  | .newline :: ts, b, buffer, line => by
    rw [layoutLine_newline, layoutLine_isOk_iff ts]
    simp
  | .param n :: ts, b, buffer, line => by
    rcases hi : p.inputs.lookup n with _ | i
    · rcases hf : p.fields.lookup n with _ | f
      · -- the name itself is unknown
        rw [layoutLine_unknown hi hf]
        refine ⟨fun ⟨_, h⟩ => (by cases h), fun h => ?_⟩
        have := h n List.mem_cons_self
        simp [Proto.resolve, hi, hf] at this
      · rw [layoutLine_field hi hf, layoutLine_isOk_iff ts]
        simp [Proto.resolve, hi, hf]
    · rw [layoutLine_input hi, layoutLine_isOk_iff ts]
      simp [Proto.resolve, hi]

/-- **What a layout shows**, with what waits in the buffer and the entries already laid: the
entries it adds show the buffer, then each token as what it became, then the trailing dummy if
something still waits at the end. -/
theorem layoutLine_laid {p : Proto} {leaf : String} :
    ∀ (ts : List Token) (b : Block) (buffer : List Nat) (line : List LineEntry) {b' : Block}
      {line' : List LineEntry},
      layoutLine Registry.builtin p leaf b ts buffer line = .ok (b', line') →
      ∃ shown extra,
        line'.flatMap LineEntry.items =
          line.flatMap LineEntry.items ++ buffer.map .field ++ shown ++ extra ∧
        (extra ≠ [] ↔ (buffer ≠ [] ∧ ∀ u ∈ ts, p.closes u = false) ∨ Trailing p ts) ∧
        line'.length = line.length + ts.countP p.closes + extra.length ∧
        Laid p b b' ts shown extra
  | [], b, buffer, line, b', line', h => by
    by_cases hb : buffer = []
    · subst hb
      rw [layoutLine_end_empty] at h
      cases h
      exact ⟨[], [], by simp, by simp [not_trailing_nil], by simp, Laid.nil b⟩
    · -- the buffer still waits: the trailing dummy takes it
      rw [layoutLine_end_buffer hb] at h
      cases h
      refine ⟨[], [.input b.inputArena.size], by simp [LineEntry.items], by simp [hb],
        by simp, Laid.trailing (Block.input?_adoptInput b _)⟩
  | .text s :: ts, b, buffer, line, b', line', h => by
    rw [layoutLine_text] at h
    obtain ⟨shown, extra, hitems, htrail, hlen, hlaid⟩ := layoutLine_laid ts _ _ _ h
    have hgrow := layoutLine_grows _ _ _ _ h
    refine ⟨.field b.fieldArena.size :: shown, extra, by simp [hitems], ?_, ?_, ?_⟩
    · rw [htrail, trailing_cons]
      simp only [Proto.closes, List.mem_cons, forall_eq_or_imp, true_and, ne_eq,
        List.append_eq_nil_iff, List.cons_ne_self, and_false, not_false_eq_true]
      tauto
    · simp [hlen, Proto.closes]
    · refine hlaid.cons_made (fun _ => rfl) ⟨Nat.le_refl _, hgrow.field? (b.field?_adoptField _)⟩
        (Nat.le_refl _) (by simp [LineItem.NewIn, Block.adoptField])
        (by simp [Block.adoptField]) (Nat.le_refl _)
  | .newline :: ts, b, buffer, line, b', line', h => by
    rw [layoutLine_newline] at h
    obtain ⟨shown, extra, hitems, htrail, hlen, hlaid⟩ := layoutLine_laid ts _ _ _ h
    have hgrow := layoutLine_grows _ _ _ _ h
    refine ⟨.input b.inputArena.size :: shown, extra, by simp [hitems, LineEntry.items], ?_, ?_,
      ?_⟩
    · rw [htrail, trailing_cons]
      simp [Proto.closes]
    · simp [hlen, List.countP_cons, Proto.closes]
      omega
    · refine hlaid.cons_made (fun _ => rfl) ⟨Nat.le_refl _, hgrow.input? (b.input?_adoptInput _)⟩
        (Nat.le_refl _) (by simp [LineItem.NewIn, Block.adoptInput]) (Nat.le_refl _)
        (by simp [Block.adoptInput])
  | .param n :: ts, b, buffer, line, b', line', h => by
    rcases hi : p.inputs.lookup n with _ | i
    · rcases hf : p.fields.lookup n with _ | f
      · rw [layoutLine_unknown hi hf] at h
        cases h
      · -- a field waits with the buffer
        rw [layoutLine_field hi hf] at h
        obtain ⟨shown, extra, hitems, htrail, hlen, hlaid⟩ := layoutLine_laid ts _ _ _ h
        refine ⟨.field f :: shown, extra, by simp [hitems], ?_, ?_,
          hlaid.cons_param (by simp [Proto.resolve, hi, hf])⟩
        · rw [htrail, trailing_cons]
          simp only [Proto.closes, hi, Option.isSome_none, List.mem_cons, forall_eq_or_imp,
            true_and, ne_eq, List.append_eq_nil_iff, List.cons_ne_self, and_false,
            not_false_eq_true]
          tauto
        · simp [hlen, Proto.closes, hi]
    · -- an input ends the entry
      rw [layoutLine_input hi] at h
      obtain ⟨shown, extra, hitems, htrail, hlen, hlaid⟩ := layoutLine_laid ts _ _ _ h
      refine ⟨.input i :: shown, extra, by simp [hitems, LineEntry.items], ?_, ?_,
        hlaid.cons_param (by simp [Proto.resolve, hi])⟩
      · rw [htrail, trailing_cons]
        simp [Proto.closes, hi]
      · simp [hlen, Proto.closes, hi]
        omega

/-- **Laying a message out.** With the built-in registry, a leaf's message lays out into a line
exactly when the view knows every name the message references. The line then shows, entry by
entry, fields before their input, the message's tokens in order, each as what it became: a run of
text a new label holding it, a reference to a field that field, a reference to an input (inputs
first) that input, a line break a new dummy input; and after them one more new dummy exactly when
a run of text or a field reference comes after the last input reference or line break. So the
line has one entry per input reference and line break, and one more for what trails. -/
theorem layout_realizes_message (p : Proto) (leaf : String) (b : Block) (message : String) :
    ((∃ res, layoutLine Registry.builtin p leaf b (Message.tokenize message) [] [] = .ok res) ↔
      ∀ n, .param n ∈ Message.tokenize message →
        n ∈ p.inputs.map (·.1) ∨ n ∈ p.fields.map (·.1)) ∧
    ∀ b' line, layoutLine Registry.builtin p leaf b (Message.tokenize message) [] [] = .ok (b', line) →
      ∃ shown extra, line.flatMap LineEntry.items = shown ++ extra ∧
        (extra ≠ [] ↔ Trailing p (Message.tokenize message)) ∧
        line.length = (Message.tokenize message).countP p.closes + extra.length ∧
        Laid p b b' (Message.tokenize message) shown extra := by
  refine ⟨?_, fun b' line h => ?_⟩
  · simp only [layoutLine_isOk_iff, Proto.resolve_isSome_iff]
  · obtain ⟨shown, extra, hitems, htrail, hlen, hlaid⟩ := layoutLine_laid _ _ _ _ h
    refine ⟨shown, extra, by simpa using hitems, by simpa using htrail, by simpa using hlen, hlaid⟩

/-- The view of a block with an input `X` at `0` and a field `F` at `0`. -/
def greetingView : Proto := { inputs := [("X", 0)], fields := [("F", 0)] }

/-- `Hi %{X}\n%{F}` lays out from `greetingView`: the view knows both names, so the layout
succeeds, and its line shows what the message says. -/
theorem greeting_laid_out :
    ∃ b' line, layoutLine Registry.builtin greetingView "G" { id := 0, typeName := "G" }
        (Message.tokenize "Hi %\x7bX\x7d\\n%\x7bF\x7d") [] [] = .ok (b', line) ∧
      ∃ shown extra, line.flatMap LineEntry.items = shown ++ extra ∧
        (extra ≠ [] ↔ Trailing greetingView (Message.tokenize "Hi %\x7bX\x7d\\n%\x7bF\x7d")) ∧
        line.length =
          (Message.tokenize "Hi %\x7bX\x7d\\n%\x7bF\x7d").countP greetingView.closes +
            extra.length ∧
        Laid greetingView { id := 0, typeName := "G" } b'
          (Message.tokenize "Hi %\x7bX\x7d\\n%\x7bF\x7d") shown extra := by
  have hlaid := layout_realizes_message greetingView "G" { id := 0, typeName := "G" }
    "Hi %\x7bX\x7d\\n%\x7bF\x7d"
  have htok : Message.tokenize "Hi %\x7bX\x7d\\n%\x7bF\x7d" =
      [.text "Hi ", .param "X", .newline, .param "F"] := by
    decide +kernel
  -- every name the message references is one the view knows
  obtain ⟨⟨b', line⟩, h⟩ := hlaid.1.mpr fun n hn => by
    rw [htok] at hn
    simp only [List.mem_cons, reduceCtorEq, Token.param.injEq, List.not_mem_nil, or_false,
      false_or] at hn
    rcases hn with rfl | rfl <;> simp [greetingView]
  exact ⟨b', line, h, hlaid.2 b' line h⟩

/-! ### Putting a line on a block -/

namespace Block

theorem setRows_append (l₁ l₂ : List LineEntry) (a : Array Input) :
    setRows (l₁ ++ l₂) a = setRows l₂ (setRows l₁ a) := by
  simp only [setRows, List.foldl_append]

@[simp] theorem size_setRows (line : List LineEntry) (a : Array Input) :
    (setRows line a).size = a.size := by
  induction line generalizing a with
  | nil => rfl
  | cons e line ih => rw [setRows_cons, ih, Array.size_modify]

/-- An input no entry names keeps its row. -/
theorem getElem?_setRows_of_not_mem {line : List LineEntry} {k : Nat}
    (hk : ∀ e ∈ line, e.input ≠ k) (a : Array Input) : (setRows line a)[k]? = a[k]? := by
  induction line generalizing a with
  | nil => rfl
  | cons e line ih =>
    rw [setRows_cons, ih (fun e' he' => hk e' (List.mem_cons_of_mem _ he')), Array.getElem?_modify,
      if_neg (hk e List.mem_cons_self)]

/-- **The last entry naming an input decides its row.** -/
theorem fieldRow_setRows_last {pre post : List LineEntry} {e : LineEntry} {a : Array Input}
    (hlt : e.input < a.size) (hpost : ∀ e' ∈ post, e'.input ≠ e.input) :
    ((setRows (pre ++ e :: post) a)[e.input]?).map (·.fieldRow) = some e.fields := by
  have hlt' : e.input < (setRows pre a).size := by rwa [size_setRows]
  rw [setRows_append, setRows_cons, getElem?_setRows_of_not_mem hpost, Array.getElem?_modify,
    if_pos rfl, Array.getElem?_eq_getElem hlt']
  rfl

end Block

/-- **Putting a line on a block.** Laying a block out from a leaf whose line's inputs are inputs
of the block lists the line's inputs in order, and each entry's input shows the entry's fields
when no later entry names the same input: the last entry naming an input decides its row. -/
theorem configure_shows_line (p : BlockPlan) (b : Block) (leaf : Leaf)
    (hin : ∀ e ∈ leaf.line, e.input < b.inputArena.size) :
    (p.configure b leaf).line = leaf.line.map (·.input) ∧
    ∀ pre e post, leaf.line = pre ++ e :: post → (∀ e' ∈ post, e'.input ≠ e.input) →
      ((p.configure b leaf).input? e.input).map (·.fieldRow) = some e.fields := by
  refine ⟨p.line_configure b leaf, fun pre e post hline hpost => ?_⟩
  have hlt : e.input < b.inputArena.size := hin e (by rw [hline]; simp)
  rw [p.input?_configure, hline]
  exact Block.fieldRow_setRows_last hlt hpost

/-- A line that names each input once is shown as it is. -/
theorem configure_rows_of_nodup (p : BlockPlan) (b : Block) (leaf : Leaf)
    (hin : ∀ e ∈ leaf.line, e.input < b.inputArena.size) (hnd : (leaf.line.map (·.input)).Nodup)
    {e : LineEntry} (he : e ∈ leaf.line) :
    ((p.configure b leaf).input? e.input).map (·.fieldRow) = some e.fields := by
  obtain ⟨pre, post, hline⟩ := List.append_of_mem he
  refine (configure_shows_line p b leaf hin).2 pre e post hline fun e' he' heq => ?_
  -- `e` and `e'` would name one input twice
  rw [hline, List.map_append, List.map_cons] at hnd
  exact (List.nodup_cons.mp (List.nodup_append.mp hnd).2.1).1
    (heq ▸ List.mem_map_of_mem he')

/-- A block type whose message names its input `X` twice, each time after its own label. -/
def twiceNamedPlan : BlockPlan where
  name := "T"
  kind := .value
  orientation := .horizontal
  categories := []
  tooltip := ""
  helpUrl := ""
  variants := .leaf ⟨"T", [("X", { name := "X" })], [], none, none⟩ "a %\x7bX\x7d b %\x7bX\x7d"
  colours := [BlockPlan.defaultColour]

/-- A block with one input, `X`, at `0`. -/
def twiceNamedBlock : Block :=
  { id := 0, typeName := "T", inputArena := #[Input.ofKind (some "X") .value] }

/-- The leaf `twiceNamedPlan` makes: input `0` after label `0`, then again after label `1`. -/
def twiceNamedLeaf : Leaf := ⟨"T", [⟨0, [0]⟩, ⟨0, [1]⟩], none, none⟩

/-- Laid out from a line naming input `0` twice, the input shows the row of its last entry. -/
theorem twice_named_last_row :
    (∀ e ∈ twiceNamedLeaf.line, e.input < twiceNamedBlock.inputArena.size) ∧
    (twiceNamedPlan.configure twiceNamedBlock twiceNamedLeaf).line =
      twiceNamedLeaf.line.map (·.input) ∧
    ∀ pre e post, twiceNamedLeaf.line = pre ++ e :: post → (∀ e' ∈ post, e'.input ≠ e.input) →
      ((twiceNamedPlan.configure twiceNamedBlock twiceNamedLeaf).input? e.input).map
        (·.fieldRow) = some e.fields :=
  ⟨by decide, configure_shows_line twiceNamedPlan twiceNamedBlock twiceNamedLeaf (by decide)⟩

/-- **A message naming one input twice** makes a block whose layout does not show the first
entry's fields on its input: the second entry's row replaced them. -/
theorem repeated_input_hides_row :
    ∃ b v l, twiceNamedPlan.variants.construct Registry.builtin {} { id := 0, typeName := "T" } =
        .ok (b, v) ∧ v.activeLeaf? = some l ∧
      ∃ e ∈ l.line,
        ((twiceNamedPlan.configure b l).input? e.input).map (·.fieldRow) ≠ some e.fields := by
  -- the kernel makes the block and looks for an entry whose fields its input does not show
  have hrun : ((twiceNamedPlan.variants.construct Registry.builtin {}
      { id := 0, typeName := "T" }).toOption.bind fun x => x.2.activeLeaf?.map fun l =>
        l.line.all fun e =>
          ((twiceNamedPlan.configure x.1 l).input? e.input).map (·.fieldRow) == some e.fields) =
      some false := by
    decide +kernel
  rcases hmade : twiceNamedPlan.variants.construct Registry.builtin {}
      { id := 0, typeName := "T" } with err | ⟨b, v⟩
  · rw [hmade] at hrun
    cases hrun
  rw [hmade] at hrun
  simp only [Except.toOption, Option.bind_some] at hrun
  rcases hleaf : v.activeLeaf? with _ | l
  · rw [hleaf] at hrun
    cases hrun
  rw [hleaf, Option.map_some, Option.some.injEq, List.all_eq_false] at hrun
  obtain ⟨e, he, hne⟩ := hrun
  exact ⟨b, v, l, rfl, hleaf, e, he, by simpa using hne⟩

end Blockwork
