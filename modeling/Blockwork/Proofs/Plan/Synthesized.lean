import Blockwork.Proofs.Message.Grammar
import Blockwork.Proofs.Plan.Layout

/-!
# Messages a plan writes for its leaves

A leaf declared without a message, and with none under `<name>.MESSAGE` in the messages, gets one
written from the names it sees (`synthesizeMessage`): every field, then every input, each as a
reference `%{NAME}`, with single spaces between them. Read back, such a message is the references
it was written from with a one-space run of text between each two (`Message.spacedReferences`)
exactly when every name can be spelled in a reference (`Message.Referable`): it is not empty, it
holds no `}`, and it holds no backslash-`n`, which becomes a line break before the scan
(`tokenize_synthesizeMessage_iff`). Whatever the message, no reference the tokenizer reads names
anything else (`Message.referable_of_mem_referencedNames`).

Building a plan does not check names this way. On a block made from a built plan, the named
fields and inputs on the line of a leaf laid out from such a message are every field and then
every input the leaf sees, in the order the message lists them, exactly when all those names are
referable (`synthesized_line_lists_names`).
-/

namespace Blockwork.Message

/-- A name a reference can spell: it is not empty, holds no `}`, and holds no backslash-`n`, which
the tokenizer reads as a line break. -/
def Referable (n : String) : Prop :=
  n ≠ "" ∧ '\x7d' ∉ n.toList ∧ ¬ ['\\', 'n'] <:+: n.toList

instance : DecidablePred Referable := fun _ => inferInstanceAs (Decidable (_ ∧ _ ∧ _))

/-- The name a token refers to, if it is a reference. -/
def Token.reference? : Token → Option String
  | .param n => some n
  | _ => none

/-- The names a token list refers to, in order. -/
def referencedNames (ts : List Token) : List String := ts.filterMap Token.reference?

/-- References to the names, in order, with a run of one space between each two. -/
def spacedReferences (names : List String) : List Token :=
  (names.map .param).intersperse (.text " ")

/-! ### Reading references written with spaces between them -/

theorem spacedReferences_cons_cons (n m : String) (names : List String) :
    spacedReferences (n :: m :: names) = .param n :: .text " " :: spacedReferences (m :: names) :=
  rfl

theorem head?_spacedReferences (n : String) (names : List String) :
    (spacedReferences (n :: names)).head? = some (.param n) := by
  cases names <;> rfl

theorem referencedNames_spacedReferences : ∀ names : List String,
    referencedNames (spacedReferences names) = names
  | [] => rfl
  | [_] => rfl
  | n :: m :: names => by
    rw [spacedReferences_cons_cons]
    exact congrArg (n :: ·) (referencedNames_spacedReferences (m :: names))

/-- Written out, the references are `[' ']`-separated `%{NAME}` pieces. -/
theorem flatMap_raw_spacedReferences : ∀ names : List String,
    (spacedReferences names).flatMap Token.raw =
      [' '].intercalate (names.map fun n => (Token.param n).raw)
  | [] => rfl
  | [n] => by simp [spacedReferences]
  | n :: m :: names => by
    rw [spacedReferences_cons_cons, List.flatMap_cons, List.flatMap_cons,
      flatMap_raw_spacedReferences (m :: names)]
    simp only [List.map_cons]
    rw [List.intercalate_cons_cons]
    simp [Token.raw]

/-- References to names holding no backslash-`n` are left as they are by unescaping. -/
theorem unescapeNewlines_raw_param {n : String} (h : ¬ ['\\', 'n'] <:+: n.toList) :
    unescapeNewlines (Token.param n).raw = (Token.param n).raw := by
  rw [Token.raw, unescapeNewlines.eq_2 _ _ (by simp), unescapeNewlines.eq_2 _ _ (by simp),
    unescapeNewlines_append (by simp), unescapeNewlines_eq_self_iff.mpr h]
  rfl

theorem unescapeNewlines_spacedReferences :
    ∀ {names : List String}, (∀ n ∈ names, ¬ ['\\', 'n'] <:+: n.toList) →
      unescapeNewlines ((spacedReferences names).flatMap Token.raw) =
        (spacedReferences names).flatMap Token.raw
  | [], _ => rfl
  | [n], h => by
    simpa [spacedReferences] using unescapeNewlines_raw_param (h n List.mem_cons_self)
  | n :: m :: names, h => by
    have ih := @unescapeNewlines_spacedReferences (m :: names)
      fun x hx => h x (List.mem_cons_of_mem _ hx)
    -- the pieces meet where a `%` or a space starts, never an `n`
    rw [spacedReferences_cons_cons, List.flatMap_cons, List.flatMap_cons,
      unescapeNewlines_append (by simp [Token.raw]),
      unescapeNewlines_append (by cases names <;> simp [spacedReferences, Token.raw]),
      unescapeNewlines_raw_param (h n List.mem_cons_self), ih]
    rfl

/-- References to non-empty names without `}`, a space between each two, read as themselves. -/
theorem reads_spacedReferences :
    ∀ {names : List String}, (∀ n ∈ names, n.toList ≠ [] ∧ '\x7d' ∉ n.toList) →
      Reads ((spacedReferences names).flatMap Token.raw) (spacedReferences names)
  | [], _ => reads_nil_iff.mpr (Or.inl rfl)
  | [n], h => by
    have := (@reads_cons_iff (.param n) [] []).mpr
      ⟨h n List.mem_cons_self, by simp, reads_nil_iff.mpr (Or.inl rfl)⟩
    simpa [spacedReferences] using this
  | n :: m :: names, h => by
    have ih := @reads_spacedReferences (m :: names)
      fun x hx => h x (List.mem_cons_of_mem _ hx)
    rw [spacedReferences_cons_cons, List.flatMap_cons, List.flatMap_cons]
    refine reads_cons_iff.mpr ⟨h n List.mem_cons_self, by simp [Token.Apart, Token.isText], ?_⟩
    refine reads_cons_iff.mpr ⟨by simp [Token.WellFormed], ?_, ih⟩
    -- the next token is the reference to `m`, not a run of text
    simp [head?_spacedReferences, Token.Apart, Token.isText]

/-! ### What references can name -/

/-- **Every name a message refers to is referable.** -/
theorem referable_of_mem_referencedNames {message : String} {n : String}
    (h : n ∈ referencedNames (tokenize message)) : Referable n := by
  obtain ⟨t, ht, hn⟩ := List.mem_filterMap.mp h
  cases t with
  | text => cases hn
  | newline => cases hn
  | param m =>
    cases hn
    have hr := reads_scan (unescapeNewlines message.toList)
    obtain ⟨hne, hbrace⟩ := hr.wellFormed _ ht
    refine ⟨fun hn => hne (by rw [hn]; rfl), hbrace, fun hesc => ?_⟩
    -- the name stands in the unescaped text, which holds no backslash-`n`
    obtain ⟨r, hsplit, -⟩ := hr.split
    have hin : n.toList <:+: unescapeNewlines message.toList := by
      have hraw : (Token.param n).raw <:+: (tokenize message).flatMap Token.raw :=
        List.infix_of_mem_flatten (List.mem_map_of_mem ht)
      rw [hsplit]
      exact List.IsInfix.trans ⟨['%', '\x7b'], ['\x7d'], rfl⟩
        (hraw.trans (List.prefix_append _ r).isInfix)
    exact not_escape_infix_unescapeNewlines _ (hesc.trans hin)

end Blockwork.Message

namespace Blockwork

open Message (Token Referable referencedNames spacedReferences)

/-- Written out, a synthesized message is the references to its names with spaces between. -/
theorem toList_synthesizeMessage (names : Inherited) :
    (synthesizeMessage names).toList =
      (spacedReferences (names.fields ++ names.inputs)).flatMap Token.raw := by
  rw [synthesizeMessage, String.toList_intercalate, Message.flatMap_raw_spacedReferences,
    List.map_map]
  congr 1
  refine List.map_congr_left fun n _ => ?_
  simp [Token.raw]

/-- **Synthesized messages read back as their references** exactly when every name they are
written from is referable. -/
theorem tokenize_synthesizeMessage_iff (names : Inherited) :
    Message.tokenize (synthesizeMessage names) = spacedReferences (names.fields ++ names.inputs) ↔
      ∀ n ∈ names.fields ++ names.inputs, Referable n := by
  constructor
  · intro h n hn
    have hmem : n ∈ referencedNames (Message.tokenize (synthesizeMessage names)) := by
      rw [h, Message.referencedNames_spacedReferences]
      exact hn
    exact Message.referable_of_mem_referencedNames hmem
  · intro h
    rw [Message.tokenize, toList_synthesizeMessage,
      Message.unescapeNewlines_spacedReferences fun n hn => (h n hn).2.2]
    refine Message.scan_eq_of_reads (Message.reads_spacedReferences fun n hn => ⟨?_, (h n hn).2.1⟩)
    exact fun hnil => (h n hn).1 (String.toList_eq_nil_iff.mp hnil)

/-! ### What a line shows by name -/

/-- The name an item stands for. -/
def LineItem.val {α : Type} : LineItem α → α
  | .field x => x
  | .input x => x

namespace Block

/-- An item of a line as the block `b` names it, tagged with its kind; labels, dummies and ids the
block does not hold have no name. -/
def itemName (b : Block) : LineItem Nat → Option (LineItem String)
  | .field f => ((b.field? f).bind (·.name)).map .field
  | .input i => ((b.input? i).bind (·.name)).map .input

/-- The named fields and inputs a line shows on the block, in order. -/
def lineNames (b : Block) (line : List LineEntry) : List (LineItem String) :=
  (line.flatMap LineEntry.items).filterMap b.itemName

end Block

/-- The line a synthesized message asks for: every field seen, then every input. -/
def Inherited.listed (names : Inherited) : List (LineItem String) :=
  names.fields.map .field ++ names.inputs.map .input

/-- How a view shows a name: as an input when it has an input of that name, else as a field. -/
def Proto.tag (p : Proto) (n : String) : LineItem String :=
  if (p.inputs.lookup n).isSome then .input n else .field n

@[simp] theorem LineItem.val_tag (p : Proto) (n : String) : (p.tag n).val = n := by
  unfold Proto.tag
  split <;> rfl

theorem nodup_addNew : ∀ {known names : List String}, known.Nodup → (addNew known names).Nodup
  | _, [], h => h
  | known, m :: ms, h => by
    rw [show addNew known (m :: ms) =
      addNew (if known.contains m then known else known ++ [m]) ms from rfl]
    apply nodup_addNew
    split
    · exact h
    · rename_i hm
      rw [List.contains_iff_mem] at hm
      refine List.nodup_append.mpr ⟨h, List.nodup_singleton m, fun a ha c hc => ?_⟩
      rw [List.mem_singleton.mp hc]
      rintro rfl
      exact hm ha

/-- The names seen below a path of nodes are listed once each. -/
theorem Inherited.listed_along_nodup : ∀ (path : List Scope) {inh : Inherited},
    inh.inputs.Nodup → inh.fields.Nodup → (inh.along path).listed.Nodup
  | [], inh, hi, hf => by
    simp only [along, List.foldl_nil, listed, List.nodup_append]
    refine ⟨hf.map fun _ _ h => by cases h; rfl, hi.map fun _ _ h => by cases h; rfl, ?_⟩
    simp
  | s :: path, _, hi, hf => listed_along_nodup path (nodup_addNew hi) (nodup_addNew hf)

/-- The view `p` maps exactly the names `A` lists, each to an input or a field of the block `b`
bearing that name. -/
structure Proto.Faithful (p : Proto) (b : Block) (A : Inherited) : Prop where
  inputs : ∀ n, (p.inputs.lookup n).isSome ↔ n ∈ A.inputs
  fields : ∀ n, (p.fields.lookup n).isSome ↔ n ∈ A.fields
  input_named : ∀ n k, p.inputs.lookup n = some k → ∃ i, b.input? k = some i ∧ i.name = some n
  field_named : ∀ n f, p.fields.lookup n = some f → ∃ fd, b.field? f = some fd ∧ fd.name = some n

namespace Proto.Faithful

variable {p : Proto} {b b' : Block} {A : Inherited}

theorem empty (b : Block) : ({} : Proto).Faithful b {} :=
  ⟨fun _ => by simp, fun _ => by simp, fun _ _ h => by simp at h, fun _ _ h => by simp at h⟩

theorem grow (h : p.Faithful b A) (hg : b.Grows b') : p.Faithful b' A := by
  refine ⟨h.inputs, h.fields, fun n k hk => ?_, fun n f hf => ?_⟩
  · obtain ⟨i, hi, hn⟩ := h.input_named n k hk
    exact ⟨i, hg.input? hi, hn⟩
  · obtain ⟨fd, hfd, hn⟩ := h.field_named n f hf
    exact ⟨fd, hg.field? hfd, hn⟩

/-- **Extending a faithful view over a node** whose declarations are filed under their names gives
a view faithful to the node's names added to those above it. -/
theorem extend {r : Registry} {s : Scope} {parent : Proto} (hP : parent.Faithful b A)
    (hd : s.Distinct) (hk : s.Keyed) (h : Proto.extend r b s parent = .ok (b', p)) :
    p.Faithful b' (s.extend A) ∧ b.Grows b' := by
  obtain ⟨ids, hmade, hover, hg, -, -⟩ := Proto.extend_spec hd h
  refine ⟨⟨fun n => ?_, fun n => ?_, fun n k hl => ?_, fun n f hl => ?_⟩, hg⟩
  · rw [hover.inputs, Option.isSome_or, Bool.or_eq_true, hP.inputs,
      VariantPlan.lookup_isSome_iff_mem, hmade.input_names]
    simp [Scope.extend, mem_addNew, or_comm]
  · rw [hover.fields, Option.isSome_or, Bool.or_eq_true, hP.fields,
      VariantPlan.lookup_isSome_iff_mem, hmade.field_names]
    simp [Scope.extend, mem_addNew, or_comm]
  -- a name the node declares maps to the node's object, any other as in the parent's view
  · rw [hover.inputs] at hl
    rcases ho : ids.inputs.lookup n with _ | k'
    · rw [ho, Option.none_or] at hl
      exact (hP.grow hg).input_named n k hl
    · rw [ho, Option.some_or, Option.some.injEq] at hl
      subst hl
      exact hmade.input_named hk ho
  · rw [hover.fields] at hl
    rcases ho : ids.fields.lookup n with _ | f'
    · rw [ho, Option.none_or] at hl
      exact (hP.grow hg).field_named n f hl
    · rw [ho, Option.some_or, Option.some.injEq] at hl
      subst hl
      exact hmade.field_named hk ho

/-- A faithful view over names kept apart shows each field name as a field and each input name
as an input. -/
theorem listed_eq (h : p.Faithful b A) (hA : A.Disjoint) :
    A.listed = (A.fields ++ A.inputs).map p.tag := by
  rw [Inherited.listed, List.map_append]
  congr 1
  · refine List.map_congr_left fun n hn => ?_
    -- a field name is no input name
    have hin : (p.inputs.lookup n).isSome = false :=
      Bool.eq_false_iff.mpr fun hs => hA n ((h.inputs n).mp hs) hn
    simp [Proto.tag, hin]
  · refine List.map_congr_left fun n hn => ?_
    simp [Proto.tag, (h.inputs n).mpr hn]

/-- What a faithful view shows for a name is named after it. -/
theorem itemName_resolve (h : p.Faithful b A) {n : String} {x : LineItem Nat}
    (hx : p.resolve n = some x) : b.itemName x = some (p.tag n) := by
  unfold Proto.resolve at hx
  split at hx
  · rename_i k hk
    cases hx
    obtain ⟨i, hi, hn⟩ := h.input_named n k hk
    simp [Block.itemName, hi, hn, Proto.tag, hk]
  · rename_i hk
    obtain ⟨f, hf, rfl⟩ := Option.map_eq_some_iff.mp hx
    obtain ⟨fd, hfd, hn⟩ := h.field_named n f hf
    simp [Block.itemName, hfd, hn, Proto.tag, hk]

end Proto.Faithful

section Named

variable {p : Proto} {A : Inherited} {b₁ b₂ b' : Block}

/-- Read by name, a token shows as the name it refers to; runs of text and line breaks became
labels and dummies, which have none. -/
theorem itemName_of_shows (hp : p.Faithful b' A) (hg : b₂.Grows b') {t : Token}
    {x : LineItem Nat} (hx : Shows p b₁ b₂ t x) : b'.itemName x = t.reference?.map p.tag := by
  cases t with
  | text s =>
    cases x with
    | field f => simp [Block.itemName, hg.field? hx.2, Field.label, Token.reference?]
    | input => cases hx
  | newline =>
    cases x with
    | field => cases hx
    | input i => simp [Block.itemName, hg.input? hx.2, Input.ofKind, Token.reference?]
  | param n => exact hp.itemName_resolve hx

theorem filterMap_itemName_of_shows (hp : p.Faithful b' A) (hg : b₂.Grows b') {ts : List Token}
    {shown : List (LineItem Nat)} (h : List.Forall₂ (Shows p b₁ b₂) ts shown) :
    shown.filterMap b'.itemName = (referencedNames ts).map p.tag := by
  induction h with
  | nil => rfl
  | @cons t x ts shown hx _ ih =>
    rw [List.filterMap_cons, itemName_of_shows hp hg hx]
    simp only [referencedNames, List.filterMap_cons] at ih ⊢
    cases t.reference? <;> simp [ih]

/-- **By name, a line shows the references of its message**, each as the view shows it: labels
and dummies have no name. -/
theorem lineNames_layoutLine {leaf : String} {ts : List Token} {line : List LineEntry}
    (hp : p.Faithful b₁ A)
    (h : layoutLine Registry.builtin p leaf b₁ ts [] [] = .ok (b₂, line)) (hg : b₂.Grows b') :
    b'.lineNames line = (referencedNames ts).map p.tag := by
  obtain ⟨shown, extra, hitems, -, -, hlaid⟩ := layoutLine_laid ts b₁ [] [] h
  obtain ⟨ds, rfl, -, hds⟩ := hlaid.dummy
  have hp' := hp.grow ((layoutLine_grows _ _ _ _ h).trans hg)
  -- the trailing dummy, if any, has no name
  have hextra : (ds.map LineItem.input).filterMap b'.itemName = [] := by
    rw [List.filterMap_eq_nil_iff]
    intro x hx
    obtain ⟨i, hi, rfl⟩ := List.mem_map.mp hx
    simp [Block.itemName, hg.input? (hds i hi).2, Input.ofKind]
  rw [Block.lineNames, hitems, List.flatMap_nil, List.map_nil, List.nil_append, List.nil_append,
    List.filterMap_append, hextra, List.append_nil, filterMap_itemName_of_shows hp' hg hlaid.tokens]

/-- **A line laid out from a synthesized message lists the names it was written from** exactly when
they are all referable. -/
theorem lineNames_synthesized_iff {leaf : String} {line : List LineEntry} (hp : p.Faithful b₁ A)
    (hA : A.Disjoint)
    (h : layoutLine Registry.builtin p leaf b₁ (Message.tokenize (synthesizeMessage A)) [] [] =
      .ok (b₂, line))
    (hg : b₂.Grows b') :
    b'.lineNames line = A.listed ↔ ∀ n ∈ A.fields ++ A.inputs, Referable n := by
  rw [lineNames_layoutLine hp h hg, hp.listed_eq hA]
  constructor
  · intro heq n hn
    -- the tags keep the names, so the message refers to exactly the names it lists
    have hnames : referencedNames (Message.tokenize (synthesizeMessage A)) = A.fields ++ A.inputs := by
      simpa [List.map_map, Function.comp_def] using congrArg (List.map LineItem.val) heq
    exact Message.referable_of_mem_referencedNames (hnames ▸ hn)
  · intro hall
    rw [(tokenize_synthesizeMessage_iff A).mpr hall, Message.referencedNames_spacedReferences]

end Named

/-! ### Every leaf of a made block -/

namespace VariantPlan

/-- `pv.LeafAt v path message l`: taking the same child at every branch of the plan `pv` and of the
variant tree `v` leads to a plan leaf with `message` and to the block's leaf `l`; `path` lists the
plan's scopes on the way, root first. -/
inductive LeafAt : VariantPlan → Variant → List Scope → String → Leaf → Prop
  | leaf {s : Scope} {message : String} {l : Leaf} : LeafAt (.leaf s message) (.leaf l) [s] message l
  | branch {s : Scope} {cs : List VariantPlan} {n : String} {dropdown current : Nat}
      {vs : List Variant} {c : VariantPlan} {v : Variant} {path : List Scope} {message : String}
      {l : Leaf} (hmem : (c, v) ∈ cs.zip vs) (h : LeafAt c v path message l) :
      LeafAt (.branch s cs) (.branch n dropdown current vs) (s :: path) message l

variable {r : Registry} {parent : Proto} {b b' : Block}

/-- Each plan of a list made one after another is made on a block grown from the first one, into
one that grows into the last. -/
theorem constructAll_of_mem_zip : ∀ {cs : List VariantPlan} {vs : List Variant} {c : VariantPlan}
    {v : Variant} {b b' : Block}, constructAll r parent b cs = .ok (b', vs) → (c, v) ∈ cs.zip vs →
      ∃ b₁ b₂, b.Grows b₁ ∧ c.construct r parent b₁ = .ok (b₂, v) ∧ b₂.Grows b'
  | [], _, _, _, _, _, _, hmem => by simp at hmem
  | c' :: cs, vs, c, v, b, b', h, hmem => by
    obtain ⟨b₁, x, xs, hc, hrest, rfl⟩ := constructAll_cons_ok h
    rw [List.zip_cons_cons] at hmem
    rcases List.mem_cons.mp hmem with heq | hmem
    · cases heq
      exact ⟨b, b₁, Block.Grows.refl b, hc, constructAll_grows _ hrest⟩
    · obtain ⟨b₂, b₃, hg₂, hc', hg₃⟩ := constructAll_of_mem_zip hrest hmem
      exact ⟨b₂, b₃, (construct_grows _ hc).trans hg₂, hc', hg₃⟩

/-- **Every leaf of a made tree is laid out with a faithful view.** Making a checked plan whose
nodes declare each name once, below a view faithful to names kept apart, lays each leaf out, on a
block that then grows into the made one, with a view faithful to the names seen along its path,
which are kept apart too. -/
theorem LeafAt.laid {pv : VariantPlan} {v : Variant} {path : List Scope} {message : String}
    {l : Leaf} (hl : pv.LeafAt v path message l) :
    ∀ {A : Inherited} {parent : Proto} {b b' : Block}, pv.Distinct → pv.NamesChecked A →
      A.Disjoint → parent.Faithful b A → pv.construct r parent b = .ok (b', v) →
      ∃ p b₁ b₂, p.Faithful b₁ (A.along path) ∧ (A.along path).Disjoint ∧
        layoutLine r p l.name b₁ (Message.tokenize message) [] [] = .ok (b₂, l.line) ∧
        b₂.Grows b' := by
  induction hl with
  | leaf =>
    intro A parent b b' hd hc hA hP h
    cases hd with
    | leaf hs =>
    cases hc with
    | leaf hk hcoll =>
    obtain ⟨b₁, p, line, hext, hline, hv⟩ := construct_leaf_ok h
    cases hv
    obtain ⟨hp, -⟩ := hP.extend hs hk hext
    exact ⟨p, b₁, b', hp, Scope.extend_disjoint hcoll hA, hline, Block.Grows.refl _⟩
  | branch hmem _ ih =>
    intro A parent b b' hd hc hA hP h
    cases hd with
    | branch hs hcs =>
    cases hc with
    | branch hk hcoll _ hchildren =>
    obtain ⟨b₁, p, d, vs, hext, -, hall, hv⟩ := construct_branch_ok h
    cases hv
    obtain ⟨hp, -⟩ := hP.extend hs hk hext
    -- the child was made below the branch's view, on a block between the branch's and the last
    obtain ⟨b₂, b₃, hg₂, hc', hg₃⟩ := constructAll_of_mem_zip hall hmem
    have hmem' := (List.of_mem_zip hmem).1
    obtain ⟨q, b₄, b₅, hq, hdis, hline, hg₅⟩ := ih (hcs _ hmem') (hchildren _ hmem')
      (Scope.extend_disjoint hcoll hA) (hp.grow hg₂) hc'
    exact ⟨q, b₄, b₅, hq, hdis, hline, hg₅.trans hg₃⟩

end VariantPlan

/-! ### Synthesized messages on made blocks -/

/-- **A synthesized message reads back as its references, and a leaf laid out from it lists the
names it sees, exactly when those names are referable.** For every list of names, the tokens of
the message written from them are the references to them with a space between each two exactly
when every name is referable. On a block made from a plan that building accepted, the named
fields and inputs on the line of each leaf whose message is the one synthesized from the names it
sees are those names, every field and then every input, each once, exactly when all are
referable. -/
theorem synthesized_line_lists_names :
    (∀ names : Inherited,
      Message.tokenize (synthesizeMessage names) = spacedReferences (names.fields ++ names.inputs) ↔
        ∀ n ∈ names.fields ++ names.inputs, Referable n) ∧
    ∀ (d : BlockData) (messages : Messages) (extra : List Nat) (P : BlockPlan) (b b' : Block)
      (v : Variant) (path : List Scope) (message : String) (l : Leaf),
      BlockPlan.build d messages extra = .ok P →
      P.variants.construct Registry.builtin {} b = .ok (b', v) →
      P.variants.LeafAt v path message l →
      message = synthesizeMessage (({} : Inherited).along path) →
      (({} : Inherited).along path).listed.Nodup ∧
        (b'.lineNames l.line = (({} : Inherited).along path).listed ↔
          ∀ n ∈ (({} : Inherited).along path).fields ++ (({} : Inherited).along path).inputs,
            Referable n) := by
  refine ⟨tokenize_synthesizeMessage_iff, ?_⟩
  intro d messages extra P b b' v path message l hbuild h hl hmsg
  have hpv := BlockPlan.build_variants hbuild
  obtain ⟨p, b₁, b₂, hp, hdis, hline, hg⟩ := hl.laid (VariantPlan.build_distinct hpv)
    (VariantPlan.build_namesChecked hpv) (fun _ h => by cases h) (Proto.Faithful.empty b) h
  rw [hmsg] at hline
  exact ⟨Inherited.listed_along_nodup path List.nodup_nil List.nodup_nil,
    lineNames_synthesized_iff hp hdis hline hg⟩

/-- A value type with a text field `F` and an input named by the empty name, and no message. -/
def unnamedInputData : BlockData :=
  { name := "E", inputs := [{ name := "" }], fields := [{ name := "F", type := "text_input" }] }

/-- The scope of `unnamedInputData`'s one leaf. -/
def unnamedInputScope : Scope :=
  ⟨"E", [("", { name := "" })], [("F", { name := "F", type := "text_input" })], none, none⟩

/-- The plan built from `unnamedInputData`: its message refers to the field and to the empty name. -/
def unnamedInputPlan : BlockPlan :=
  { name := "E", kind := .value, orientation := .horizontal, categories := [], tooltip := "",
    helpUrl := "", colours := [BlockPlan.defaultColour],
    variants := .leaf unnamedInputScope "%\x7bF\x7d %\x7b\x7d" }

/-- Building accepts an input without a name; the block made from the plan shows the field `F` and
drops the input, since `%{}` is no reference. -/
theorem unnamed_input_dropped :
    BlockPlan.build unnamedInputData {} [] = .ok unnamedInputPlan ∧
      ∃ b' l, unnamedInputPlan.variants.construct Registry.builtin {}
          { id := 0, typeName := "E" } = .ok (b', .leaf l) ∧
        b'.lineNames l.line = [.field "F"] ∧
        ((({} : Inherited).along [unnamedInputScope]).listed.Nodup ∧
          (b'.lineNames l.line = (({} : Inherited).along [unnamedInputScope]).listed ↔
            ∀ n ∈ (({} : Inherited).along [unnamedInputScope]).fields ++
              (({} : Inherited).along [unnamedInputScope]).inputs, Referable n)) := by
  have hbuild : BlockPlan.build unnamedInputData {} [] = .ok unnamedInputPlan := by
    simp only [BlockPlan.build, BlockData.rootVariant, unnamedInputData, VariantPlan.build,
      Messages.lookup_empty, Option.getD_none]
    rfl
  have hcheck : (unnamedInputPlan.variants.construct Registry.builtin {}
      { id := 0, typeName := "E" }).toOption.map
        (fun x => x.2.activeLeaf?.map fun l => x.1.lineNames l.line) = some (some [.field "F"]) := by
    decide +kernel
  rcases hrun : unnamedInputPlan.variants.construct Registry.builtin {}
      { id := 0, typeName := "E" } with e | ⟨b', v⟩
  · simp [hrun, Except.toOption] at hcheck
  -- a leaf plan makes a leaf
  obtain ⟨-, p, line, -, -, rfl⟩ := VariantPlan.construct_leaf_ok hrun
  have hnames : b'.lineNames line = [.field "F"] := by
    simpa [hrun, Except.toOption, Variant.activeLeaf?] using hcheck
  refine ⟨hbuild, b', _, rfl, hnames, ?_⟩
  exact synthesized_line_lists_names.2 unnamedInputData {} [] unnamedInputPlan _ b' _
    [unnamedInputScope] _ _ hbuild hrun .leaf (by decide)

end Blockwork
