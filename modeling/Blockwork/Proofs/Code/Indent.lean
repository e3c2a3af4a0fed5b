import Mathlib.Data.List.Infix
import Blockwork.Code.Generate

/-!
# Statement bodies are indented

The body a statement input generates is the code of the chain plugged into it, split into lines
and written out again with the indent in front of every non-empty line and a newline after every
line (`Pass.childCode` through `indentLines`). A line ends at a newline, and also at a carriage
return followed by a newline, so such a carriage return is lost when the lines are written out.

Read character by character, the body is the code with each carriage return that stands right
before a newline dropped (`dropCR`), the indent inserted at the start of every non-empty line
(`insertIndent`), and a final newline added when the code is not empty and lacks one
(`finalNewline`). Code without such carriage returns therefore comes back indented and nothing
else, and removing one indent from the start of every line gives the code back
(`removeIndent_insertIndent`), as long as the indent itself holds no newline.

The proof follows the line splitter `linesOf`: a newline (with or without a carriage return
before it) closes a line and starts the next at a line start, any other character goes in front
of the first line of the rest. So the statement is carried for a text that starts a line and for
one that continues a line (`renderLines_linesOf`).
-/

namespace Blockwork.Code

/-- Inserts the indent at the start of every non-empty line; `start` says whether the text starts
a line. -/
def insertIndent (indent : List Char) : Bool → List Char → List Char
  | _, [] => []
  | _, '\n' :: r => '\n' :: insertIndent indent true r
  | true, c :: r => indent ++ c :: insertIndent indent false r
  | false, c :: r => c :: insertIndent indent false r

/-- Drops every carriage return that stands right before a newline. -/
def dropCR : List Char → List Char
  | [] => []
  | '\r' :: '\n' :: r => '\n' :: dropCR r
  | c :: r => c :: dropCR r

/-- A newline when the text is not empty and does not end with one. -/
def finalNewline (cs : List Char) : List Char :=
  if cs ≠ [] ∧ cs.getLast? ≠ some '\n' then ['\n'] else []

/-- Removes one indent from the start of every line that starts with it; `start` says whether the
text starts a line. -/
def removeIndent (indent : List Char) (start : Bool) (cs : List Char) : List Char :=
  match start, cs with
  | _, [] => []
  | _, '\n' :: r => '\n' :: removeIndent indent true r
  | true, c :: r =>
    if indent <+: c :: r then removeIndent indent false ((c :: r).drop indent.length)
    else removeIndent indent false (c :: r)
  | false, c :: r => c :: removeIndent indent false r
termination_by 2 * cs.length + start.toNat
decreasing_by all_goals (simp_wf <;> omega)

/-- The lines written out as the body writes them: the indent before every non-empty line, the
first one included only when the text starts a line, and a newline after every line. -/
def renderLines (indent : List Char) : Bool → List (List Char) → List Char
  | _, [] => []
  | start, l :: ls =>
    (if start = true ∧ l ≠ [] then indent ++ l else l) ++ '\n' :: renderLines indent true ls

/-! ### Line endings -/

@[simp] theorem linesOf_eq_nil_iff {cs : List Char} : linesOf cs = [] ↔ cs = [] := by
  fun_cases linesOf cs <;> simp_all

theorem finalNewline_cons {c : Char} {r : List Char} (hr : r ≠ []) :
    finalNewline (c :: r) = finalNewline r := by
  obtain ⟨d, r', rfl⟩ := List.exists_cons_of_ne_nil hr
  simp [finalNewline, List.getLast?_cons_cons]

@[simp] theorem finalNewline_newline (r : List Char) :
    finalNewline ('\n' :: r) = finalNewline r := by
  cases r with
  | nil => rfl
  | cons d r => exact finalNewline_cons (List.cons_ne_nil d r)

theorem finalNewline_single {c : Char} (hc : c ≠ '\n') : finalNewline [c] = ['\n'] := by
  simp [finalNewline, hc]

theorem finalNewline_cases (cs : List Char) :
    finalNewline cs = [] ∨ finalNewline cs = ['\n'] := by
  unfold finalNewline
  split
  · exact .inr rfl
  · exact .inl rfl

/-- A text with no carriage return before a newline keeps all its characters. -/
theorem dropCR_eq_self {cs : List Char} (h : ¬ ['\r', '\n'] <:+: cs) : dropCR cs = cs := by
  fun_induction dropCR cs with
  | case1 => rfl
  | case2 r _ => exact absurd (List.infix_append [] _ r) h
  | case3 c r _ ih => rw [ih fun hr => h (hr.trans (List.suffix_cons c r).isInfix)]

/-! ### Indenting -/

theorem insertIndent_cons {indent : List Char} (start : Bool) {c : Char} (hc : c ≠ '\n')
    (r : List Char) :
    insertIndent indent start (c :: r) =
      (if start then indent else []) ++ c :: insertIndent indent false r := by
  cases start with
  | false => simp [insertIndent]
  | true => simp [insertIndent]

/-- A final newline goes through unchanged. -/
theorem insertIndent_append_newline (indent : List Char) (start : Bool) (cs : List Char) :
    insertIndent indent start (cs ++ ['\n']) = insertIndent indent start cs ++ ['\n'] := by
  induction cs generalizing start with
  | nil => simp [insertIndent]
  | cons c r ih =>
    by_cases hc : c = '\n'
    · subst hc
      simp [insertIndent, ih]
    · simp [insertIndent_cons start hc, ih]

/-- **The body, read character by character.** Writing out the lines of a text indents every
non-empty line, drops the carriage returns of line endings and ends the text with a newline. The
first line is indented only when the text starts a line. -/
theorem renderLines_linesOf (indent : List Char) (start : Bool) (cs : List Char) :
    renderLines indent start (linesOf cs) =
      insertIndent indent start (dropCR cs) ++ finalNewline cs := by
  fun_induction linesOf cs generalizing start with
  | case1 => rfl
  | case2 r ih =>
    simp [renderLines, dropCR, insertIndent, ih]
  | case3 r ih =>
    rw [finalNewline_cons (List.cons_ne_nil _ _)]
    simp [renderLines, dropCR, insertIndent, ih]
  | case4 c r hc hcr hnil _ =>
    -- the last character of the text ends its only line
    obtain rfl : r = [] := linesOf_eq_nil_iff.mp hnil
    rw [dropCR.eq_3 c [] hcr, insertIndent_cons start hc, finalNewline_single hc]
    cases start <;> simp [renderLines, dropCR, insertIndent]
  | case5 c r hc hcr l ls hls ih =>
    -- the character goes in front of the first line of the rest, which continues it
    have hr : r ≠ [] := fun h => by subst h; simp [linesOf] at hls
    have hcont := ih false
    rw [hls] at hcont
    rw [dropCR.eq_3 c r hcr, insertIndent_cons start hc, finalNewline_cons hr]
    simp only [renderLines, Bool.false_eq_true, false_and, if_false] at hcont
    cases start <;> simp [renderLines, ← hcont]

theorem toList_indentLines (indent code : String) :
    (indentLines indent code).toList = renderLines indent.toList true (linesOf code.toList) := by
  rw [indentLines, lines, String.toList_join]
  generalize linesOf code.toList = ls
  induction ls with
  | nil => rfl
  | cons l ls ih =>
    simp only [List.map_cons, List.flatMap_cons, ih]
    by_cases hl : l = [] <;> simp [renderLines, hl, String.isEmpty_iff]

/-! ### Taking the indent off again -/

/-- Before a character that is not a newline, an indent that holds no newline is found and taken
off. -/
theorem removeIndent_indent {indent : List Char} (hind : '\n' ∉ indent) {c : Char}
    (hc : c ≠ '\n') (r : List Char) :
    removeIndent indent true (indent ++ c :: r) = removeIndent indent false (c :: r) := by
  cases indent with
  | nil => simp [removeIndent.eq_3 [] c r hc]
  | cons d ind =>
    have hd : d ≠ '\n' := fun h => hind (h ▸ List.mem_cons_self)
    rw [List.cons_append, removeIndent.eq_3 _ d _ hd]
    simp

/-- Taking one indent off the start of every line undoes inserting it, for an indent that holds
no newline. -/
theorem removeIndent_insertIndent {indent : List Char} (hind : '\n' ∉ indent) (start : Bool)
    (cs : List Char) : removeIndent indent start (insertIndent indent start cs) = cs := by
  induction cs generalizing start with
  | nil => simp [insertIndent, removeIndent.eq_1]
  | cons c r ih =>
    by_cases hc : c = '\n'
    · subst hc
      rw [insertIndent.eq_def]
      cases start <;> simp [removeIndent.eq_2, ih]
    · rw [insertIndent_cons start hc]
      cases start with
      | false => simp [removeIndent.eq_4 indent c _ hc, ih]
      | true => simp [removeIndent_indent hind hc, removeIndent.eq_4 indent c _ hc, ih]

/-- **Statement bodies are indented, and only indented, up to line endings.** The body of a
statement input is the child's code run through `indentLines`. For every code text and indent,
that is the code with each carriage return before a newline dropped, the indent inserted at the
start of every non-empty line and a final newline added when the code is not empty and lacks one;
for code without such carriage returns it is exactly the indented code, and for an indent without
newlines, taking one indent off the start of every line gives the code back up to that final
newline. -/
theorem statement_body_indented :
    (∀ (g : Pass) (fuel id : Nat),
      g.childCode (fuel + 1) id true =
        (fun f => indentLines g.config.indent f.text) <$> g.blockCode fuel id) ∧
    ∀ indent code : String,
      (indentLines indent code).toList =
        insertIndent indent.toList true (dropCR code.toList) ++ finalNewline code.toList ∧
      (¬ ['\r', '\n'] <:+: code.toList →
        (indentLines indent code).toList =
          insertIndent indent.toList true code.toList ++ finalNewline code.toList) ∧
      ('\n' ∉ indent.toList →
        removeIndent indent.toList true (indentLines indent code).toList =
          dropCR code.toList ++ finalNewline code.toList) := by
  refine ⟨fun g fuel id => ?_, fun indent code => ?_⟩
  · rw [Pass.childCode]
    cases g.blockCode fuel id <;> rfl
  · have hbody := (toList_indentLines indent code).trans (renderLines_linesOf _ true _)
    refine ⟨hbody, fun hcr => by rw [hbody, dropCR_eq_self hcr], fun hind => ?_⟩
    -- the final newline passes through the insertion, which taking the indent off undoes
    have hfinal : insertIndent indent.toList true (dropCR code.toList) ++ finalNewline code.toList =
        insertIndent indent.toList true (dropCR code.toList ++ finalNewline code.toList) := by
      rcases finalNewline_cases code.toList with h | h <;>
        simp [h, insertIndent_append_newline]
    rw [hbody, hfinal, removeIndent_insertIndent hind]

/-- The body of two lines, the first ended by a carriage return and a newline: indented and
nothing else, it would keep the carriage return. -/
theorem crlf_body_loses_carriage_return :
    (indentLines "  " "a\r\nb").toList ≠
      insertIndent "  ".toList true "a\r\nb".toList ++ finalNewline "a\r\nb".toList := by
  rw [toList_indentLines]
  decide

/-- A body of two lines with no carriage returns, indented by two spaces. -/
theorem two_line_body_indented :
    ¬ ['\r', '\n'] <:+: "a\nb".toList ∧ '\n' ∉ "  ".toList ∧
      (indentLines "  " "a\nb").toList =
        insertIndent "  ".toList true "a\nb".toList ++ finalNewline "a\nb".toList ∧
      removeIndent "  ".toList true (indentLines "  " "a\nb").toList =
        dropCR "a\nb".toList ++ finalNewline "a\nb".toList :=
  ⟨by decide, by decide, (statement_body_indented.2 "  " "a\nb").2.1 (by decide),
    (statement_body_indented.2 "  " "a\nb").2.2 (by decide)⟩

end Blockwork.Code
