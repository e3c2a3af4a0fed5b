import Mathlib.Data.List.Chain
import Mathlib.Data.List.Infix
import Mathlib.Data.List.TakeWhile
import Blockwork.Message.Token

/-!
# The grammar of block messages

A scan reads unescaped message text as tokens, each standing for a piece of the text
(`Token.raw`): a run of plain text stands for itself, a line break for a line break, and a
reference to `NAME` for `%{NAME}`. This file says which token lists a text can be read as
(`Reads`):

* the text is the tokens' pieces one after the other, then a rest the scan leaves unread;
* every run of text is non-empty and holds no `%` and no line break, and no run directly
  follows another, so every run is as long as it can be;
* every reference names a non-empty name without `}`;
* the rest is empty, or starts with a `%` that opens no reference.

Exactly one token list reads a text in this way, and it is the one the scan yields
(`scan_eq_iff_reads`, `tokenize_eq_iff_reads`). In particular no token the scan yields stands for
no text (`raw_ne_nil_of_mem_tokenize`). The pre-pass that turns backslash-`n` into line breaks
replaces the pairs left to right (`unescapeNewlines_append_escape`), changes nothing else
(`unescapeNewlines_eq_self_iff`), and leaves no backslash-`n` behind
(`not_escape_infix_unescapeNewlines`).
-/

namespace Blockwork.Message

/-! ### Character classes -/

@[simp] theorem isPlain_eq_true {c : Char} : isPlain c = true ↔ c ≠ '\n' ∧ c ≠ '%' := by
  simp [isPlain]

@[simp] theorem isNameChar_eq_true {c : Char} : isNameChar c = true ↔ c ≠ '\x7d' := by
  simp [isNameChar]

/-- No run of plain text goes on into `cs`: it is empty or starts with a line break or a `%`. -/
def EndsRun (cs : List Char) : Prop := ∀ c ∈ cs.head?, isPlain c = false

section Runs

variable {α : Type} {p : α → Bool} {w rest : List α}

/-- A run of characters that all pass `p`, before text that stops the run, is what `takeWhile`
takes. -/
theorem takeWhile_append_stop (hw : ∀ c ∈ w, p c = true) (hr : ∀ c ∈ rest.head?, p c = false) :
    (w ++ rest).takeWhile p = w := by
  rw [List.takeWhile_append_of_pos hw]
  cases rest with
  | nil => simp
  | cons c r => simp [List.takeWhile_cons_of_neg (by simpa using hr c rfl)]

/-- The same run is what `dropWhile` drops. -/
theorem dropWhile_append_stop (hw : ∀ c ∈ w, p c = true) (hr : ∀ c ∈ rest.head?, p c = false) :
    (w ++ rest).dropWhile p = rest := by
  rw [List.dropWhile_append_of_pos hw]
  cases rest with
  | nil => rfl
  | cons c r => exact List.dropWhile_cons_of_neg (by simpa using hr c rfl)

end Runs

/-! ### Tokens as text -/

namespace Token

/-- The characters a token stands for in unescaped message text. -/
def raw : Token → List Char
  | .text s => s.toList
  | .newline => ['\n']
  | .param name => '%' :: '\x7b' :: (name.toList ++ ['\x7d'])

/-- Whether a token is a run of plain text. -/
def isText : Token → Bool
  | .text _ => true
  | _ => false

/-- A token the scan can yield: a non-empty run without `%` or line breaks, a line break, or a
reference to a non-empty name without `}`. -/
def WellFormed : Token → Prop
  | .text s => s.toList ≠ [] ∧ '%' ∉ s.toList ∧ '\n' ∉ s.toList
  | .newline => True
  | .param name => name.toList ≠ [] ∧ '\x7d' ∉ name.toList

/-- Two tokens that may stand side by side: not both runs of text. -/
def Apart (a b : Token) : Prop := ¬ (a.isText = true ∧ b.isText = true)

theorem raw_ne_nil {t : Token} (h : t.WellFormed) : t.raw ≠ [] := by
  cases t with
  | text s => exact h.1
  | newline => simp [raw]
  | param n => simp [raw]

/-- A run of text is made of plain characters. -/
theorem wellFormed_text_iff {s : String} :
    (text s).WellFormed ↔ s.toList ≠ [] ∧ ∀ c ∈ s.toList, isPlain c = true := by
  simp only [WellFormed, isPlain_eq_true]
  constructor
  · rintro ⟨hne, hp, hn⟩
    exact ⟨hne, fun c hc => ⟨fun h => hn (h ▸ hc), fun h => hp (h ▸ hc)⟩⟩
  · rintro ⟨hne, h⟩
    exact ⟨hne, fun hp => (h _ hp).2 rfl, fun hn => (h _ hn).1 rfl⟩

/-- A reference names a run of name characters. -/
theorem wellFormed_param_iff {name : String} :
    (param name).WellFormed ↔ name.toList ≠ [] ∧ ∀ c ∈ name.toList, isNameChar c = true := by
  simp only [WellFormed, isNameChar_eq_true]
  constructor
  · rintro ⟨hne, hc⟩
    exact ⟨hne, fun c h he => hc (he ▸ h)⟩
  · rintro ⟨hne, h⟩
    exact ⟨hne, fun hc => h _ hc rfl⟩

end Token

/-- The text starts with a complete reference `%{x}` to a non-empty name `x` without `}`. -/
def OpensReference (cs : List Char) : Prop :=
  ∃ x rest, x ≠ [] ∧ '\x7d' ∉ x ∧ cs = '%' :: '\x7b' :: (x ++ '\x7d' :: rest)

/-- What the scan leaves unread: nothing, or a `%` that opens no reference. -/
def Unread (r : List Char) : Prop :=
  r = [] ∨ (r.head? = some '%' ∧ ¬ OpensReference r)

/-- `Reads cs ts`: the unescaped text `cs` reads as the tokens `ts`; see the module comment. -/
structure Reads (cs : List Char) (ts : List Token) : Prop where
  split : ∃ r, cs = ts.flatMap Token.raw ++ r ∧ Unread r
  wellFormed : ∀ t ∈ ts, t.WellFormed
  maximal : ts.IsChain Token.Apart

/-! ### Reading token by token -/

theorem reads_nil_iff {cs : List Char} : Reads cs [] ↔ Unread cs := by
  constructor
  · rintro ⟨⟨r, rfl, hr⟩, -, -⟩
    exact hr
  · intro h
    exact ⟨⟨cs, rfl, h⟩, fun _ h => (by cases h), .nil⟩

/-- A text reads as a token list exactly when it starts with the first token's piece, the token
can stand there, and the rest reads as the other tokens. -/
theorem reads_cons_iff {t : Token} {ts : List Token} {rest : List Char} :
    Reads (t.raw ++ rest) (t :: ts) ↔
      t.WellFormed ∧ (∀ u ∈ ts.head?, t.Apart u) ∧ Reads rest ts := by
  constructor
  · rintro ⟨⟨r, h, hr⟩, hwf, hch⟩
    rw [List.flatMap_cons, List.append_assoc] at h
    rw [List.isChain_cons] at hch
    exact ⟨hwf t List.mem_cons_self, hch.1,
      ⟨⟨r, List.append_cancel_left h, hr⟩, fun u hu => hwf u (List.mem_cons_of_mem _ hu), hch.2⟩⟩
  · rintro ⟨hwf, hap, ⟨r, rfl, hr⟩, hwfs, hch⟩
    refine ⟨⟨r, by rw [List.flatMap_cons, List.append_assoc], hr⟩, fun u hu => ?_,
      List.isChain_cons.mpr ⟨hap, hch⟩⟩
    rcases List.mem_cons.mp hu with rfl | hu
    · exact hwf
    · exact hwfs u hu

/-- What follows a read that does not start with a run of text ends any run before it. -/
theorem Reads.endsRun {rest : List Char} {ts : List Token} (h : Reads rest ts)
    (hts : ∀ u ∈ ts.head?, u.isText = false) : EndsRun rest := by
  obtain ⟨⟨r, rfl, hr⟩, -, -⟩ := h
  intro c hc
  cases ts with
  | nil =>
    rcases hr with rfl | ⟨hhead, -⟩
    · cases hc
    · rw [List.flatMap_nil, List.nil_append, hhead, Option.mem_some_iff] at hc
      rw [← hc]
      rfl
  | cons u us =>
    rw [List.flatMap_cons, List.append_assoc] at hc
    cases u with
    | text s => exact absurd (hts _ rfl) (by simp [Token.isText])
    | newline =>
      rw [show Token.newline.raw = ['\n'] from rfl, List.singleton_append, List.head?_cons,
        Option.mem_some_iff] at hc
      rw [← hc]
      rfl
    | param n =>
      rw [show (Token.param n).raw = '%' :: '\x7b' :: (n.toList ++ ['\x7d']) from rfl,
        List.cons_append, List.head?_cons, Option.mem_some_iff] at hc
      rw [← hc]
      rfl

/-- A text that ends any run before it does not read as a list starting with a run. -/
theorem Reads.head_not_text {cs : List Char} {ts : List Token} (h : Reads cs ts)
    (hcs : EndsRun cs) : ∀ u ∈ ts.head?, u.isText = false := by
  intro u hu
  cases ts with
  | nil => cases hu
  | cons t ts =>
    rw [List.head?_cons, Option.mem_some_iff] at hu
    subst hu
    cases t with
    | text s =>
      obtain ⟨⟨r, rfl, -⟩, hwf, -⟩ := h
      obtain ⟨hne, hplain⟩ := Token.wellFormed_text_iff.mp (hwf _ List.mem_cons_self)
      obtain ⟨c, cs', hs⟩ := List.exists_cons_of_ne_nil hne
      have hfalse := hcs c (by
        rw [List.flatMap_cons, show (Token.text s).raw = s.toList from rfl, hs]
        rfl)
      rw [hplain c (hs ▸ List.mem_cons_self)] at hfalse
      cases hfalse
    | newline => rfl
    | param n => rfl

/-! ### References -/

/-- A `%{` opens a reference exactly when a `}` closes a non-empty run of name characters after
it. -/
theorem opensReference_iff {r : List Char} :
    OpensReference ('%' :: '\x7b' :: r) ↔
      ∃ rest, r.dropWhile isNameChar = '\x7d' :: rest ∧ r.takeWhile isNameChar ≠ [] := by
  constructor
  · rintro ⟨x, rest, hx, hxc, heq⟩
    rw [List.cons.injEq, List.cons.injEq] at heq
    have hname : ∀ c ∈ x, isNameChar c = true :=
      fun c hc => isNameChar_eq_true.mpr fun he => hxc (he ▸ hc)
    have hstop : ∀ c ∈ ('\x7d' :: rest).head?, isNameChar c = false := by
      intro c hc
      rw [List.head?_cons, Option.mem_some_iff] at hc
      rw [← hc]
      rfl
    rw [heq.2.2, dropWhile_append_stop hname hstop, takeWhile_append_stop hname hstop]
    exact ⟨rest, rfl, hx⟩
  · rintro ⟨rest, hdrop, hne⟩
    refine ⟨r.takeWhile isNameChar, rest, hne, fun hc => ?_, ?_⟩
    · exact isNameChar_eq_true.mp (List.mem_takeWhile_imp hc) rfl
    · rw [← hdrop, List.takeWhile_append_dropWhile]

/-- Only `%{` can open a reference. -/
theorem brace_of_opensReference {c : Char} {r : List Char} (h : OpensReference ('%' :: c :: r)) :
    c = '\x7b' := by
  obtain ⟨x, rest, -, -, heq⟩ := h
  rw [List.cons.injEq, List.cons.injEq] at heq
  exact heq.2.1

/-! ### The scan, case by case -/

theorem scan_newline (r : List Char) : scan ('\n' :: r) = .newline :: scan r := by
  rw [scan.eq_def]
  simp

theorem scan_plain {c : Char} (hc : isPlain c = true) (r : List Char) :
    scan (c :: r) =
      .text (String.ofList (c :: r.takeWhile isPlain)) :: scan (r.dropWhile isPlain) := by
  rw [isPlain_eq_true] at hc
  rw [scan.eq_def]
  simp [hc.1, hc.2]

theorem scan_reference {r rest : List Char} (h : r.dropWhile isNameChar = '\x7d' :: rest)
    (hne : r.takeWhile isNameChar ≠ []) :
    scan ('%' :: '\x7b' :: r) = .param (String.ofList (r.takeWhile isNameChar)) :: scan rest := by
  rw [scan.eq_def]
  simp only [Char.reduceEq, ↓reduceIte, List.isEmpty_iff]
  split
  · rename_i rest' h'
    rw [h, List.cons.injEq] at h'
    rw [if_neg hne, h'.2]
  · rename_i hno
    exact absurd h (hno rest)

/-- The scan stops at a `%` that opens no reference. -/
theorem scan_of_not_opens {r : List Char} (h : ¬ OpensReference ('%' :: r)) :
    scan ('%' :: r) = [] := by
  rcases r with _ | ⟨c, r⟩
  · rw [scan.eq_def]
    simp
  by_cases hc : c = '\x7b'
  · subst hc
    rw [scan.eq_def]
    simp only [Char.reduceEq, ↓reduceIte, List.isEmpty_iff]
    split
    · rename_i rest hdrop
      -- the name is empty, or the text would open a reference
      rw [if_pos]
      by_contra hne
      exact h (opensReference_iff.mpr ⟨rest, hdrop, hne⟩)
    · rfl
  · rw [scan.eq_def]
    simp [hc]

theorem scan_of_unread {r : List Char} (h : Unread r) : scan r = [] := by
  rcases h with rfl | ⟨hhead, hno⟩
  · rw [scan.eq_def]
  · obtain ⟨r', rfl⟩ : ∃ r', r = '%' :: r' := by
      rcases r with _ | ⟨c, r'⟩
      · cases hhead
      · rw [List.head?_cons, Option.some.injEq] at hhead
        exact ⟨r', by rw [hhead]⟩
    exact scan_of_not_opens hno

/-! ### The scan reads exactly its grammar -/

/-- **The scan's tokens read the text.** -/
theorem reads_scan (cs : List Char) : Reads cs (scan cs) := by
  fun_induction scan cs with
  | case1 => exact reads_nil_iff.mpr (Or.inl rfl)
  | case2 r ih =>
    exact (reads_cons_iff (t := .newline)).mpr
      ⟨trivial, fun _ _ => by simp [Token.Apart, Token.isText], ih⟩
  | case3 r rest hdrop name hempty _ =>
    -- `%{}` opens no reference
    refine reads_nil_iff.mpr (Or.inr ⟨rfl, fun hopen => ?_⟩)
    obtain ⟨rest', -, hne⟩ := opensReference_iff.mp hopen
    exact hne (List.isEmpty_iff.mp hempty)
  | case4 r rest hdrop name hne _ _ ih =>
    have hcs : '%' :: '\x7b' :: r = (Token.param (String.ofList name)).raw ++ rest := by
      rw [← List.takeWhile_append_dropWhile (p := isNameChar) (l := r), hdrop]
      simp [Token.raw, name]
    rw [hcs]
    refine reads_cons_iff.mpr ⟨?_, fun _ _ => by simp [Token.Apart, Token.isText], ih⟩
    rw [Token.wellFormed_param_iff, String.toList_ofList]
    exact ⟨fun h => hne (List.isEmpty_iff.mpr h), fun c hc => List.mem_takeWhile_imp hc⟩
  | case5 r hno _ =>
    -- no `}` closes the name
    refine reads_nil_iff.mpr (Or.inr ⟨rfl, fun hopen => ?_⟩)
    obtain ⟨rest, hdrop, -⟩ := opensReference_iff.mp hopen
    exact hno rest hdrop
  | case6 r hno _ =>
    refine reads_nil_iff.mpr (Or.inr ⟨rfl, fun hopen => ?_⟩)
    rcases r with _ | ⟨c, r'⟩
    · obtain ⟨x, rest, -, -, heq⟩ := hopen
      cases heq
    · exact hno r' (by rw [brace_of_opensReference hopen])
  | case7 c r hn hp _ ih =>
    have hcs : c :: r =
        (Token.text (String.ofList (c :: r.takeWhile isPlain))).raw ++ r.dropWhile isPlain := by
      simp [Token.raw]
    rw [hcs]
    -- the run stops where the rest starts, so no run follows it
    have hends : EndsRun (r.dropWhile isPlain) := by
      intro d hd
      have := List.head?_dropWhile_not isPlain r
      rw [Option.mem_def.mp hd] at this
      exact this
    refine reads_cons_iff.mpr ⟨?_, fun u hu => ?_, ih⟩
    · rw [Token.wellFormed_text_iff, String.toList_ofList]
      refine ⟨List.cons_ne_nil _ _, fun d hd => ?_⟩
      rcases List.mem_cons.mp hd with rfl | hd
      · exact isPlain_eq_true.mpr ⟨hn, hp⟩
      · exact List.mem_takeWhile_imp hd
    · simp [Token.Apart, ih.head_not_text hends u hu]

/-- **Only the scan's tokens read a text.** -/
theorem scan_eq_of_reads {cs : List Char} {ts : List Token} (h : Reads cs ts) : scan cs = ts := by
  induction ts generalizing cs with
  | nil => exact scan_of_unread (reads_nil_iff.mp h)
  | cons t ts ih =>
    obtain ⟨rest, rfl⟩ : ∃ rest, cs = t.raw ++ rest := by
      obtain ⟨⟨r, hcs, -⟩, -, -⟩ := h
      exact ⟨ts.flatMap Token.raw ++ r, by rw [hcs, List.flatMap_cons, List.append_assoc]⟩
    obtain ⟨hwf, hap, hrest⟩ := reads_cons_iff.mp h
    cases t with
    | newline =>
      rw [show Token.newline.raw ++ rest = '\n' :: rest from rfl, scan_newline, ih hrest]
    | param n =>
      obtain ⟨hne, hname⟩ := Token.wellFormed_param_iff.mp hwf
      have hstop : ∀ c ∈ ('\x7d' :: rest).head?, isNameChar c = false := by
        intro c hc
        rw [List.head?_cons, Option.mem_some_iff] at hc
        rw [← hc]
        rfl
      have htake := takeWhile_append_stop hname hstop
      rw [show (Token.param n).raw ++ rest = '%' :: '\x7b' :: (n.toList ++ '\x7d' :: rest) by
          simp [Token.raw],
        scan_reference (dropWhile_append_stop hname hstop) (by rw [htake]; exact hne), htake,
        String.ofList_toList, ih hrest]
    | text s =>
      obtain ⟨hne, hplain⟩ := Token.wellFormed_text_iff.mp hwf
      obtain ⟨c, v, hs⟩ := List.exists_cons_of_ne_nil hne
      -- no run follows this one, so the scan takes all of it and no more
      have hends : EndsRun rest := hrest.endsRun fun u hu => by
        simpa [Token.Apart, Token.isText] using hap u hu
      have hv : ∀ d ∈ v, isPlain d = true := fun d hd => hplain d (hs ▸ List.mem_cons_of_mem _ hd)
      rw [show (Token.text s).raw ++ rest = c :: (v ++ rest) by simp [Token.raw, hs],
        scan_plain (hplain c (hs ▸ List.mem_cons_self)), takeWhile_append_stop hv hends,
        dropWhile_append_stop hv hends, ← hs, String.ofList_toList, ih hrest]

theorem scan_eq_iff_reads {cs : List Char} {ts : List Token} : scan cs = ts ↔ Reads cs ts :=
  ⟨fun h => h ▸ reads_scan cs, scan_eq_of_reads⟩

/-- **The tokens of a message** are the one token list that reads the message's text, once every
backslash-`n` in it is a line break. -/
theorem tokenize_eq_iff_reads (message : String) (ts : List Token) :
    tokenize message = ts ↔ Reads (unescapeNewlines message.toList) ts :=
  scan_eq_iff_reads

/-- The scan never yields a token that stands for no text. -/
theorem raw_ne_nil_of_mem_tokenize {message : String} {t : Token} (h : t ∈ tokenize message) :
    t.raw ≠ [] :=
  Token.raw_ne_nil ((reads_scan _).wellFormed t h)

/-! ### Line breaks written as backslash-`n` -/

/-- Text that holds no backslash-`n` is left as it is, and only such text. -/
theorem unescapeNewlines_eq_self_iff {cs : List Char} :
    unescapeNewlines cs = cs ↔ ¬ ['\\', 'n'] <:+: cs := by
  induction cs using unescapeNewlines.induct with
  | case1 r _ =>
    have hpair : ['\\', 'n'] <:+: '\\' :: 'n' :: r := List.infix_cons_iff.mpr (Or.inl (by simp))
    rw [unescapeNewlines.eq_1]
    simp [hpair]
  | case2 c r hc ih =>
    rw [unescapeNewlines.eq_2 c r hc, List.cons.injEq, ih, List.infix_cons_iff]
    -- `c` cannot start a backslash-`n` here
    have hpre : ¬ ['\\', 'n'] <+: c :: r := by
      rw [List.cons_prefix_cons]
      rintro ⟨rfl, hn⟩
      obtain ⟨r', hr'⟩ := hn
      exact hc r' rfl (by rw [← hr']; rfl)
    simp [hpre]
  | case3 => simp [unescapeNewlines]

/-- Unescaping starts with an `n` only where the text did. -/
theorem head?_of_head?_unescapeNewlines {cs : List Char}
    (h : (unescapeNewlines cs).head? = some 'n') : cs.head? = some 'n' := by
  induction cs using unescapeNewlines.induct with
  | case1 r _ => simp [unescapeNewlines] at h
  | case2 c r hc _ => rwa [unescapeNewlines.eq_2 c r hc] at h
  | case3 => simp [unescapeNewlines] at h

/-- **Unescaped text holds no backslash-`n`.** A backslash that is kept is followed by something
other than `n` in the text, and unescaping that rest does not start it with an `n`. -/
theorem not_escape_infix_unescapeNewlines (cs : List Char) :
    ¬ ['\\', 'n'] <:+: unescapeNewlines cs := by
  induction cs using unescapeNewlines.induct with
  | case1 r ih =>
    rw [unescapeNewlines.eq_1, List.infix_cons_iff]
    rintro (hpre | hin)
    · simp at hpre
    · exact ih hin
  | case2 c r hc ih =>
    rw [unescapeNewlines.eq_2 c r hc, List.infix_cons_iff]
    rintro (hpre | hin)
    · -- the kept backslash would pair with an `n` that starts the unescaped rest
      rw [List.cons_prefix_cons] at hpre
      obtain ⟨rfl, hn⟩ := hpre
      have hhead : (unescapeNewlines r).head? = some 'n' := by
        obtain ⟨t, ht⟩ := hn
        rw [← ht]
        rfl
      obtain ⟨r', rfl⟩ := List.head?_eq_some_iff.mp (head?_of_head?_unescapeNewlines hhead)
      exact hc r' rfl rfl
    · exact ih hin
  | case3 => simp [unescapeNewlines]

/-- The pairs are replaced left to right: the first backslash-`n` becomes a line break and the
text after it is unescaped on its own. -/
theorem unescapeNewlines_append_escape {a : List Char} (ha : ¬ ['\\', 'n'] <:+: a)
    (b : List Char) :
    unescapeNewlines (a ++ '\\' :: 'n' :: b) = a ++ '\n' :: unescapeNewlines b := by
  induction a with
  | nil => rfl
  | cons c a ih =>
    have ha' : ¬ ['\\', 'n'] <:+: a := fun h => ha (List.infix_cons h)
    rw [List.cons_append, unescapeNewlines.eq_2, ih ha', List.cons_append]
    rintro r' rfl hr
    -- a backslash before `n` would put a backslash-`n` in `a`
    cases a with
    | nil => cases hr
    | cons d a =>
      rw [List.cons_append, List.cons.injEq] at hr
      exact ha (List.infix_cons_iff.mpr (Or.inl (by simp [hr.1])))

/-- Unescaping goes piece by piece across a boundary that no `n` starts. -/
theorem unescapeNewlines_append {a b : List Char} (hb : ∀ c ∈ b.head?, c ≠ 'n') :
    unescapeNewlines (a ++ b) = unescapeNewlines a ++ unescapeNewlines b := by
  induction a using unescapeNewlines.induct with
  | case1 r ih => simp [unescapeNewlines, ih]
  | case2 c r hc ih =>
    rw [List.cons_append, unescapeNewlines.eq_2, unescapeNewlines.eq_2 c r hc, ih, List.cons_append]
    rintro r' rfl hr
    cases r with
    | nil => exact hb 'n' (by rw [List.nil_append] at hr; rw [hr]; rfl) rfl
    | cons d r =>
      rw [List.cons_append, List.cons.injEq] at hr
      exact hc r rfl (by rw [hr.1])
  | case3 => rfl

end Blockwork.Message
