import Mathlib.Data.List.Infix
import Blockwork.Proofs.Message.Grammar

/-!
# Writing tokens back as a message

`Token.display` writes a token the way a message spells it: a run of text as itself, a line break
as the two characters backslash-`n`, and a reference as `%{NAME}`. Writing out the tokens of any
message and tokenizing what is written gives the same tokens again (`tokenize_join_display`).

The argument runs through the grammar of block messages (`Reads`). Unescaped text holds no
backslash-`n` (`not_escape_infix_unescapeNewlines`), so no token of a message holds one. Once the
tokens are written out, unescaping turns each written line break back into a line break and
leaves everything else as it is (`unescapeNewlines_displays`): a written token never hands an `n`
to a backslash that ends the token before it, since what follows a run of text is a written line
break or reference, which starts with a backslash or a `%`. The unescaped text is then the tokens'
pieces with nothing after them, and the tokens read it.
-/

namespace Blockwork.Message

namespace Token

@[simp] theorem toList_display_text (s : String) : (text s).display.toList = s.toList := rfl

@[simp] theorem toList_display_newline : newline.display.toList = ['\\', 'n'] := by
  simp [display]

@[simp] theorem toList_display_param (name : String) :
    (param name).display.toList = '%' :: '\x7b' :: (name.toList ++ ['\x7d']) := by
  simp [display]

/-- The written form of a token that is no run of text starts with a backslash or a `%`, never
with an `n`. -/
theorem head_display_ne_n {t : Token} (ht : t.isText = false) (rest : List Char) :
    ∀ c ∈ (t.display.toList ++ rest).head?, c ≠ 'n' := by
  cases t with
  | text s => cases ht
  | newline => rw [toList_display_newline]; simp
  | param name => rw [toList_display_param]; simp

/-- Unescaping a written token gives the token's piece: only a line break is written as an
escape. The token must hold no backslash-`n` of its own, and a run of text must not be followed
by an `n`, which could pair with a backslash that ends it. -/
theorem unescapeNewlines_display_append {t : Token} (ht : ¬ ['\\', 'n'] <:+: t.raw)
    {rest : List Char} (hrest : t.isText = true → ∀ c ∈ rest.head?, c ≠ 'n') :
    unescapeNewlines (t.display.toList ++ rest) = t.raw ++ unescapeNewlines rest := by
  cases t with
  | text s =>
    have hs : ¬ ['\\', 'n'] <:+: s.toList := ht
    rw [toList_display_text, unescapeNewlines_append (hrest rfl), unescapeNewlines_eq_self_iff.mpr hs]
    rfl
  | newline => rfl
  | param name =>
    have hname : ¬ ['\\', 'n'] <:+: name.toList := fun h =>
      ht (h.trans (List.infix_cons <| List.infix_cons <| (List.prefix_append _ _).isInfix))
    have hbrace : ∀ c ∈ ('\x7d' :: rest).head?, c ≠ 'n' := by simp
    rw [toList_display_param, List.cons_append, List.cons_append, List.append_assoc,
      List.singleton_append, unescapeNewlines.eq_2 '%' _ (by simp),
      unescapeNewlines.eq_2 '\x7b' _ (by simp), unescapeNewlines_append hbrace,
      unescapeNewlines_eq_self_iff.mpr hname, unescapeNewlines.eq_2 '\x7d' _ (by simp)]
    simp [raw]

end Token

/-- **Unescaping written tokens gives their pieces**, for tokens that hold no backslash-`n` and of
which no two runs of text stand side by side; by induction on the tokens. -/
theorem unescapeNewlines_displays :
    ∀ {ts : List Token}, (∀ t ∈ ts, ¬ ['\\', 'n'] <:+: t.raw) → ts.IsChain Token.Apart →
      unescapeNewlines (ts.flatMap fun t => t.display.toList) = ts.flatMap Token.raw
  | [], _, _ => rfl
  | t :: ts, hraw, hch => by
    rw [List.isChain_cons] at hch
    rw [List.flatMap_cons, List.flatMap_cons,
      Token.unescapeNewlines_display_append (hraw t List.mem_cons_self) fun htext => ?_,
      unescapeNewlines_displays (fun u hu => hraw u (List.mem_cons_of_mem t hu)) hch.2]
    -- a run of text is followed by nothing, or by a token that is no run of text
    cases ts with
    | nil => simp
    | cons u us =>
      have hu : u.isText = false := by
        simpa [Token.Apart, htext] using hch.1 u rfl
      rw [List.flatMap_cons]
      exact Token.head_display_ne_n hu _

/-- No token of a message holds a backslash-`n`: its piece lies in the unescaped message. -/
theorem not_escape_infix_raw {message : String} {t : Token} (ht : t ∈ tokenize message) :
    ¬ ['\\', 'n'] <:+: t.raw := by
  obtain ⟨r, hsplit, -⟩ := (reads_scan (unescapeNewlines message.toList)).split
  intro h
  refine not_escape_infix_unescapeNewlines message.toList ?_
  rw [hsplit]
  exact (h.trans (List.infix_of_mem_flatten (List.mem_map_of_mem ht))).trans
    (List.prefix_append _ _).isInfix

/-- **Written tokens read back.** Writing out the tokens of a message (a run of text as itself, a
line break as backslash-`n`, a reference as `%{NAME}`) and tokenizing the result gives the same
tokens. -/
theorem tokenize_join_display (message : String) :
    tokenize (String.join ((tokenize message).map Token.display)) = tokenize message := by
  have hreads := reads_scan (unescapeNewlines message.toList)
  have hwritten : unescapeNewlines (String.join ((tokenize message).map Token.display)).toList =
      (tokenize message).flatMap Token.raw := by
    rw [String.toList_join, List.flatMap_map]
    exact unescapeNewlines_displays (fun t ht => not_escape_infix_raw ht) hreads.maximal
  -- the pieces of the tokens, with nothing left unread, read as the tokens
  rw [tokenize, hwritten]
  exact scan_eq_of_reads ⟨⟨[], (List.append_nil _).symm, Or.inl rfl⟩, hreads.wellFormed,
    hreads.maximal⟩

end Blockwork.Message
