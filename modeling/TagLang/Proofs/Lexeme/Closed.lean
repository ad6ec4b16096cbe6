import TagLang.Proofs.Lexeme.Replaced

/-!
# Closed lexemes in front of blanks

A comment or a literal with a closing delimiter takes seams on its way there, so it
extends over a seam behind it only if it is closed. With the recognizers that take no
seam this gives `read_append`: a lexeme that is neither a fault nor trivia stays what it
is when a blank follows, or a `#`.
-/

namespace TagLang

namespace Lexeme

section Delimited

theorem drop_append_of_isPrefixOf {l t : List Char} (s : List Char) (h : l.isPrefixOf t = true) :
    (t ++ s).drop l.length = t.drop l.length ++ s :=
  List.drop_append_of_le_length (List.isPrefixOf_iff_prefix.mp h).length_le

theorem delimited_append {opening terminator t : List Char} {closed : TokenKind}
    {unclosed : LexicalFault} (s : List Char)
    (h : (delimited opening terminator closed unclosed t).kind.isFault = false) :
    delimited opening terminator closed unclosed (t ++ s) =
      (delimited opening terminator closed unclosed t).extend s := by
  unfold delimited at h ⊢
  cases ht : through? terminator t with
  | none =>
      rw [ht] at h
      cases h
  | some x =>
      rw [(of_through? ht).append, through?_before ht]
      rfl

theorem documents_append {t s : List Char} (sep : Seams s) :
    documents (t ++ s) = documents t := by
  match t with
  | [] =>
      cases s with
      | nil => rfl
      | cons c s =>
          have star : c ≠ '*' := sep.ne rfl
          simp [documents, star]
  | [c] =>
      by_cases star : c = '*'
      · subst star
        cases s with
        | nil => rfl
        | cons d s =>
            have slash : d ≠ '/' := sep.ne rfl
            simp [documents, slash]
      · simp [documents, star]
  | c :: d :: t =>
      by_cases star : c = '*'
      · subst star
        by_cases slash : d = '/'
        · subst slash
          rfl
        · simp [documents, slash]
      · simp [documents, star]

/-- A run that ends inside a text ends there whatever follows. -/
theorem run_append_of_rest_ne_nil {p : Char → Bool} {t : List Char} (s : List Char)
    (h : (Cut.run p t).rest ≠ []) : Cut.run p (t ++ s) = (Cut.run p t).extend s := by
  induction t with
  | nil => exact absurd rfl h
  | cons c t ih =>
      cases hc : p c with
      | false => simp [Cut.run, Cut.extend, hc]
      | true => simpa [Cut.run, Cut.extend, hc] using ih (by simpa [Cut.run, hc] using h)

theorem regularExpression_append {t s : List Char} (sep : Seams s)
    (h : (regularExpression t).kind.isFault = false) :
    regularExpression (t ++ s) = (regularExpression t).extend s := by
  have flags : Cut.Extends (Cut.run isRegularExpressionFlag) := Cut.extends_run (by decide)
  simp only [regularExpression] at h ⊢
  split at h
  · rename_i r hr
    rw [run_append_of_rest_ne_nil s (by simp [hr])]
    simp only [Cut.rest_extend, hr, List.cons_append, Cut.text_extend, flags r s sep]
    rfl
  · cases h

end Delimited

section Texts

/-- A text literal that is closed is the same in a longer text. -/
theorem textBody_append {style : TextStyle} {t : List Char} (s : List Char)
    (ne : style.closing ≠ []) (bare : Unseamed style.closing)
    (h : (textBody style t).1 ≠ .unclosed) :
    textBody style (t ++ s) = ((textBody style t).1, (textBody style t).2.extend s) := by
  rw [(of_textBody style t).append]
  exact textBody_before ne bare fun unclosed => absurd unclosed h

theorem isSeam_quote {c : Char} (quote : (c == '"' || c == '\'') = true) : isSeam c = false := by
  rcases Bool.or_eq_true_iff.mp quote with double | single
  · obtain rfl := eq_of_beq double
    rfl
  · obtain rfl := eq_of_beq single
    rfl

theorem quoted_append {quote : Char} {t s : List Char} (sep : Seams s)
    (apart : isSeam quote = false) (h : (quoted quote t).kind.isFault = false) :
    quoted quote (t ++ s) = (quoted quote t).extend s := by
  have closed (form : LiteralForm) (v : TextVerdict) (h : (textKind form v).isFault = false) :
      v ≠ .unclosed := by
    rintro rfl
    cases h
  rw [quoted] at h
  have double : Unseamed [quote, quote] := by simpa [Unseamed] using apart
  rw [quoted, quoted, double.isPrefixOf_append sep]
  split
  · rename_i triple
    rw [if_pos triple] at h
    have two : (t ++ s).drop 2 = t.drop 2 ++ s := drop_append_of_isPrefixOf s triple
    rw [two, textBody_append s (by simp) (by simpa [Unseamed] using apart) (closed _ _ h)]
    rfl
  · rename_i single
    rw [if_neg single] at h
    rw [textBody_append s (by simp) (by simpa [Unseamed] using apart) (closed _ _ h)]
    rfl

end Texts

section Marks

theorem unseamed_spelling (m : Mark) : Unseamed m.spelling := by
  have seamless : m.spelling.any isSeam = false := by cases m <;> rfl
  simpa [Unseamed] using seamless

theorem longest?_append {t s : List Char} (sep : Seams s) :
    Mark.longest? (t ++ s) = Mark.longest? t := by
  have begins (m : Mark) : m.Begins (t ++ s) ↔ m.Begins t :=
    ⟨Unseamed.prefix_of_append (unseamed_spelling m) sep,
      fun h => h.trans (List.prefix_append t s)⟩
  have among (ms : List Mark) : Mark.longestOf? (t ++ s) ms = Mark.longestOf? t ms := by
    induction ms with
    | nil => rfl
    | cons m ms ih => simp only [Mark.longestOf?, begins, ih]
  exact among Mark.all

theorem mark_append {c : Char} {t s : List Char} (sep : Seams s) :
    mark c (t ++ s) = (mark c t).extend s := by
  have longest := longest?_append (t := c :: t) sep
  rw [List.cons_append] at longest
  rw [mark, mark, longest]
  cases h : Mark.longest? (c :: t) with
  | none => rfl
  | some m =>
      have drops := @List.drop_append_of_le_length _ (c :: t) s _ (Mark.begins_of_longest? h).length_le
      rw [List.cons_append] at drops
      simp only [drops]
      rfl

/-- What begins with a mark of its own and is closed is the same in front of a seam. -/
theorem marked?_append {c : Char} {t s : List Char} (sep : Seams s)
    (h : ∀ x, marked? (c :: t) = some x → x.kind.isFault = false ∧ x.kind ≠ .lineComment) :
    marked? (c :: t ++ s) = (marked? (c :: t)).map (extend · s) := by
  have apart {l : List Char} (seamless : l.any isSeam = false)
      (other : ∀ r, c :: t = l ++ r → False) (r : List Char) : c :: t ++ s ≠ l ++ r := by
    intro same
    have bare : Unseamed l := by simpa [Unseamed] using seamless
    obtain ⟨r', whole⟩ := bare.prefix_of_append sep ⟨r, same.symm⟩
    exact other r' whole.symm
  -- a `#` makes a seam, so it is told apart by its own place in front
  have other (hash : ∀ r, c :: t = '#' :: r → False) (r : List Char) :
      c :: t ++ s = '#' :: r → False := by
    intro same
    obtain ⟨rfl, -⟩ := List.cons.inj same
    exact hash t rfl
  generalize c :: t = t at apart other h ⊢
  fun_cases marked? t with
  | case1 r =>
      have closed := (h _ rfl).1
      exact congrArg some (delimited_append s closed)
  | case2 r =>
      have closed := (h _ rfl).1
      exact congrArg some (delimited_append s closed)
  | case3 r =>
      have closed := (h _ rfl).1
      exact congrArg some (regularExpression_append sep closed)
  | case4 r => exact absurd rfl (h _ rfl).2
  | case5 r =>
      have closed := (h _ rfl).1
      rw [blockComment] at closed
      have same := delimited_append s closed
      refine congrArg some (show blockComment (r ++ s) = (blockComment r).extend s from ?_)
      rw [blockComment, blockComment, documents_append sep, same]
  | case6 r => exact hashTag?_append sep
  | case7 r => exact dateTime?_append sep
  | case8 _ h1 h2 h3 h4 h5 h6 h7 =>
      exact marked?.eq_8 _ (@apart ['\x60'] rfl h1) (@apart ['{', '{', '{'] rfl h2)
        (@apart ['~', '/'] rfl h3) (@apart ['/', '/'] rfl h4) (@apart ['/', '*'] rfl h5)
        (other h6) (@apart ['$'] rfl h7)

end Marks

/-- A lexeme that is neither a fault nor trivia is the same in front of a seam. -/
theorem read_append {t s : List Char} (ne : t ≠ []) (sep : Seams s)
    (fault : (read t).kind.isFault = false) (trivia : (read t).kind.isTrivia = false) :
    read (t ++ s) = (read t).extend s := by
  cases t with
  | nil => exact absurd rfl ne
  | cons c t =>
    rw [List.cons_append]
    cases family c with
    | blanks blank reads =>
      rw [reads] at trivia
      cases trivia
    | word start reads =>
      rw [reads, reads]
      exact extends_word (c :: t) s sep
    | number digit reads =>
      rw [reads, reads]
      exact number_append digit t sep
    | quoted quote reads =>
      rw [reads] at fault
      rw [reads, reads]
      exact quoted_append sep (isSeam_quote quote) fault
    | marked reads =>
      rw [reads] at fault trivia
      have whole := marked?_append (c := c) (t := t) sep ?_
      · rw [List.cons_append] at whole
        rw [reads, reads, whole, mark_append sep]
        cases marked? (c :: t) <;> rfl
      · intro x found
        rw [found] at fault trivia
        refine ⟨fault, ?_⟩
        intro comment
        rw [Option.getD_some, comment] at trivia
        cases trivia

end Lexeme

end TagLang
