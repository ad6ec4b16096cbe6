import TagLang.Proofs.Lexeme.Closed

/-!
# Lexemes on their own

What follows a lexeme never told what it was. Whatever a lexeme that is no trivia stands in
front of, it is the same in front of a line break, and the same at the end of a text
(`read_before`). The one condition is on a lexeme at the end of its text, which is taken
to stand at the end again: an unclosed comment or literal goes on over line breaks.
-/

namespace TagLang

/-- The text is empty or begins with a line break. -/
def Breaks (s : List Char) : Prop := ∀ c ∈ s.head?, c = '\n'

namespace Breaks

variable {s : List Char}

theorem nil : Breaks [] := by
  rintro _ ⟨⟩

theorem cons (s : List Char) : Breaks ('\n' :: s) := by
  rintro _ ⟨rfl⟩
  rfl

theorem separates (h : Breaks s) : Separates s := by
  intro c mem
  rw [h c mem]
  rfl

theorem seams (h : Breaks s) : Seams s := h.separates.seams

theorem any_eq_false (h : Breaks s) {p : Char → Bool} (feed : p '\n' = false) :
    s.head?.any p = false := by
  cases s with
  | nil => rfl
  | cons c s =>
      obtain rfl := h c rfl
      exact feed

/-- A literal in single delimiters has to end here. -/
theorem stops (h : Breaks s) (closing : List Char) :
    Lexeme.TextStyle.stops ⟨closing, false⟩ s = true := by
  cases s with
  | nil => rfl
  | cons c s =>
      obtain rfl := h c rfl
      rfl

end Breaks

namespace Lexeme

/-- The lexeme with another text behind it. -/
def before (x : Lexeme) (s : List Char) : Lexeme := ⟨x.kind, x.text, s⟩

@[simp] theorem kind_before (x : Lexeme) (s : List Char) : (x.before s).kind = x.kind := rfl

variable {s t : List Char}

/-- What is read before the rest of a text is read with nothing left over on its own. -/
theorem extend_eq_before {x y : Lexeme} (kept : x = y.extend x.rest) (s : List Char) :
    y.extend s = x.before s := by
  have nothing : y.rest = [] := List.self_eq_append_left.mp (congrArg Lexeme.rest kept)
  rw [kept, extend, nothing]
  rfl

/-- What is kept in a shorter text and extends in a longer one stays with any text behind. -/
theorem Keeps.before {f : List Char → Lexeme} (hf : Keeps f)
    (whole : (f t).text ++ (f t).rest = t)
    (longer : f ((f t).text ++ s) = (f (f t).text).extend s) :
    f ((f t).text ++ s) = (f t).before s := by
  have kept := hf (f t).text (f t).rest (by rw [whole]; exact Nat.le_refl _)
  rw [whole] at kept
  rw [longer, extend_eq_before kept]

/-- The same of a recognizer that may refuse a text, behind what tells that it comes. -/
theorem before_of_kept {f : List Char → Option Lexeme} {w : List Char} {x : Lexeme}
    (found : f t = some x) (whole : w ++ x.rest = t)
    (kept : f (w ++ x.rest) = (f w).map (extend · x.rest))
    (longer : f (w ++ s) = (f w).map (extend · s)) : f (w ++ s) = some (x.before s) := by
  rw [whole, found] at kept
  obtain ⟨y, hy, same⟩ := Option.map_eq_some_iff.mp kept.symm
  rw [longer, hy, Option.map_some, extend_eq_before same.symm]

/-- A lexeme begins with the first character of its text. -/
theorem Splits.exists_cons {x : Lexeme} {c : Char} (h : x.Splits (c :: t)) :
    ∃ w, x.text = c :: w ∧ w ++ x.rest = t := by
  obtain ⟨whole, ne⟩ := h
  obtain ⟨d, w, text⟩ := List.exists_cons_of_ne_nil ne
  rw [text, List.cons_append] at whole
  cases whole
  exact ⟨w, text, rfl⟩

theorem hashTag?_before {x : Lexeme} (h : hashTag? t = some x) (sep : Seams s) :
    ∃ w, x.text = '#' :: w ∧ hashTag? (w ++ s) = some (x.before s) := by
  obtain ⟨w, text, whole⟩ := (splits_of_hashTag? h).exists_cons
  refine ⟨w, text, before_of_kept h whole (hashTag?_keeps fun y hy => ?_) (hashTag?_append sep)⟩
  rw [whole, h] at hy
  cases hy
  rw [size, text]
  exact Nat.le_refl _

theorem dateTime?_before {x : Lexeme} (h : dateTime? t = some x) (sep : Seams s) :
    ∃ w, x.text = '$' :: w ∧ dateTime? (w ++ s) = some (x.before s) := by
  obtain ⟨w, text, whole⟩ := (splits_of_dateTime? h).exists_cons
  refine ⟨w, text, before_of_kept h whole (dateTime?_keeps fun y hy => ?_) (dateTime?_append sep)⟩
  rw [whole, h] at hy
  cases hy
  rw [size, text]
  exact Nat.le_refl _

section Closed

/-- A comment, code or a template that is not closed is the last lexeme of its text. -/
theorem delimited_before (opening terminator : List Char) (closed : TokenKind)
    (unclosed : LexicalFault) (t : List Char)
    (last : (delimited opening terminator closed unclosed t).rest = [] → s = []) :
    ∃ w, (delimited opening terminator closed unclosed t).text = opening ++ w ∧
      delimited opening terminator closed unclosed (w ++ s) =
        (delimited opening terminator closed unclosed t).before s := by
  unfold delimited at last ⊢
  cases h : through? terminator t with
  | some body =>
      refine ⟨body.text, rfl, ?_⟩
      rw [through?_before h]
      rfl
  | none =>
      rw [h] at last
      obtain rfl : s = [] := last rfl
      refine ⟨t, rfl, ?_⟩
      rw [List.append_nil, h]
      rfl

theorem documents_append_of_length {w : List Char} (two : 2 ≤ w.length) (s : List Char) :
    documents (w ++ s) = documents w := by
  match w with
  | c :: d :: w =>
      by_cases star : c = '*'
      · subst star
        by_cases slash : d = '/'
        · subst slash
          rfl
        · simp [documents, slash]
      · simp [documents, star]

theorem blockComment_before (t : List Char) (last : (blockComment t).rest = [] → s = []) :
    ∃ w, (blockComment t).text = '/' :: '*' :: w ∧
      blockComment (w ++ s) = (blockComment t).before s := by
  obtain ⟨w, text, same⟩ := delimited_before ['/', '*'] ['*', '/'] _ _ t last
  refine ⟨w, text, ?_⟩
  have look : documents (w ++ s) = documents t := by
    cases h : through? ['*', '/'] t with
    | some body =>
        obtain rfl : body.text = w := by simpa [delimited, h, ofCut] using text
        have two : 2 ≤ body.text.length := length_le_of_through? h
        have whole : body.text ++ body.rest = t := of_through? h
        rw [documents_append_of_length two, ← documents_append_of_length two body.rest, whole]
    | none =>
        obtain rfl : t = w := by simpa [delimited, h] using text
        rw [last (by simp [blockComment, delimited, h]), List.append_nil]
  rw [blockComment, look]
  exact same

theorem regularExpression_before (t : List Char) (breaks : Breaks s) :
    ∃ w, (regularExpression t).text = '~' :: '/' :: w ∧
      regularExpression (w ++ s) = (regularExpression t).before s := by
  have pattern (s : List Char) := @Cut.run_before (fun c => c != '/' && c != '\n' && c != '\r') s t
  unfold regularExpression
  dsimp only
  generalize Cut.run (fun c => c != '/' && c != '\n' && c != '\r') t = x at pattern ⊢
  obtain ⟨text, rest⟩ := x
  split
  · rename_i r rest
    have flags := Cut.run_before (p := isRegularExpressionFlag) (s := s) r
      (breaks.seams.any_eq_false (by decide))
    refine ⟨text ++ '/' :: (Cut.run isRegularExpressionFlag r).text, by simp [ofCut], ?_⟩
    rw [List.append_assoc, pattern _ rfl]
    simp only [Cut.rest_before, List.cons_append, flags]
    rfl
  · refine ⟨text, by simp [ofCut], ?_⟩
    rw [pattern s (breaks.any_eq_false rfl), Cut.rest_before]
    split
    · exact absurd (breaks '/' rfl) (by decide)
    · rfl

theorem eq_nil_of_stops {closing : List Char} (h : TextStyle.stops ⟨closing, true⟩ t = true) :
    t = [] := by
  cases t with
  | nil => rfl
  | cons c t => cases h

theorem quoted_before (quote : Char) (t : List Char) (bare : isSeam quote = false)
    (breaks : Breaks s) (last : (quoted quote t).rest = [] → s = []) :
    ∃ w, (quoted quote t).text = quote :: w ∧
      quoted quote (w ++ s) = (quoted quote t).before s := by
  have double : Unseamed [quote, quote] := by simpa [Unseamed] using bare
  unfold quoted at last ⊢
  by_cases triple : [quote, quote].isPrefixOf t = true
  · rw [if_pos triple] at last ⊢
    have body := @textBody_before ⟨[quote, quote, quote], true⟩ s (t.drop 2)
      (by simp) (by simpa [Unseamed] using bare) fun unclosed => by
        rw [last (eq_nil_of_stops (stops_of_textBody unclosed))]
        rfl
    refine ⟨quote :: quote :: (textBody ⟨[quote, quote, quote], true⟩ (t.drop 2)).2.text,
      by simp [ofCut], ?_⟩
    rw [if_pos (by simp)]
    simp only [List.cons_append, List.drop_succ_cons, List.drop_zero, body]
    rfl
  · rw [if_neg triple]
    have body := @textBody_before ⟨[quote], false⟩ s t
      (by simp) (by simpa [Unseamed] using bare) fun _ => breaks.stops [quote]
    have other : ¬ [quote, quote].isPrefixOf ((textBody ⟨[quote], false⟩ t).2.text ++ s) = true := by
      rw [double.isPrefixOf_append breaks.seams, List.isPrefixOf_iff_prefix]
      rw [List.isPrefixOf_iff_prefix] at triple
      exact fun h => triple (h.trans ⟨_, of_textBody _ t⟩)
    refine ⟨(textBody ⟨[quote], false⟩ t).2.text, by simp [ofCut], ?_⟩
    rw [if_neg other, body]
    rfl

end Closed

section Marks

/-- The longest mark of a text is the longest of any part of it that holds it. -/
theorem longest?_of_append (h : ∀ m ∈ Mark.longest? (t ++ s), m.spelling.length ≤ t.length) :
    Mark.longest? t = Mark.longest? (t ++ s) := by
  cases found : Mark.longest? (t ++ s) with
  | none =>
      cases shorter : Mark.longest? t with
      | none => rfl
      | some n =>
          have begins : n.Begins (t ++ s) :=
            (Mark.begins_of_longest? shorter).trans (List.prefix_append t s)
          obtain ⟨m, hm, -⟩ := Mark.exists_longest? begins
          rw [found] at hm
          cases hm
  | some m =>
      have inside : m.Begins t := List.prefix_of_prefix_length_le
        (Mark.begins_of_longest? found) (List.prefix_append t s) (h m found)
      obtain ⟨n, shorter, le⟩ := Mark.exists_longest? inside
      have begins : n.Begins t := Mark.begins_of_longest? shorter
      obtain ⟨k, hk, ge⟩ := Mark.exists_longest? (begins.trans (List.prefix_append t s))
      rw [found] at hk
      cases hk
      have same := (List.prefix_of_prefix_length_le inside begins le).eq_of_length_le ge
      rw [shorter, Mark.eq_of_spelling_eq same]

theorem mark_before (c : Char) (t : List Char) (sep : Seams s) :
    ∃ w, (mark c t).text = c :: w ∧ mark c (w ++ s) = (mark c t).before s := by
  obtain ⟨w, text, whole⟩ := (splits_mark c t).exists_cons
  have taken : ∀ m ∈ Mark.longest? (c :: t), m.spelling = c :: w := by
    intro m hm
    rw [← text, mark, hm]
  have kept := longest?_of_append (t := c :: w) (s := (mark c t).rest)
    (by rw [List.cons_append, whole]; exact fun m hm => Nat.le_of_eq (by rw [taken m hm]))
  rw [List.cons_append, whole] at kept
  have longer := longest?_append (t := c :: w) sep
  rw [kept, List.cons_append] at longer
  refine ⟨w, text, ?_⟩
  unfold mark at text ⊢
  rw [longer]
  cases found : Mark.longest? (c :: t) with
  | some m =>
      have spelled := taken m found
      have rest : (c :: (w ++ s)).drop m.spelling.length = s := by
        rw [spelled, ← List.cons_append, List.drop_left]
      dsimp only
      rw [rest]
      rfl
  | none =>
      rw [found] at text
      cases text
      rfl

theorem marked?_eq_none_of_append (h : marked? (t ++ s) = none) : marked? t = none := by
  fun_cases marked? t with
  | case1 => cases h
  | case2 => cases h
  | case3 => cases h
  | case4 => cases h
  | case5 => cases h
  | case6 r =>
      have same : hashTag? (r ++ s) = none := h
      have kept := hashTag?_keeps (t := r) (s := s) (by rw [same]; rintro _ ⟨⟩)
      exact Option.map_eq_none_iff.mp (kept.symm.trans same)
  | case7 r =>
      have same : dateTime? (r ++ s) = none := h
      have kept := dateTime?_keeps (t := r) (s := s) (by rw [same]; rintro _ ⟨⟩)
      exact Option.map_eq_none_iff.mp (kept.symm.trans same)
  | case8 => rfl

theorem marked?_before {x : Lexeme} (h : marked? t = some x) (trivia : x.kind.isTrivia = false)
    (breaks : Breaks s) (last : x.rest = [] → s = []) :
    marked? (x.text ++ s) = some (x.before s) := by
  fun_cases marked? t with
  | case1 r =>
      cases h
      obtain ⟨w, text, same⟩ := delimited_before ['\x60'] ['\x60'] _ _ r last
      rw [code, text]
      exact congrArg some same
  | case2 r =>
      cases h
      obtain ⟨w, text, same⟩ := delimited_before ['{', '{', '{'] ['}', '}', '}'] _ _ r last
      rw [template, text]
      exact congrArg some same
  | case3 r =>
      cases h
      obtain ⟨w, text, same⟩ := regularExpression_before r breaks
      rw [text]
      exact congrArg some same
  | case4 r =>
      cases h
      cases trivia
  | case5 r =>
      cases h
      obtain ⟨w, text, same⟩ := blockComment_before r last
      rw [text]
      exact congrArg some same
  | case6 r =>
      obtain ⟨w, text, same⟩ := hashTag?_before h breaks.seams
      rw [text]
      exact same
  | case7 r =>
      obtain ⟨w, text, same⟩ := dateTime?_before h breaks.seams
      rw [text]
      exact same
  | case8 _ h1 h2 h3 h4 h5 h6 h7 =>
      rw [marked?.eq_8 _ h1 h2 h3 h4 h5 h6 h7] at h
      cases h

end Marks

/-- A lexeme that is no trivia is the same in front of a line break and at the end. -/
theorem read_before (ne : t ≠ []) (trivia : (read t).kind.isTrivia = false) (breaks : Breaks s)
    (last : (read t).rest = [] → s = []) : read ((read t).text ++ s) = (read t).before s := by
  obtain ⟨c, t, rfl⟩ := List.exists_cons_of_ne_nil ne
  obtain ⟨w, text, whole⟩ := (splits_read : (read (c :: t)).Splits (c :: t)).exists_cons
  rw [text, List.cons_append]
  have sep := breaks.seams
  cases family c with
  | blanks blank reads =>
    rw [reads] at trivia
    cases trivia
  | word start reads =>
    rw [reads] at text ⊢
    rw [reads, ← List.cons_append, ← text]
    exact keeps_word.before (of_word _) (extends_word _ _ sep)
  | number digit reads =>
    rw [reads] at text ⊢
    rw [reads, ← List.cons_append, ← text]
    refine keeps_number.before (splits_number digit).1 ?_
    rw [text]
    exact number_append digit w sep
  | quoted quote reads =>
    rw [reads] at text last ⊢
    obtain ⟨w', text', same⟩ := quoted_before c t (isSeam_quote quote) breaks last
    rw [text] at text'
    cases text'
    rw [reads, same]
  | marked reads =>
    rw [reads] at text whole trivia last ⊢
    rw [reads]
    cases found : marked? (c :: t) with
    | some x =>
      rw [found] at text trivia last
      have same := marked?_before found trivia breaks last
      have text : x.text = c :: w := text
      rw [text, List.cons_append] at same
      rw [same]
      rfl
    | none =>
      rw [found, Option.getD_none] at text whole
      obtain ⟨w', text', same⟩ := mark_before c t sep
      rw [text] at text'
      cases text'
      have shorter : marked? (c :: w) = none := by
        refine marked?_eq_none_of_append (s := (mark c t).rest) ?_
        rw [List.cons_append, whole, found]
      have none := marked?_append (c := c) (t := w) sep (by simp [shorter])
      rw [shorter, List.cons_append] at none
      rw [none]
      exact same

end Lexeme

end TagLang
