import TagLang.Proofs.Lexeme.Isolated

/-!
# Lexemes in a text that breaks off

A text may break off anywhere behind its first lexeme, with a line break instead of what
stood there. A lexeme that is no fault and begins with no blank is still read from the
beginning of the text (`read_cut`): of what stands behind it, only what a longer lexeme
would have taken could tell, and a line break is nothing of that kind. Nor is the `#` that
makes a hash tag of a word; it changes no lexeme in front of the word, faults and blanks
included, since none of them went on into the word.
-/

namespace TagLang

variable {r s t u : List Char}

namespace Lexeme

/-- What may stand behind a lexeme, perhaps not at once, instead of what stands there. -/
inductive Ousts (x : Lexeme) (r : List Char) : List Char → Prop
  /-- A line break or the end of the text, behind what is no fault. -/
  | breaks {s : List Char} (fault : x.kind.isFault = false) (breaks : Breaks s) : Ousts x r s
  /-- A `#`, where a word begins. -/
  | sign {s : List Char} (word : ∃ c r', r = c :: r' ∧ (Unicode.isAlphabetic c || c == '_') = true) :
      Ousts x r ('#' :: s)

namespace Ousts

variable {x : Lexeme}

theorem seams (h : x.Ousts r s) : Seams s := by
  cases h with
  | breaks _ breaks => exact breaks.seams
  | sign => exact Seams.cons rfl _

/-- No run goes on into the new text: it does not go on over a line break, and it takes a `#`
only if it takes all that words begin with. -/
theorem any_append_eq_false (h : x.Ousts r s) {p : Char → Bool} (feed : p '\n' = false)
    (sign : p '#' = true → ∀ c, (Unicode.isAlphabetic c || c == '_') = true → p c = true)
    (stop : (u ++ r).head?.any p = false) : (u ++ s).head?.any p = false := by
  cases u with
  | cons c u => exact stop
  | nil =>
      cases h with
      | breaks _ breaks => exact breaks.any_eq_false feed
      | sign word =>
          obtain ⟨c, r, rfl, letter⟩ := word
          refine Bool.eq_false_iff.mpr fun taken => ?_
          exact Bool.false_ne_true (stop.symm.trans (sign taken c letter))

theorem run_cut (h : x.Ousts r s) {p : Char → Bool} (feed : p '\n' = false)
    (sign : p '#' = true → ∀ c, (Unicode.isAlphabetic c || c == '_') = true → p c = true)
    (cut : (Cut.run p t).rest = u ++ r) :
    Cut.run p ((Cut.run p t).text ++ (u ++ s)) = (Cut.run p t).before (u ++ s) := by
  have stop := Cut.stops_run p t
  rw [cut] at stop
  exact Cut.run_before t (h.any_append_eq_false feed sign stop)

/-- A fault in front of a word does not go on to the end of the text. -/
theorem fault_eq_false (h : x.Ousts r s) (cut : x.rest = u ++ r)
    (last : x.kind.isFault = true → x.rest = []) : x.kind.isFault = false := by
  cases h with
  | breaks fault => exact fault
  | sign word =>
      obtain ⟨c, r, rfl, -⟩ := word
      refine Bool.eq_false_iff.mpr fun fault => ?_
      rw [last fault] at cut
      simp at cut

/-- Where a text literal breaks off, it does so in front of the new text as well. -/
theorem stops_append (h : x.Ousts r s) {style : TextStyle} (fault : x.kind.isFault = true)
    (stop : style.stops (u ++ r) = true) : style.stops (u ++ s) = true := by
  cases h with
  | breaks sound => exact absurd (fault.symm.trans sound) (by decide)
  | sign word =>
      cases u with
      | cons c u => exact stop
      | nil =>
          obtain ⟨c, r, rfl, letter⟩ := word
          have line : (c == '\n' || c == '\r') = true := (Bool.and_eq_true_iff.mp stop).2
          simp only [Bool.or_eq_true, beq_iff_eq] at line
          rcases line with rfl | rfl <;> exact absurd letter (by decide)

end Ousts

/-- What is kept in a text that breaks off has the broken text behind it there. -/
theorem extend_eq_before_append {x y : Lexeme} (kept : x = y.extend r) (cut : x.rest = u ++ r)
    (s : List Char) : y.extend s = x.before (u ++ s) := by
  have left : y.rest = u := by
    rw [kept] at cut
    exact List.append_cancel_right cut
  rw [kept, extend, left]
  rfl

theorem Keeps.cut {f : List Char → Lexeme} (hf : Keeps f) (whole : (f t).text ++ (f t).rest = t)
    (cut : (f t).rest = u ++ r)
    (longer : f ((f t).text ++ u ++ s) = (f ((f t).text ++ u)).extend s) :
    f ((f t).text ++ (u ++ s)) = (f t).before (u ++ s) := by
  have again : (f t).text ++ u ++ r = t := by rw [List.append_assoc, ← cut, whole]
  have kept := hf ((f t).text ++ u) r (by
    rw [again, size, List.length_append]
    exact Nat.le_add_right _ _)
  rw [again] at kept
  rw [← List.append_assoc, longer, extend_eq_before_append kept cut]

/-- The same of a recognizer that may refuse a text, behind what tells that it comes. -/
theorem before_of_cut {f : List Char → Option Lexeme} {w : List Char} {x : Lexeme}
    (found : f t = some x) (whole : w ++ x.rest = t) (cut : x.rest = u ++ r)
    (kept : f (w ++ u ++ r) = (f (w ++ u)).map (extend · r))
    (longer : f (w ++ u ++ s) = (f (w ++ u)).map (extend · s)) :
    f (w ++ (u ++ s)) = some (x.before (u ++ s)) := by
  rw [List.append_assoc, ← cut, whole, found] at kept
  obtain ⟨y, hy, same⟩ := Option.map_eq_some_iff.mp kept.symm
  rw [← List.append_assoc, longer, hy, Option.map_some, extend_eq_before_append same.symm cut]

section Marked

variable {x : Lexeme} (cut : x.rest = u ++ r)

include cut

theorem hashTag?_cut (h : hashTag? t = some x) (sep : Seams s) :
    ∃ w, x.text = '#' :: w ∧ hashTag? (w ++ (u ++ s)) = some (x.before (u ++ s)) := by
  obtain ⟨w, text, whole⟩ := (splits_of_hashTag? h).exists_cons
  refine ⟨w, text, before_of_cut h whole cut (hashTag?_keeps fun y hy => ?_) (hashTag?_append sep)⟩
  rw [List.append_assoc, ← cut, whole, h] at hy
  cases hy
  simp [size, text]

theorem dateTime?_cut (h : dateTime? t = some x) (sep : Seams s) :
    ∃ w, x.text = '$' :: w ∧ dateTime? (w ++ (u ++ s)) = some (x.before (u ++ s)) := by
  obtain ⟨w, text, whole⟩ := (splits_of_dateTime? h).exists_cons
  refine ⟨w, text, before_of_cut h whole cut (dateTime?_keeps fun y hy => ?_) (dateTime?_append sep)⟩
  rw [List.append_assoc, ← cut, whole, h] at hy
  cases hy
  simp [size, text]

end Marked

/-- What is closed is the same in front of any text. -/
theorem delimited_of_closed {opening terminator : List Char} {closed : TokenKind}
    {unclosed : LexicalFault}
    (h : (delimited opening terminator closed unclosed t).kind.isFault = false) :
    ∃ body, through? terminator t = some body ∧
      (delimited opening terminator closed unclosed t).text = opening ++ body.text ∧
      ∀ s, delimited opening terminator closed unclosed (body.text ++ s) =
        (delimited opening terminator closed unclosed t).before s := by
  unfold delimited at h ⊢
  cases found : through? terminator t with
  | none =>
      rw [found] at h
      cases h
  | some body =>
      refine ⟨body, rfl, rfl, ?_⟩
      intro s
      rw [through?_before found]
      rfl

theorem blockComment_of_closed (h : (blockComment t).kind.isFault = false) :
    ∃ w, (blockComment t).text = '/' :: '*' :: w ∧
      ∀ s, blockComment (w ++ s) = (blockComment t).before s := by
  obtain ⟨body, found, text, same⟩ := delimited_of_closed h
  refine ⟨body.text, text, ?_⟩
  intro s
  have two : 2 ≤ body.text.length := length_le_of_through? found
  have whole : body.text ++ body.rest = t := of_through? found
  have look : documents (body.text ++ s) = documents t := by
    rw [documents_append_of_length two, ← documents_append_of_length two body.rest, whole]
  rw [blockComment, look]
  exact same s

theorem regularExpression_cut (cut : (regularExpression t).rest = u ++ r)
    (ousts : (regularExpression t).Ousts r s) :
    ∃ w, (regularExpression t).text = '~' :: '/' :: w ∧
      regularExpression (w ++ (u ++ s)) = (regularExpression t).before (u ++ s) := by
  have pattern (s : List Char) := @Cut.run_before (fun c => c != '/' && c != '\n' && c != '\r') s t
  have stop := Cut.stops_run (fun c => c != '/' && c != '\n' && c != '\r') t
  unfold regularExpression at cut ousts ⊢
  dsimp only at cut ousts ⊢
  generalize Cut.run (fun c => c != '/' && c != '\n' && c != '\r') t = x at pattern stop cut ousts ⊢
  obtain ⟨text, rest⟩ := x
  split at cut
  · rename_i q behind
    obtain rfl : rest = '/' :: q := behind
    have flags := ousts.run_cut (p := isRegularExpressionFlag) (t := q) rfl nofun cut
    refine ⟨text ++ '/' :: (Cut.run isRegularExpressionFlag q).text, by simp [ofCut], ?_⟩
    rw [List.append_assoc, pattern _ rfl]
    simp only [Cut.rest_before, List.cons_append, flags]
    rfl
  · rename_i unclosed
    obtain rfl : rest = u ++ r := cut
    have line : (u ++ s).head?.any (fun c => c != '/' && c != '\n' && c != '\r') = false := by
      refine ousts.any_append_eq_false rfl (fun _ c letter => ?_) stop
      simp only [Bool.and_eq_true, bne_iff_ne]
      refine ⟨⟨?_, ?_⟩, ?_⟩ <;> (rintro rfl; exact absurd letter (by decide))
    refine ⟨text, by simp [ofCut], ?_⟩
    rw [pattern _ line, Cut.rest_before]
    split
    · rename_i q behind
      cases u with
      | nil => exact absurd rfl (Seams.ne (behind ▸ ousts.seams : Seams ('/' :: q)) rfl)
      | cons c u =>
          obtain rfl : c = '/' := (List.cons.inj behind).1
          exact absurd rfl (unclosed _)
    · rfl

theorem lineComment_cut (cut : (lineComment t).rest = u ++ r) (ousts : (lineComment t).Ousts r s) :
    ∃ w, (lineComment t).text = '/' :: '/' :: w ∧
      lineComment (w ++ (u ++ s)) = (lineComment t).before (u ++ s) := by
  refine ⟨(Cut.run (· != '\n') t).text, rfl, ?_⟩
  rw [lineComment, ousts.run_cut rfl (fun _ c letter => ?_) cut]
  · rfl
  · rw [bne_iff_ne]
    rintro rfl
    exact absurd letter (by decide)

theorem quoted_cut {quote : Char} (bare : isSeam quote = false)
    (cut : (quoted quote t).rest = u ++ r) (ousts : (quoted quote t).Ousts r s) :
    ∃ w, (quoted quote t).text = quote :: w ∧
      quoted quote (w ++ (u ++ s)) = (quoted quote t).before (u ++ s) := by
  have unclosed (form : LiteralForm) {v : TextVerdict} (h : v = .unclosed) :
      (textKind form v).isFault = true := by
    rw [h]
    rfl
  have double : Unseamed [quote, quote] := by simpa [Unseamed] using bare
  unfold quoted at cut ousts ⊢
  by_cases triple : [quote, quote].isPrefixOf t = true
  · rw [if_pos triple] at cut ousts ⊢
    have body := @textBody_before ⟨[quote, quote, quote], true⟩ (u ++ s) (t.drop 2)
      (by simp) (by simpa [Unseamed] using bare) fun h => by
        have stop := stops_of_textBody h
        rw [show (textBody _ (t.drop 2)).2.rest = u ++ r from cut] at stop
        exact ousts.stops_append (unclosed _ h) stop
    refine ⟨quote :: quote :: (textBody ⟨[quote, quote, quote], true⟩ (t.drop 2)).2.text,
      by simp [ofCut], ?_⟩
    rw [if_pos (by simp)]
    simp only [List.cons_append, List.drop_succ_cons, List.drop_zero, body]
    rfl
  · rw [if_neg triple] at cut ousts ⊢
    have body := @textBody_before ⟨[quote], false⟩ (u ++ s) t
      (by simp) (by simpa [Unseamed] using bare) fun h => by
        have stop := stops_of_textBody h
        rw [show (textBody _ t).2.rest = u ++ r from cut] at stop
        exact ousts.stops_append (unclosed _ h) stop
    have whole : (textBody ⟨[quote], false⟩ t).2.text ++ (u ++ r) = t := by
      have of := of_textBody ⟨[quote], false⟩ t
      have rest : (textBody ⟨[quote], false⟩ t).2.rest = u ++ r := cut
      rwa [Cut.Of, rest] at of
    have other : ¬ [quote, quote].isPrefixOf
        ((textBody ⟨[quote], false⟩ t).2.text ++ (u ++ s)) = true := by
      rw [← List.append_assoc, double.isPrefixOf_append ousts.seams, List.isPrefixOf_iff_prefix]
      rw [List.isPrefixOf_iff_prefix] at triple
      intro inside
      exact triple (inside.trans ⟨r, by rw [List.append_assoc, whole]⟩)
    refine ⟨(textBody ⟨[quote], false⟩ t).2.text, by simp [ofCut], ?_⟩
    rw [if_neg other, body]
    rfl

theorem mark_cut {c : Char} (cut : (mark c t).rest = u ++ r) (sep : Seams s) :
    ∃ w, (mark c t).text = c :: w ∧ w ++ u ++ r = t ∧
      mark c (w ++ (u ++ s)) = (mark c t).before (u ++ s) := by
  obtain ⟨w, text, whole⟩ := (splits_mark c t).exists_cons
  rw [cut, ← List.append_assoc] at whole
  have taken : ∀ m ∈ Mark.longest? (c :: t), m.spelling = c :: w := by
    intro m hm
    rw [← text, mark, hm]
  have kept := longest?_of_append (t := c :: (w ++ u)) (s := r) (by
    rw [List.cons_append, whole]
    intro m hm
    simp [taken m hm])
  rw [List.cons_append, whole] at kept
  have longer := longest?_append (t := c :: (w ++ u)) sep
  rw [kept, List.cons_append, List.append_assoc] at longer
  refine ⟨w, text, whole, ?_⟩
  unfold mark at text ⊢
  rw [longer]
  cases found : Mark.longest? (c :: t) with
  | some m =>
      have spelled := taken m found
      have rest : (c :: (w ++ (u ++ s))).drop m.spelling.length = u ++ s := by
        rw [spelled, ← List.cons_append, List.drop_left]
      dsimp only
      rw [rest]
      rfl
  | none =>
      rw [found] at text
      cases text
      rfl

/-- Only at the end of its text is what has two delimiters not closed. -/
theorem rest_of_unclosed {opening terminator : List Char} {closed : TokenKind}
    {unclosed : LexicalFault} (sound : closed.isFault = false)
    (h : (delimited opening terminator closed unclosed t).kind.isFault = true) :
    (delimited opening terminator closed unclosed t).rest = [] := by
  unfold delimited at h ⊢
  split at h
  · exact absurd (h.symm.trans sound) (by decide)
  · rfl

theorem marked?_cut {x : Lexeme} (h : marked? t = some x) (cut : x.rest = u ++ r)
    (ousts : x.Ousts r s) : marked? (x.text ++ (u ++ s)) = some (x.before (u ++ s)) := by
  fun_cases marked? t with
  | case1 q =>
      cases h
      have fault := ousts.fault_eq_false cut (rest_of_unclosed rfl)
      obtain ⟨body, -, text, same⟩ := delimited_of_closed fault
      rw [code, text]
      exact congrArg some (same (u ++ s))
  | case2 q =>
      cases h
      have fault := ousts.fault_eq_false cut (rest_of_unclosed rfl)
      obtain ⟨body, -, text, same⟩ := delimited_of_closed fault
      rw [template, text]
      exact congrArg some (same (u ++ s))
  | case3 q =>
      cases h
      obtain ⟨w, text, same⟩ := regularExpression_cut cut ousts
      rw [text]
      exact congrArg some same
  | case4 q =>
      cases h
      obtain ⟨w, text, same⟩ := lineComment_cut cut ousts
      rw [text]
      exact congrArg some same
  | case5 q =>
      cases h
      have fault := ousts.fault_eq_false cut (rest_of_unclosed (by split <;> rfl))
      obtain ⟨w, text, same⟩ := blockComment_of_closed fault
      rw [text]
      exact congrArg some (same (u ++ s))
  | case6 q =>
      obtain ⟨w, text, same⟩ := hashTag?_cut cut h ousts.seams
      rw [text]
      exact same
  | case7 q =>
      obtain ⟨w, text, same⟩ := dateTime?_cut cut h ousts.seams
      rw [text]
      exact same
  | case8 _ h1 h2 h3 h4 h5 h6 h7 =>
      rw [marked?.eq_8 _ h1 h2 h3 h4 h5 h6 h7] at h
      cases h

/-- A lexeme is read from the text as far as it goes on behind the lexeme, if something follows
there that ousts the rest. Blanks are read as far as they go. -/
theorem read_cut {c : Char} (cut : (read (c :: t)).rest = u ++ r)
    (ousts : (read (c :: t)).Ousts r s) (solid : isBlank c = true → s.head?.any isBlank = false) :
    read ((read (c :: t)).text ++ (u ++ s)) = (read (c :: t)).before (u ++ s) := by
  obtain ⟨w, text, -⟩ := (splits_read : (read (c :: t)).Splits (c :: t)).exists_cons
  rw [text, List.cons_append]
  have sep := ousts.seams
  cases family c with
  | blanks blank reads =>
    rw [reads] at text cut ⊢
    rw [reads, ← List.cons_append, ← text]
    have stop := Cut.stops_run isBlank (c :: t)
    rw [show (Cut.run isBlank (c :: t)).rest = u ++ r from cut] at stop
    have behind : (u ++ s).head?.any isBlank = false := by
      cases u with
      | nil => exact solid blank
      | cons d u => exact stop
    exact congrArg (ofCut .whiteSpace) (Cut.run_before (c :: t) behind)
  | word start reads =>
    rw [reads] at text cut ⊢
    rw [reads, ← List.cons_append, ← text]
    exact keeps_word.cut (of_word _) cut (extends_word _ _ sep)
  | number digit reads =>
    rw [reads] at text cut ⊢
    rw [reads, ← List.cons_append, ← text]
    refine keeps_number.cut (splits_number digit).1 cut ?_
    rw [text]
    exact number_append digit (w ++ u) sep
  | quoted quote reads =>
    rw [reads] at text cut ousts ⊢
    obtain ⟨w', text', same⟩ := quoted_cut (isSeam_quote quote) cut ousts
    rw [text] at text'
    cases text'
    rw [reads, same]
  | marked reads =>
    rw [reads] at text cut ousts ⊢
    rw [reads]
    cases found : marked? (c :: t) with
    | some x =>
      rw [found] at text cut ousts
      have same := marked?_cut found cut ousts
      have text : x.text = c :: w := text
      rw [text, List.cons_append] at same
      rw [same]
      rfl
    | none =>
      rw [found, Option.getD_none] at text cut
      obtain ⟨w', text', whole', same⟩ := mark_cut cut sep
      rw [text] at text'
      cases text'
      have shorter : marked? (c :: (w ++ u)) = none := by
        refine marked?_eq_none_of_append (s := r) ?_
        rw [List.cons_append, whole', found]
      have none := marked?_append (c := c) (t := w ++ u) sep (by simp [shorter])
      rw [shorter, List.cons_append, List.append_assoc] at none
      rw [none]
      exact same

end Lexeme

end TagLang
