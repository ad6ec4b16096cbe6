import TagLang.Proofs.Lexeme.Content

/-!
# The end of a text literal on one line

Which quote closes a text literal is told by the backslashes alone: the first quote that no
backslash takes (`Inside`), whether the escapes in front of it are proper or not. The
recognizer stops behind this quote, and where there is none it stops at the end of the line.
-/

namespace TagLang

/-- The characters of a line. -/
def inLine (c : Char) : Bool := c != '\n' && c != '\r'

/-- What may stand in front of the quote that closes a literal: a backslash takes the
character behind it, a quote has to be taken, and no character breaks the line. -/
inductive Inside (q : Char) : List Char → Prop
  | nil : Inside q []
  | plain {c : Char} {s : List Char} (apart : c ≠ q ∧ c ≠ '\\') (line : inLine c = true)
      (rest : Inside q s) : Inside q (c :: s)
  | escaped {c : Char} {s : List Char} (line : inLine c = true) (rest : Inside q s) :
      Inside q ('\\' :: c :: s)

/-- A quote that closes the literal stands on the line. -/
def Reaches (q : Char) (s : List Char) : Prop := ∃ body r, Inside q body ∧ s = body ++ q :: r

/-- The characters that mean something in a text literal of one line. -/
def textSigns : List Char := ['"', '\'', '\\', '\n', '\r']

/-- A character that neither closes a literal nor breaks its line nor takes another. -/
def Bland (c : Char) : Prop := c ∉ textSigns

instance (c : Char) : Decidable (Bland c) := inferInstanceAs (Decidable (c ∉ _))

variable {q : TextQuote} {c : Char} {w s t : List Char}

namespace Bland

theorem of_class {p : Char → Bool} (none : textSigns.any p = false) (h : p c = true) : Bland c :=
  fun mem => List.any_eq_false.mp none c mem h

theorem apart (h : Bland c) (q : TextQuote) : c ≠ q.char ∧ c ≠ '\\' := by
  constructor
  · rintro rfl
    exact h (by cases q <;> decide)
  · rintro rfl
    exact h (by decide)

theorem line (h : Bland c) : inLine c = true := by
  simp_all [Bland, textSigns, inLine]

end Bland

theorem TextQuote.inLine_char (q : TextQuote) : inLine q.char = true := by
  cases q <;> rfl

theorem Inside.append_of_bland (bland : ∀ c ∈ w, Bland c) (inside : Inside q.char s) :
    Inside q.char (w ++ s) := by
  induction w with
  | nil => exact inside
  | cons c w ih =>
    obtain ⟨first, others⟩ := List.forall_mem_cons.mp bland
    exact .plain (first.apart q) first.line (ih others)

namespace Reaches

/-- Nothing is reached over a line break. -/
theorem line (reaches : Reaches q.char (c :: s)) : inLine c = true := by
  obtain ⟨body, r, inside, whole⟩ := reaches
  cases inside with
  | nil =>
    cases whole
    exact q.inLine_char
  | plain apart line rest =>
    rw [(List.cons.inj whole).1]
    exact line
  | escaped line rest =>
    rw [(List.cons.inj whole).1]
    rfl

theorem of_cons (apart : c ≠ q.char ∧ c ≠ '\\') (reaches : Reaches q.char (c :: s)) :
    Reaches q.char s := by
  obtain ⟨body, r, inside, whole⟩ := reaches
  cases inside with
  | nil =>
    cases whole
    exact absurd rfl apart.1
  | plain _ _ rest => exact ⟨_, r, rest, (List.cons.inj whole).2⟩
  | escaped line rest => exact absurd (List.cons.inj whole).1 apart.2

/-- A backslash takes a character of the line, and the literal goes on behind it. -/
theorem of_backslash (reaches : Reaches q.char ('\\' :: s)) :
    ∃ c t, s = c :: t ∧ inLine c = true ∧ Reaches q.char t := by
  obtain ⟨body, r, inside, whole⟩ := reaches
  cases inside with
  | nil => exact absurd (List.cons.inj whole).1.symm q.char_ne.1
  | plain apart _ rest => exact absurd (List.cons.inj whole).1.symm apart.2
  | escaped line rest => exact ⟨_, _, (List.cons.inj whole).2, line, _, r, rest, rfl⟩

theorem of_append (bland : ∀ c ∈ w, Bland c) (reaches : Reaches q.char (w ++ s)) :
    Reaches q.char s := by
  induction w with
  | nil => exact reaches
  | cons c w ih =>
    obtain ⟨first, others⟩ := List.forall_mem_cons.mp bland
    exact ih others (reaches.of_cons (first.apart q))

end Reaches

theorem not_reaches_nil {q : Char} : ¬ Reaches q [] := by
  rintro ⟨body, r, -, whole⟩
  exact absurd whole.symm (List.append_ne_nil_of_right_ne_nil body (List.cons_ne_nil q r))

namespace Lexeme

variable {style : TextStyle}

/-- A literal of one line in these quotes. -/
def lineStyle (q : TextQuote) : TextStyle := ⟨[q.char], false⟩

theorem not_stops_iff : ¬ (lineStyle q).stops (c :: t) = true ↔ inLine c = true := by
  simp [lineStyle, TextStyle.stops, inLine]

theorem not_reaches_of_stops (stopped : (lineStyle q).stops s = true) : ¬ Reaches q.char s := by
  cases s with
  | nil => exact not_reaches_nil
  | cons c s =>
    intro reaches
    exact not_stops_iff.mpr reaches.line stopped

/-- Behind its first character an escape takes bland ones only. -/
theorem exists_text_escape (goes : ¬ style.stops (c :: t) = true) :
    ∃ w, (escape style (c :: t)).2.text = c :: w ∧ ∀ d ∈ w, Bland d := by
  by_cases announced : c = 'u'
  · subst announced
    rw [escape_point]
    refine ⟨(point style t).2.text, rfl, ?_⟩
    by_cases brace : t.head?.any (· == '{') = true
    · obtain ⟨t, rfl⟩ := exists_eq_cons brace
      have named : ∀ d ∈ (Cut.run Unicode.isAlphanumeric t).text, Bland d := fun d mem =>
        .of_class (by decide) (List.all_eq_true.mp (Cut.all_run _ t) d mem)
      have closed : ∀ d ∈ (Cut.run Unicode.isAlphanumeric t).text ++ ['}'], Bland d :=
        List.forall_mem_append.mpr ⟨named, List.forall_mem_singleton.mpr (by decide)⟩
      rw [point_brace]
      refine List.forall_mem_cons.mpr ⟨by decide, ?_⟩
      unfold bracedPoint
      split
      · exact closed
      · exact named
    · rw [point_of_apart (Bool.eq_false_iff.mpr brace)]
      exact fun d mem => .of_class (by decide) (List.all_eq_true.mp (all_hexDigits 4 t) d mem)
  · rw [escape_simple goes announced]
    exact ⟨[], rfl, List.forall_mem_nil _⟩

theorem inLine_escape (q : TextQuote) (t : List Char) :
    ∀ d ∈ (escape (lineStyle q) t).2.text, inLine d = true := by
  by_cases stopped : (lineStyle q).stops t = true
  · rw [escape_of_stops stopped]
    exact List.forall_mem_nil _
  · cases t with
    | nil => exact absurd rfl stopped
    | cons c t =>
      obtain ⟨w, text, bland⟩ := exists_text_escape stopped
      rw [text]
      exact List.forall_mem_cons.mpr ⟨not_stops_iff.mp stopped, fun d mem => (bland d mem).line⟩

/-- The recognizer never leaves the line. -/
theorem inLine_textBody (q : TextQuote) (t : List Char) :
    ∀ d ∈ (textBody (lineStyle q) t).2.text, inLine d = true := by
  fun_induction textBody (lineStyle q) t with
  | case1 => exact List.forall_mem_nil _
  | case2 => exact List.forall_mem_singleton.mpr q.inLine_char
  | case3 => exact List.forall_mem_nil _
  | case4 c r slash spelled broken goes opened =>
    exact List.forall_mem_cons.mpr ⟨not_stops_iff.mp goes, inLine_escape q r⟩
  | case5 c r slash spelled valid tail goes opened ih =>
    exact List.forall_mem_append.mpr
      ⟨List.forall_mem_cons.mpr ⟨not_stops_iff.mp goes, inLine_escape q r⟩, ih⟩
  | case6 c r slash spelled faulty tail goes opened ih =>
    exact List.forall_mem_append.mpr
      ⟨List.forall_mem_cons.mpr ⟨not_stops_iff.mp goes, inLine_escape q r⟩, ih⟩
  | case7 c r plain tail goes opened ih =>
    exact List.forall_mem_cons.mpr ⟨not_stops_iff.mp goes, ih⟩

/-- A literal that is not closed goes on to the end of its line. -/
theorem text_textBody_of_unclosed (unclosed : (textBody (lineStyle q) t).1 = .unclosed) :
    (textBody (lineStyle q) t).2.text = t.takeWhile inLine := by
  have whole : (textBody (lineStyle q) t).2.text ++ (textBody (lineStyle q) t).2.rest = t :=
    of_textBody _ t
  have stopped := stops_of_textBody unclosed
  have behind : (textBody (lineStyle q) t).2.rest.takeWhile inLine = [] := by
    cases rest : (textBody (lineStyle q) t).2.rest with
    | nil => rfl
    | cons c r =>
      rw [rest] at stopped
      have broken : ¬ inLine c = true := fun line => not_stops_iff.mpr line stopped
      rw [List.takeWhile_cons, if_neg broken]
  conv_rhs => rw [← whole, List.takeWhile_append_of_pos (inLine_textBody q t), behind,
    List.append_nil]

/-- An escape keeps to what a backslash takes: its first character, and bland ones. -/
theorem exists_escape_eq (goes : ¬ (lineStyle q).stops t = true) :
    ∃ c w, inLine c = true ∧ (∀ d ∈ w, Bland d) ∧
      (escape (lineStyle q) t).2.text = c :: w ∧
      t = c :: (w ++ (escape (lineStyle q) t).2.rest) := by
  cases t with
  | nil => exact absurd rfl goes
  | cons c t =>
    obtain ⟨w, text, bland⟩ := exists_text_escape goes
    have whole : (escape (lineStyle q) (c :: t)).2.text ++ _ = c :: t := of_escape _ (c :: t)
    rw [text] at whole
    exact ⟨c, w, not_stops_iff.mp goes, bland, text, whole.symm⟩

theorem goes_of_escape {v : EscapeVerdict} (verdict : (escape (lineStyle q) t).1 = v)
    (known : v ≠ .unclosed) : ¬ (lineStyle q).stops t = true := by
  intro stopped
  rw [escape_of_stops stopped] at verdict
  exact known verdict.symm

theorem apart_of_opened (opened : ¬ (lineStyle q).closing.isPrefixOf (c :: t) = true)
    (plain : ¬ (c == '\\') = true) : c ≠ q.char ∧ c ≠ '\\' := by
  refine ⟨?_, by simpa using plain⟩
  rintro rfl
  exact opened (List.isPrefixOf_iff_prefix.mpr ⟨t, rfl⟩)

theorem eq_unclosed_of_spoil {v : TextVerdict} (h : v.spoil = .unclosed) : v = .unclosed := by
  cases v
  · cases h
  · cases h
  · rfl

/-- A literal that is closed is closed by the first quote that no backslash takes. -/
theorem exists_inside_of_textBody (closed : (textBody (lineStyle q) t).1 ≠ .unclosed) :
    ∃ body, Inside q.char body ∧ (textBody (lineStyle q) t).2.text = body ++ [q.char] := by
  -- what a backslash takes stands in front of what the literal goes on with
  have escaped {r : List Char} {v : EscapeVerdict} (verdict : (escape (lineStyle q) r).1 = v)
      (known : v ≠ .unclosed) {tail : Cut}
      (behind : ∃ body, Inside q.char body ∧ tail.text = body ++ [q.char]) :
      ∃ body, Inside q.char body ∧
        (tail.after ('\\' :: (escape (lineStyle q) r).2.text)).text = body ++ [q.char] := by
    obtain ⟨c, w, line, bland, text, -⟩ := exists_escape_eq (goes_of_escape verdict known)
    obtain ⟨body, inside, behind⟩ := behind
    refine ⟨'\\' :: c :: (w ++ body), .escaped line (inside.append_of_bland bland), ?_⟩
    rw [Cut.text_after, text, behind, List.cons_append, List.cons_append, List.cons_append,
      List.cons_append, List.append_assoc]
  fun_induction textBody (lineStyle q) t with
  | case1 => exact absurd rfl closed
  | case2 => exact ⟨[], .nil, rfl⟩
  | case3 => exact absurd rfl closed
  | case4 => exact absurd rfl closed
  | case5 c r slash spelled valid tail goes opened ih =>
    obtain rfl : c = '\\' := by simpa using slash
    exact escaped valid (by decide) (ih closed)
  | case6 c r slash spelled faulty tail goes opened ih =>
    obtain rfl : c = '\\' := by simpa using slash
    exact escaped faulty (by decide) (ih fun unclosed => closed (by rw [unclosed]; rfl))
  | case7 c r plain tail goes opened ih =>
    obtain ⟨body, inside, behind⟩ := ih closed
    refine ⟨c :: body, .plain (apart_of_opened opened plain) (not_stops_iff.mp goes) inside, ?_⟩
    rw [Cut.text_after, behind]
    rfl

/-- A quote that is reached over an escape is reached from behind it. -/
theorem reaches_rest_escape (reaches : Reaches q.char ('\\' :: t)) :
    Reaches q.char (escape (lineStyle q) t).2.rest := by
  obtain ⟨c, r, rfl, line, behind⟩ := reaches.of_backslash
  have goes : ¬ (lineStyle q).stops (c :: r) = true := not_stops_iff.mpr line
  obtain ⟨d, w, -, bland, -, whole⟩ := exists_escape_eq goes
  rw [(List.cons.inj whole).2] at behind
  exact behind.of_append bland

/-- A literal that is not closed has no quote to close it on its line. -/
theorem not_reaches_of_textBody (unclosed : (textBody (lineStyle q) t).1 = .unclosed) :
    ¬ Reaches q.char t := by
  fun_induction textBody (lineStyle q) t with
  | case1 t stopped => exact not_reaches_of_stops stopped
  | case2 => cases unclosed
  | case3 => exact not_reaches_nil
  | case4 c r slash spelled broken goes opened =>
    obtain rfl : c = '\\' := by simpa using slash
    exact fun reaches => not_reaches_of_stops (stops_of_escape broken) (reaches_rest_escape reaches)
  | case5 c r slash spelled valid tail goes opened ih =>
    obtain rfl : c = '\\' := by simpa using slash
    exact fun reaches => ih unclosed (reaches_rest_escape reaches)
  | case6 c r slash spelled faulty tail goes opened ih =>
    obtain rfl : c = '\\' := by simpa using slash
    exact fun reaches => ih (eq_unclosed_of_spoil unclosed) (reaches_rest_escape reaches)
  | case7 c r plain tail goes opened ih =>
    exact fun reaches => ih unclosed (reaches.of_cons (apart_of_opened opened plain))

/-- Behind a quote that stands alone the recognizer goes over the rest of the literal. -/
theorem read_char (single : ¬ [q.char, q.char] <+: t) :
    read (q.char :: t) = ofCut (textKind (TextForm.mk q false).literal (textBody (lineStyle q) t).1)
      ((textBody (lineStyle q) t).2.after [q.char]) :=
  read_delimiter (f := ⟨q, false⟩) fun _ => single

theorem unclosed_textBody_iff (single : ¬ [q.char, q.char] <+: t) :
    (textBody (lineStyle q) t).1 = .unclosed ↔ (read (q.char :: t)).kind = .fault .unclosedText := by
  rw [read_char single]
  cases (textBody (lineStyle q) t).1 <;> simp [ofCut, textKind]

theorem inLine_read_char (single : ¬ [q.char, q.char] <+: t) :
    ∀ c ∈ (read (q.char :: t)).text, inLine c = true := by
  rw [read_char single]
  exact List.forall_mem_cons.mpr ⟨q.inLine_char, inLine_textBody q t⟩

/-- A literal of one line is proper if it is written with items of the grammar. -/
theorem kind_read_char_eq_literal_iff (single : ¬ [q.char, q.char] <+: t) :
    (read (q.char :: t)).kind = .literal (TextForm.mk q false).literal ↔
      ∃ items, (∀ i ∈ items, TextItem.Fits ⟨q, false⟩ i) ∧
        (read (q.char :: t)).text = q.char :: (TextItem.written items ++ [q.char]) := by
  constructor
  · exact exists_items_of_read
  · rintro ⟨items, fits, text⟩
    have whole := text_append_rest_read (q.char :: t)
    rw [text, List.cons_append] at whole
    have content : TextForm.Content ⟨q, false⟩ items := ⟨fits, fun triple => nomatch triple⟩
    have proper := textBody_written content (read (q.char :: t)).rest
    rw [show TextForm.delimiter ⟨q, false⟩ = [q.char] from rfl, (List.cons.inj whole).2] at proper
    rw [read_char single, show lineStyle q = TextForm.style ⟨q, false⟩ from rfl, proper]
    rfl

/-- A literal of one line is unclosed if the line has no quote that closes it. -/
theorem kind_read_char_eq_unclosed_iff (single : ¬ [q.char, q.char] <+: t) :
    (read (q.char :: t)).kind = .fault .unclosedText ↔ ¬ Reaches q.char t := by
  rw [← unclosed_textBody_iff single]
  constructor
  · exact not_reaches_of_textBody
  · intro missing
    by_contra closed
    obtain ⟨body, inside, text⟩ := exists_inside_of_textBody closed
    have whole : (textBody (lineStyle q) t).2.text ++ _ = t := of_textBody _ t
    rw [text, List.append_assoc] at whole
    exact missing ⟨body, _, inside, whole.symm⟩

theorem text_read_char_of_unclosed (single : ¬ [q.char, q.char] <+: t)
    (unclosed : (read (q.char :: t)).kind = .fault .unclosedText) :
    (read (q.char :: t)).text = q.char :: t.takeWhile inLine := by
  rw [read_char single]
  exact congrArg (q.char :: ·) (text_textBody_of_unclosed ((unclosed_textBody_iff single).mpr unclosed))

/-- A literal of one line that is closed ends with the quote that closes it. -/
theorem exists_inside_of_read_char (single : ¬ [q.char, q.char] <+: t)
    (closed : (read (q.char :: t)).kind ≠ .fault .unclosedText) :
    ∃ body, Inside q.char body ∧ (read (q.char :: t)).text = q.char :: (body ++ [q.char]) := by
  obtain ⟨body, inside, text⟩ := exists_inside_of_textBody (mt (unclosed_textBody_iff single).mp closed)
  refine ⟨body, inside, ?_⟩
  rw [read_char single]
  exact congrArg (q.char :: ·) text

/-- There are three ways in which a literal of one line comes out. -/
theorem kind_read_char_cases (single : ¬ [q.char, q.char] <+: t) :
    (read (q.char :: t)).kind = .literal (TextForm.mk q false).literal ∨
      (read (q.char :: t)).kind = .fault .unclosedText ∨
      (read (q.char :: t)).kind = .fault .invalidText := by
  rw [read_char single]
  cases (textBody (lineStyle q) t).1 with
  | proper => exact .inl rfl
  | unclosed => exact .inr (.inl rfl)
  | faulty => exact .inr (.inr rfl)

end Lexeme

end TagLang
