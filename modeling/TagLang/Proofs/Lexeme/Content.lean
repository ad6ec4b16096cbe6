import TagLang.Proofs.Lexeme.Origin
import TagLang.Proofs.Lexeme.Replaced
import TagLang.Proofs.Text.Content

/-!
# Text literals and their content

A text literal is recognized as proper if and only if its content is written with the items
of its grammar. Items are read back one by one (`textBody_written`), whatever follows the
literal; and where the recognizer comes to a proper end it has gone over items only
(`exists_items_of_textBody`).
-/

namespace TagLang

namespace TextForm

/-- Where a literal of this form has to end. -/
def style (f : TextForm) : Lexeme.TextStyle := ⟨f.delimiter, f.multiline⟩

/-- The items are the content of a literal of this form: each fits, and where three quotes
delimit it, those behind the items are the first three outside of escapes. -/
structure Content (f : TextForm) (items : List TextItem) : Prop where
  fits : ∀ i ∈ items, i.Fits f
  closes : f.multiline = true → ∀ later, later <:+ items → later ≠ [] →
    ¬ f.delimiter <+: TextItem.written later ++ f.delimiter

variable {f : TextForm} {i : TextItem} {items : List TextItem}

namespace Content

theorem tail (content : f.Content (i :: items)) : f.Content items where
  fits := (List.forall_mem_cons.mp content.fits).2
  closes triple later suffix := content.closes triple later (suffix.trans (List.suffix_cons i items))

/-- The delimiter behind a content is the first one outside of escapes. -/
theorem first (content : f.Content (i :: items)) :
    ¬ f.delimiter <+: TextItem.written (i :: items) ++ f.delimiter := by
  cases line : f.multiline with
  | true => exact content.closes line _ (List.suffix_refl _) (List.cons_ne_nil _ _)
  | false =>
    obtain ⟨c, w, spelled, apart⟩ :=
      TextItem.exists_spelling_eq (content.fits i List.mem_cons_self) line
    rw [delimiter, line, TextItem.written_cons, spelled]
    exact fun begins => apart (List.cons_prefix_cons.mp begins).1.symm

/-- The first item does not close the literal, whatever follows the literal. -/
theorem not_prefix (content : f.Content (i :: items)) (s : List Char) :
    ¬ f.delimiter <+: i.spelling ++ (TextItem.written items ++ f.delimiter ++ s) := by
  have opened := content.first
  rw [TextItem.written_cons] at opened
  intro begins
  rw [← List.append_assoc, ← List.append_assoc] at begins
  have short : f.delimiter.length ≤
      (i.spelling ++ TextItem.written items ++ f.delimiter).length := by
    rw [List.length_append]
    exact Nat.le_add_left _ _
  exact opened (List.prefix_of_prefix_length_le begins (List.prefix_append _ _) short)

end Content

end TextForm

namespace Lexeme

variable {style : TextStyle} {f : TextForm} {i : TextItem} {items : List TextItem}
  {s t w : List Char}

theorem hexDigits_append (hex : w.all isHexDigit = true) (s : List Char) :
    hexDigits w.length (w ++ s) = ⟨w, s⟩ := by
  induction w with
  | nil => rfl
  | cons d w ih =>
    obtain ⟨first, others⟩ := Bool.and_eq_true_iff.mp hex
    rw [List.length_cons, List.cons_append, hexDigits, if_pos first, ih others]
    rfl

theorem all_hexDigits (n : Nat) (t : List Char) :
    (hexDigits n t).text.all isHexDigit = true := by
  induction n generalizing t with
  | zero => rfl
  | succ n ih =>
    cases t with
    | nil => rfl
    | cons c t =>
      rw [hexDigits]
      split
      · exact Bool.and_eq_true_iff.mpr ⟨‹_›, ih t⟩
      · rfl

/-- A literal goes on over a character that is no line break. -/
theorem TextStyle.not_stops_cons (style : TextStyle) {c : Char} (inLine : c ≠ '\n' ∧ c ≠ '\r')
    (t : List Char) : ¬ style.stops (c :: t) = true := by
  simp [TextStyle.stops, inLine]

/-- An escape is read as the item that is written so, whatever follows it. -/
theorem escape_spelling (style : TextStyle) (fits : i.Fits f) (spelled : i.spelling = '\\' :: w)
    (s : List Char) : escape style (w ++ s) = (.valid, ⟨w, s⟩) := by
  cases i with
  | plain c =>
    cases spelled
    exact absurd rfl fits.1
  | simple e =>
    cases spelled
    have inLine : e.letter ≠ '\n' ∧ e.letter ≠ '\r' := by cases e <;> decide
    have step := escape_simple (style.not_stops_cons inLine s) e.letter_ne_u
    rwa [if_pos e.isSimpleEscape_letter] at step
  | coded ds =>
    cases spelled
    obtain ⟨length, hex⟩ := fits
    have apart : (ds ++ s).head?.any (· == '{') = false := by
      cases ds with
      | nil => cases length
      | cons d ds =>
        have digit : isHexDigit d = true := (Bool.and_eq_true_iff.mp hex).1
        refine Bool.eq_false_iff.mpr fun brace => ?_
        rw [show d = '{' by simpa using brace] at digit
        cases digit
    have read := hexDigits_append hex s
    rw [length] at read
    rw [List.cons_append, escape_point, point_of_apart apart, codedPoint, read]
    dsimp only
    rw [if_pos length]
    rfl
  | named name =>
    cases spelled
    obtain ⟨ne, body⟩ := fits
    obtain ⟨a, name, rfl⟩ := List.exists_cons_of_ne_nil ne
    have read : Cut.run Unicode.isAlphanumeric (a :: name ++ '}' :: s) = ⟨a :: name, '}' :: s⟩ :=
      Cut.run_append body rfl
    rw [List.cons_append, List.cons_append, ← List.append_cons, escape_point, point_brace, read,
      bracedPoint_of_closed]
    rfl

/-- A proper escape is written as an item is, in literals of any form. -/
theorem exists_item_of_escape (valid : (escape style t).1 = .valid) :
    ∃ i : TextItem, (∀ f, i.Fits f) ∧ i.spelling = '\\' :: (escape style t).2.text := by
  by_cases stopped : style.stops t = true
  · rw [escape_of_stops stopped] at valid
    cases valid
  cases t with
  | nil => exact absurd rfl stopped
  | cons c t =>
    by_cases announced : c = 'u'
    · subst announced
      rw [escape_point] at valid ⊢
      by_cases brace : t.head?.any (· == '{') = true
      · obtain ⟨t, rfl⟩ := exists_eq_cons brace
        rw [point_brace] at valid ⊢
        have all := Cut.all_run Unicode.isAlphanumeric t
        generalize Cut.run Unicode.isAlphanumeric t = name at valid all ⊢
        unfold bracedPoint at valid ⊢
        split at valid
        · rename_i a more r text rest
          refine ⟨.named name.text, fun f => ⟨?_, all⟩, ?_⟩
          · rw [text]
            exact List.cons_ne_nil a more
          · simp [text, TextItem.spelling]
        · dsimp only [brokenOff] at valid
          split at valid <;> cases valid
      · rw [point_of_apart (Bool.eq_false_iff.mpr brace), codedPoint] at valid ⊢
        dsimp only at valid ⊢
        split at valid
        · rename_i four
          exact ⟨.coded (hexDigits 4 t).text, fun f => ⟨four, all_hexDigits 4 t⟩, rfl⟩
        · rw [brokenOff] at valid
          split at valid <;> cases valid
    · rw [escape_simple stopped announced] at valid ⊢
      dsimp only at valid
      split at valid
      · rename_i simple
        obtain ⟨e, rfl⟩ := SimpleEscape.exists_letter_eq simple
        exact ⟨.simple e, fun f => trivial, rfl⟩
      · cases valid

/-- A literal goes on over an item that its closing delimiter does not begin in. -/
theorem textBody_spelling (fits : i.Fits f) (opened : ¬ f.delimiter <+: i.spelling ++ s) :
    textBody f.style (i.spelling ++ s) =
      ((textBody f.style s).1, (textBody f.style s).2.after i.spelling) := by
  have opened : ¬ f.style.closing.isPrefixOf (i.spelling ++ s) = true :=
    mt List.isPrefixOf_iff_prefix.mp opened
  -- an escape is one round of the recognizer
  have escaped {w : List Char} (spelled : i.spelling = '\\' :: w) :
      textBody f.style (i.spelling ++ s) =
        ((textBody f.style s).1, (textBody f.style s).2.after i.spelling) := by
    rw [spelled] at opened ⊢
    have step := textBody_cons (f.style.not_stops_cons (by decide) (w ++ s)) opened
    rwa [if_pos (beq_self_eq_true _), escape_spelling f.style fits spelled s] at step
  cases i with
  | simple e => exact escaped rfl
  | coded ds => exact escaped rfl
  | named name => exact escaped rfl
  | plain c =>
    have goes : ¬ f.style.stops (c :: s) = true := by
      cases line : f.multiline with
      | true => simp [TextStyle.stops, TextForm.style, line]
      | false => exact f.style.not_stops_cons (fits.2 line).2 s
    have step := textBody_cons goes opened
    rwa [if_neg (by simpa using fits.1)] at step

/-- A content and the delimiter behind it are recognized as they are written. -/
theorem textBody_written (content : f.Content items) (s : List Char) :
    textBody f.style (TextItem.written items ++ f.delimiter ++ s) =
      (.proper, ⟨TextItem.written items ++ f.delimiter, s⟩) := by
  induction items with
  | nil =>
    have goes : ¬ f.style.stops (f.delimiter ++ s) = true := by
      obtain ⟨w, delimiter⟩ := f.exists_delimiter_eq
      rw [delimiter]
      exact f.style.not_stops_cons f.quote.char_ne.2 (w ++ s)
    exact textBody_of_closing goes
  | cons i items ih =>
    have step := textBody_spelling (content.fits i List.mem_cons_self) (content.not_prefix s)
    rw [ih content.tail] at step
    rw [TextItem.written_cons, List.append_assoc, List.append_assoc, ← List.append_assoc _ _ s, step]
    simp only [Cut.after, List.append_assoc]

/-- Where the recognizer comes to a proper end, it has gone over items of the grammar. -/
theorem exists_items_of_textBody (proper : (textBody f.style t).1 = .proper) :
    ∃ items, (∀ i ∈ items, TextItem.Fits f i) ∧
      (textBody f.style t).2.text = TextItem.written items ++ f.delimiter := by
  fun_induction textBody f.style t with
  | case1 => cases proper
  | case2 => exact ⟨[], List.forall_mem_nil _, rfl⟩
  | case3 => cases proper
  | case4 => cases proper
  | case5 c r slash spelled valid tail goes opened ih =>
    obtain rfl : c = '\\' := by simpa using slash
    obtain ⟨i, fits, spelling⟩ := exists_item_of_escape valid
    obtain ⟨items, others, text⟩ := ih proper
    refine ⟨i :: items, List.forall_mem_cons.mpr ⟨fits f, others⟩, ?_⟩
    rw [Cut.text_after, text, TextItem.written_cons, spelling, List.append_assoc]
  | case6 c r slash spelled faulty tail goes opened ih =>
    cases verdict : tail.1 <;> simp [verdict, TextVerdict.spoil] at proper
  | case7 c r plain tail goes opened ih =>
    obtain ⟨items, others, text⟩ := ih proper
    have admitted : f.Admits c := by
      refine ⟨by simpa using plain, fun line => ⟨?_, ?_⟩⟩
      · rintro rfl
        refine opened (List.isPrefixOf_iff_prefix.mpr ?_)
        rw [TextForm.style, TextForm.delimiter, line]
        exact ⟨r, rfl⟩
      · simpa [TextForm.style, TextStyle.stops, line] using goes
    refine ⟨.plain c :: items, List.forall_mem_cons.mpr ⟨admitted, others⟩, ?_⟩
    rw [Cut.text_after, text, TextItem.written_cons, List.append_assoc]
    rfl

theorem read_quote (q : TextQuote) (s : List Char) : read (q.char :: s) = quoted q.char s := by
  have plain : isBlank q.char = false ∧ (Unicode.isAlphabetic q.char || q.char == '_') = false ∧
      q.char.isDigit = false ∧ (q.char == '"' || q.char == '\'') = true := by
    cases q <;> decide
  obtain ⟨blank, letter, digit, quote⟩ := plain
  rw [read, blank, letter, digit, quote]
  rfl

/-- Two more quotes open a literal in triple delimiters. -/
def Single (f : TextForm) (s : List Char) : Prop :=
  f.multiline = false → ¬ [f.quote.char, f.quote.char] <+: s

/-- Behind its opening delimiter a text literal is recognized by its body. -/
theorem read_delimiter (single : Single f s) :
    read (f.delimiter ++ s) = ofCut (textKind f.literal (textBody f.style s).1)
      ((textBody f.style s).2.after f.delimiter) := by
  obtain ⟨q, multiline⟩ := f
  cases multiline with
  | true =>
    have triple : [q.char, q.char].isPrefixOf ([q.char, q.char] ++ s) = true :=
      List.isPrefixOf_iff_prefix.mpr (List.prefix_append _ _)
    refine (read_quote q ([q.char, q.char] ++ s)).trans ?_
    rw [quoted, if_pos triple]
    cases q <;> rfl
  | false =>
    have alone : ¬ [q.char, q.char].isPrefixOf s = true :=
      mt List.isPrefixOf_iff_prefix.mp (single rfl)
    refine (read_quote q s).trans ?_
    rw [quoted, if_neg alone]
    cases q <;> rfl

/-- A text literal is read where the delimiter of its form opens a proper one. -/
theorem exists_textBody_of_read (h : (read t).kind = .literal f.literal) :
    ∃ s, t = f.delimiter ++ s ∧ Single f s ∧ (textBody f.style s).1 = .proper := by
  have origin : f.literal.origin = .quote := by
    obtain ⟨q, multiline⟩ := f
    cases q <;> cases multiline <;> rfl
  obtain ⟨c, r, rfl, mark, -⟩ := read_eq_quoted h origin
  obtain ⟨q, rfl⟩ : ∃ q : TextQuote, q.char = c := by
    rcases mark with rfl | rfl
    · exact ⟨.double, rfl⟩
    · exact ⟨.single, rfl⟩
  have opens : ∃ multiline s, q.char :: r = TextForm.delimiter ⟨q, multiline⟩ ++ s ∧
      Single ⟨q, multiline⟩ s := by
    by_cases triple : [q.char, q.char] <+: r
    · obtain ⟨s, rfl⟩ := triple
      exact ⟨true, s, rfl, fun line => nomatch line⟩
    · exact ⟨false, r, rfl, fun _ => triple⟩
  obtain ⟨multiline, s, whole, single⟩ := opens
  rw [whole, read_delimiter single] at h
  obtain ⟨same, proper⟩ := eq_of_textKind h
  have same : TextForm.mk q multiline = f := by
    obtain ⟨q', multiline'⟩ := f
    cases q <;> cases multiline <;> cases q' <;> cases multiline' <;> first | rfl | cases same
  subst same
  exact ⟨s, whole, single, proper⟩

/-- Any text literal is written with items of the grammar between its delimiters. -/
theorem exists_items_of_read (h : (read t).kind = .literal f.literal) :
    ∃ items, (∀ i ∈ items, TextItem.Fits f i) ∧
      (read t).text = f.delimiter ++ TextItem.written items ++ f.delimiter := by
  obtain ⟨s, rfl, single, proper⟩ := exists_textBody_of_read h
  obtain ⟨items, fits, text⟩ := exists_items_of_textBody proper
  refine ⟨items, fits, ?_⟩
  rw [read_delimiter single]
  exact (congrArg (f.delimiter ++ ·) text).trans (List.append_assoc _ _ _).symm

/-- A content between its delimiters is read as a text literal, whatever follows. -/
theorem read_written (content : f.Content items)
    (apart : f.multiline = false → items = [] → f.quote.char ∉ s.head?) :
    read (f.delimiter ++ TextItem.written items ++ f.delimiter ++ s) =
      ⟨.literal f.literal, f.delimiter ++ TextItem.written items ++ f.delimiter, s⟩ := by
  have single : Single f (TextItem.written items ++ f.delimiter ++ s) := by
    intro line begins
    cases items with
    | nil =>
      rw [TextForm.delimiter, line] at begins
      obtain ⟨w, rfl⟩ : [f.quote.char] <+: s := (List.cons_prefix_cons.mp begins).2
      exact apart line rfl rfl
    | cons i items =>
      obtain ⟨c, w, spelled, other⟩ :=
        TextItem.exists_spelling_eq (content.fits i List.mem_cons_self) line
      rw [TextItem.written_cons, spelled] at begins
      exact other (List.cons_prefix_cons.mp begins).1.symm
  have read := read_delimiter single
  rw [textBody_written content, ← List.append_assoc, ← List.append_assoc] at read
  rw [read]
  simp [ofCut, textKind]

end Lexeme

end TagLang
