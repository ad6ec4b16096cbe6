import TagLang.Lexeme.Read

/-!
# Where literals come from

Each form of literals is recognized in one place: literals of numbers where a digit stands,
text literals where a quote does. So a token of such a form says how it was read.
-/

namespace TagLang

namespace LiteralForm

/-- What a literal begins with: a word, a digit, a quote or a mark. -/
inductive Origin
  | word | number | quote | mark
deriving DecidableEq, Repr

/-- The beginning of the literals of a form. -/
def origin : LiteralForm → Origin
  | .anonymous => .word
  | .binaryInteger | .decimalInteger | .hexInteger | .number | .version => .number
  | .doubleQuoted | .singleQuoted | .doubleQuotedMultiline | .singleQuotedMultiline => .quote
  | .code | .dateTime | .regularExpression | .template => .mark

end LiteralForm

namespace Lexeme

variable {form : LiteralForm} {c : Char} {r s : List Char}

theorem origin_of_word (h : (word s).kind = .literal form) : form.origin = .word := by
  unfold word at h
  dsimp only at h
  split at h
  · cases h
    rfl
  · simp only [ofCut, wordKind] at h
    split at h
    · cases h
    · split at h <;> cases h

theorem origin_of_decimal (h : (decimal s).kind = .literal form) : form.origin = .number := by
  unfold decimal at h
  dsimp only at h
  repeat' split at h
  all_goals
    cases h
    rfl

theorem kind_of_radixInteger? {x : Lexeme} (found : radixInteger? s = some x) :
    x.kind = .literal .binaryInteger ∨ x.kind = .literal .hexInteger := by
  unfold radixInteger? at found
  split at found
  · split at found
    · cases found
      exact .inl rfl
    · split at found
      · cases found
        exact .inr rfl
      · cases found
  · cases found

theorem origin_of_radixInteger? {x : Lexeme} (found : radixInteger? s = some x)
    (h : x.kind = .literal form) : form.origin = .number := by
  rcases kind_of_radixInteger? found with binary | hex
  · cases binary.symm.trans h
    rfl
  · cases hex.symm.trans h
    rfl

theorem origin_of_number (h : (number s).kind = .literal form) : form.origin = .number := by
  rw [number] at h
  cases found : radixInteger? s with
  | some x =>
    rw [found] at h
    exact origin_of_radixInteger? found h
  | none =>
    rw [found] at h
    exact origin_of_decimal h

theorem eq_of_textKind {form' : LiteralForm} {v : TextVerdict}
    (h : textKind form' v = .literal form) : form' = form ∧ v = .proper := by
  cases v with
  | proper =>
    cases h
    exact ⟨rfl, rfl⟩
  | faulty => cases h
  | unclosed => cases h

theorem origin_of_quoted (h : (quoted c r).kind = .literal form) : form.origin = .quote := by
  unfold quoted at h
  split at h
  all_goals
    obtain ⟨rfl, -⟩ := eq_of_textKind h
    split <;> rfl

theorem eq_of_delimited {opening terminator : List Char} {closed : TokenKind}
    {unclosed : LexicalFault} (h : (delimited opening terminator closed unclosed s).kind =
      .literal form) : closed = .literal form := by
  unfold delimited at h
  split at h
  · exact h
  · cases h

/-- How the literals with a mark of their own are recognized. -/
inductive MarkedAs (s : List Char) (x : Lexeme) : LiteralForm → Prop
  | code : MarkedAs s x .code
  | template : MarkedAs s x .template
  | regularExpression : MarkedAs s x .regularExpression
  | dateTime (r : List Char) (here : s = '$' :: r) (found : dateTime? r = some x) :
      MarkedAs s x .dateTime

theorem markedAs_of_literal {x : Lexeme} (found : marked? s = some x)
    (h : x.kind = .literal form) : MarkedAs s x form := by
  unfold marked? at found
  split at found
  · cases found
    cases eq_of_delimited h
    exact .code
  · cases found
    cases eq_of_delimited h
    exact .template
  · cases found
    unfold regularExpression at h
    dsimp only at h
    split at h <;> cases h
    exact .regularExpression
  · cases found
    cases h
  · cases found
    have closed := eq_of_delimited h
    split at closed <;> cases closed
  · unfold hashTag? at found
    split at found
    · cases found
    · split at found <;> cases found
      cases h
  · rename_i r
    have dated : form = .dateTime := by
      unfold dateTime? at found
      split at found
      · cases found
        simp only [ofCut, dateTimeKind] at h
        repeat' split at h
        all_goals first | cases h; done | (cases h; rfl)
      · cases found
    rw [dated]
    exact .dateTime r rfl found
  · cases found

theorem origin_of_marked? {x : Lexeme} (found : marked? s = some x) (h : x.kind = .literal form) :
    form.origin = .mark := by
  cases markedAs_of_literal found h <;> rfl

theorem kind_mark_ne_literal (c : Char) (r : List Char) : (mark c r).kind ≠ .literal form := by
  unfold mark
  split <;> exact fun h => nomatch h

/-- How the literals of an origin are read. -/
inductive ReadAs (c : Char) (r : List Char) : LiteralForm.Origin → Prop
  | word : ReadAs c r .word
  | number (digit : c.isDigit = true) (read : read (c :: r) = number (c :: r)) : ReadAs c r .number
  | quote (mark : c = '"' ∨ c = '\'') (read : read (c :: r) = quoted c r) : ReadAs c r .quote
  | mark (read : marked? (c :: r) = some (read (c :: r))) : ReadAs c r .mark

/-- A literal is read by the recognizer of what it begins with. -/
theorem readAs_of_literal (h : (read (c :: r)).kind = .literal form) : ReadAs c r form.origin := by
  cases family c with
  | blanks blank reads =>
    rw [reads] at h
    cases h
  | word start reads =>
    rw [reads] at h
    rw [origin_of_word h]
    exact .word
  | number digit reads =>
    rw [reads] at h
    rw [origin_of_number h]
    exact .number digit (reads r)
  | quoted quote reads =>
    rw [reads] at h
    rw [origin_of_quoted h]
    exact .quote (by simpa using quote) (reads r)
  | marked reads =>
    have here := reads r
    cases found : marked? (c :: r) with
    | none =>
      rw [here, found] at h
      exact absurd h (kind_mark_ne_literal c r)
    | some x =>
      rw [found, Option.getD_some] at here
      rw [here] at h
      rw [origin_of_marked? found h]
      exact .mark (found.trans (congrArg some here.symm))

theorem ne_nil_of_literal (h : (read s).kind = .literal form) : s ≠ [] := by
  rintro rfl
  cases h

/-- A literal of numbers is read where a digit stands. -/
theorem read_eq_number (h : (read s).kind = .literal form) (origin : form.origin = .number) :
    ∃ d r, s = d :: r ∧ d.isDigit = true ∧ read s = number s := by
  obtain ⟨c, r, rfl⟩ := List.exists_cons_of_ne_nil (ne_nil_of_literal h)
  have here := readAs_of_literal h
  rw [origin] at here
  cases here with
  | number digit read => exact ⟨c, r, rfl, digit, read⟩

/-- A text literal is read where a quote stands. -/
theorem read_eq_quoted (h : (read s).kind = .literal form) (origin : form.origin = .quote) :
    ∃ q r, s = q :: r ∧ (q = '"' ∨ q = '\'') ∧ read s = quoted q r := by
  obtain ⟨c, r, rfl⟩ := List.exists_cons_of_ne_nil (ne_nil_of_literal h)
  have here := readAs_of_literal h
  rw [origin] at here
  cases here with
  | quote mark read => exact ⟨c, r, rfl, mark, read⟩

/-- A literal with a mark of its own is read where the mark stands. -/
theorem marked?_eq_read (h : (read s).kind = .literal form) (origin : form.origin = .mark) :
    marked? s = some (read s) := by
  obtain ⟨c, r, rfl⟩ := List.exists_cons_of_ne_nil (ne_nil_of_literal h)
  have here := readAs_of_literal h
  rw [origin] at here
  cases here with
  | mark read => exact read

end Lexeme

end TagLang
