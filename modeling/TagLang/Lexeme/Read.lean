import TagLang.Lexeme.DateTime
import TagLang.Lexeme.Delimited
import TagLang.Lexeme.Number
import TagLang.Lexeme.Quoted

/-!
# The lexeme at the head of a text

`Lexeme.read` decides by the first characters which family a lexeme belongs to.
At the end of the text it gives the empty end-of-file lexeme for ever; anywhere
else it takes at least one character and loses none (`splits_read`).
-/

namespace TagLang.Lexeme

/-- A run of blanks. -/
def blanks (s : List Char) : Lexeme := ofCut .whiteSpace (Cut.run isBlank s)

/-- The lexemes that begin with a mark of their own: code, templates, regular
expressions, comments, hash tags and dates. -/
def marked? : List Char → Option Lexeme
  | '\x60' :: r => some (code r)
  | '{' :: '{' :: '{' :: r => some (template r)
  | '~' :: '/' :: r => some (regularExpression r)
  | '/' :: '/' :: r => some (lineComment r)
  | '/' :: '*' :: r => some (blockComment r)
  | '#' :: r => hashTag? r
  | '$' :: r => dateTime? r
  | _ => none

/-- The longest mark, or else one character that nothing begins with. -/
def mark (c : Char) (r : List Char) : Lexeme :=
  match Mark.longest? (c :: r) with
  | some m => ⟨.mark m, m.spelling, (c :: r).drop m.spelling.length⟩
  | none => ⟨.fault .unexpectedCharacter, [c], r⟩

/-- The first lexeme of a text. -/
def read : List Char → Lexeme
  | [] => ⟨.eof, [], []⟩
  | c :: r =>
    if isBlank c then blanks (c :: r)
    else if Unicode.isAlphabetic c || c == '_' then word (c :: r)
    else if c.isDigit then number (c :: r)
    else if c == '"' || c == '\'' then quoted c r
    else (marked? (c :: r)).getD (mark c r)

@[simp] theorem read_nil : read [] = ⟨.eof, [], []⟩ := rfl

/-- The family of the lexemes that begin with a character: what it is recognized by, and how its
lexemes are read, whatever follows the character. -/
inductive Family (c : Char) : Prop
  | blanks (blank : isBlank c = true) (reads : ∀ r, read (c :: r) = blanks (c :: r))
  | word (start : (Unicode.isAlphabetic c || c == '_') = true)
      (reads : ∀ r, read (c :: r) = word (c :: r))
  | number (digit : c.isDigit = true) (reads : ∀ r, read (c :: r) = number (c :: r))
  | quoted (quote : (c == '"' || c == '\'') = true) (reads : ∀ r, read (c :: r) = quoted c r)
  | marked (reads : ∀ r, read (c :: r) = (marked? (c :: r)).getD (mark c r))

/-- The first character of a lexeme decides its family. -/
theorem family (c : Char) : Family c := by
  by_cases blank : isBlank c = true
  · exact .blanks blank fun r => by rw [read, if_pos blank]
  by_cases start : (Unicode.isAlphabetic c || c == '_') = true
  · exact .word start fun r => by rw [read, if_neg blank, if_pos start]
  by_cases digit : c.isDigit = true
  · exact .number digit fun r => by rw [read, if_neg blank, if_neg start, if_pos digit]
  by_cases quote : (c == '"' || c == '\'') = true
  · exact .quoted quote fun r => by
      rw [read, if_neg blank, if_neg start, if_neg digit, if_pos quote]
  · exact .marked fun r => by
      rw [read, if_neg blank, if_neg start, if_neg digit, if_neg quote]

theorem splits_blanks {c : Char} {r : List Char} (h : isBlank c = true) :
    (blanks (c :: r)).Splits (c :: r) :=
  splits_ofCut (Cut.of_run _ _) (by simp [Cut.run, h])

theorem splits_of_marked? {s : List Char} {x : Lexeme} (h : marked? s = some x) : x.Splits s := by
  unfold marked? at h
  split at h
  · cases h
    exact splits_delimited (by simp) _ _ _ _
  · cases h
    exact splits_delimited (by simp) _ _ _ _
  · cases h
    exact splits_regularExpression _
  · cases h
    exact splits_lineComment _
  · cases h
    exact splits_delimited (by simp) _ _ _ _
  · exact splits_of_hashTag? h
  · exact splits_of_dateTime? h
  · cases h

theorem splits_mark (c : Char) (r : List Char) : (mark c r).Splits (c :: r) := by
  unfold mark
  split
  · rename_i m hm
    obtain ⟨t, ht⟩ := Mark.begins_of_longest? hm
    exact ⟨by simp [← ht], m.spelling_ne_nil⟩
  · exact ⟨rfl, by simp⟩

/-- Reading takes at least one character and loses none. -/
theorem splits_read {c : Char} {r : List Char} : (read (c :: r)).Splits (c :: r) := by
  cases family c with
  | blanks blank reads =>
    rw [reads]
    exact splits_blanks blank
  | word start reads =>
    rw [reads]
    refine splits_word ?_
    rcases Bool.or_eq_true_iff.mp start with letter | underscore
    · exact isWordBody_of_isAlphabetic letter
    · simp [isWordBody, underscore]
  | number digit reads =>
    rw [reads]
    exact splits_number digit
  | quoted quote reads =>
    rw [reads]
    exact splits_quoted c r
  | marked reads =>
    rw [reads]
    cases found : marked? (c :: r) with
    | none => exact splits_mark c r
    | some x => exact splits_of_marked? found

theorem text_append_rest_read (s : List Char) : (read s).text ++ (read s).rest = s := by
  cases s with
  | nil => rfl
  | cons c r => exact splits_read.1

theorem rest_read_eq_drop (s : List Char) : (read s).rest = s.drop (read s).text.length := by
  conv => rhs; arg 2; rw [← text_append_rest_read s]
  simp

theorem text_read_eq_nil_iff {s : List Char} : (read s).text = [] ↔ s = [] := by
  cases s with
  | nil => simp
  | cons c r => simpa using splits_read.2

end TagLang.Lexeme
