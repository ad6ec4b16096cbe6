import TagLang.Lexeme.Read

/-!
# Lexemes with a fixed spelling

A mark or a reserved word is always spelled in the one way its kind says, and
only the empty text at the end of a source has the kind of the end. Only words and hash
tags name something, so an identifier begins with a letter or an underscore.
-/

namespace TagLang

namespace TokenKind

/-- The kinds whose lexemes differ in their spelling. -/
def isFree : TokenKind → Bool
  | .eof | .mark _ | .word _ => false
  | _ => true

/-- The kinds of lexemes that name something. -/
def names : TokenKind → Bool
  | .identifier | .tag => true
  | _ => false

/-- The kinds of blanks, comments, literals and faults. -/
def isContent : TokenKind → Bool
  | .whiteSpace | .lineComment | .blockComment | .documentation | .literal _ | .fault _ => true
  | _ => false

theorem isFree_of_isContent {k : TokenKind} (h : k.isContent = true) : k.isFree = true := by
  cases k <;> first | rfl | cases h

theorem names_eq_false_of_isContent {k : TokenKind} (h : k.isContent = true) :
    k.names = false := by
  cases k <;> first | rfl | cases h

end TokenKind

namespace Lexeme

/-- The kind leaves the spelling open, or it says what the text is. -/
inductive Fixed (x : Lexeme) : Prop
  | free (h : x.kind.isFree = true)
  | mark (m : Mark) (kind : x.kind = .mark m) (text : x.text = m.spelling)
  | word (w : Keyword) (kind : x.kind = .word w) (text : x.text = w.spelling)

variable {c : Char} {r s : List Char} {x : Lexeme}

theorem content_number (s : List Char) : (number s).kind.isContent = true := by
  unfold number
  cases hr : radixInteger? s with
  | some x =>
      unfold radixInteger? at hr
      repeat' split at hr
      all_goals cases hr
      all_goals rfl
  | none =>
      simp only [Option.getD_none, decimal]
      repeat' split
      all_goals rfl

theorem content_quoted (quote : Char) (r : List Char) :
    (quoted quote r).kind.isContent = true := by
  have text (form : LiteralForm) (v : TextVerdict) : (textKind form v).isContent = true := by
    cases v <;> rfl
  unfold quoted
  split <;> exact text _ _

theorem content_delimited {opening terminator : List Char} {closed : TokenKind}
    {unclosed : LexicalFault} (h : closed.isContent = true) :
    (delimited opening terminator closed unclosed s).kind.isContent = true := by
  unfold delimited
  split
  · exact h
  · rfl

theorem content_of_dateTime? (found : dateTime? s = some x) : x.kind.isContent = true := by
  unfold dateTime? at found
  split at found
  · cases found
    simp only [ofCut, dateTimeKind]
    repeat' split
    all_goals rfl
  · cases found

theorem kind_of_hashTag? (found : hashTag? s = some x) : x.kind = .tag := by
  unfold hashTag? at found
  split at found
  · cases found
  · split at found
    · cases found
      rfl
    · cases found

/-- What begins with a mark of its own is content, or else a hash tag. -/
theorem content_of_marked? (found : marked? s = some x) :
    x.kind.isContent = true ∨ ∃ r, s = '#' :: r ∧ hashTag? r = some x := by
  unfold marked? at found
  split at found
  · cases found
    exact .inl (content_delimited rfl)
  · cases found
    exact .inl (content_delimited rfl)
  · cases found
    refine .inl ?_
    unfold regularExpression
    dsimp only
    split <;> rfl
  · cases found
    exact .inl rfl
  · cases found
    refine .inl (content_delimited ?_)
    split <;> rfl
  · exact .inr ⟨_, rfl, found⟩
  · exact .inl (content_of_dateTime? found)
  · cases found

/-- Content has no spelling of its own. -/
theorem fixed_of_content (content : x.kind.isContent = true) : x.Fixed :=
  .free (TokenKind.isFree_of_isContent content)

theorem fixed_word (s : List Char) : (word s).Fixed := by
  unfold word
  dsimp only
  split
  · exact .free rfl
  · cases hw : Keyword.ofSpelling? (wordSpan s).text with
    | some w =>
        refine .word w ?_ (Keyword.ofSpelling?_eq_some_iff.mp hw)
        simp [ofCut, wordKind, hw]
    | none =>
        refine .free ?_
        simp only [ofCut, wordKind, hw]
        split <;> rfl

theorem fixed_of_marked? (found : marked? s = some x) : x.Fixed := by
  rcases content_of_marked? found with content | ⟨r, -, hash⟩
  · exact fixed_of_content content
  · exact .free (by rw [kind_of_hashTag? hash]; rfl)

theorem fixed_mark (c : Char) (r : List Char) : (mark c r).Fixed := by
  unfold mark
  split
  · exact .mark _ rfl rfl
  · exact .free rfl

theorem fixed_read (c : Char) (r : List Char) : (read (c :: r)).Fixed := by
  cases family c with
  | blanks blank reads =>
    rw [reads]
    exact .free rfl
  | word start reads =>
    rw [reads]
    exact fixed_word _
  | number digit reads =>
    rw [reads]
    exact fixed_of_content (content_number _)
  | quoted quote reads =>
    rw [reads]
    exact fixed_of_content (content_quoted _ _)
  | marked reads =>
    rw [reads]
    cases found : marked? (c :: r) with
    | none => exact fixed_mark c r
    | some x => exact fixed_of_marked? found

theorem kind_read_eq_eof_iff {s : List Char} : (read s).kind = .eof ↔ s = [] := by
  cases s with
  | nil => simp
  | cons c r =>
      have fixed := fixed_read c r
      constructor
      · intro h
        cases fixed with
        | free free => simp [h, TokenKind.isFree] at free
        | mark m kind => simp [h] at kind
        | word w kind => simp [h] at kind
      · intro h
        cases h

/-- What names something is a word at a letter or an underscore, or else a hash tag. -/
theorem names_cases (names : (read (c :: r)).kind.names = true) :
    (Unicode.isAlphabetic c || c == '_') = true ∨
      c = '#' ∧ hashTag? r = some (read (c :: r)) := by
  have refuted {P : Prop} {k : TokenKind} (named : k.names = true) (content : k.isContent = true) :
      P :=
    absurd (named.symm.trans (TokenKind.names_eq_false_of_isContent content)) (by decide)
  cases family c with
  | blanks blank reads =>
    rw [reads] at names
    cases names
  | word start reads => exact .inl start
  | number digit reads =>
    rw [reads] at names
    exact refuted names (content_number _)
  | quoted quote reads =>
    rw [reads] at names
    exact refuted names (content_quoted c r)
  | marked reads =>
    rw [reads] at names ⊢
    cases found : marked? (c :: r) with
    | none =>
      rw [found, Option.getD_none, mark] at names
      split at names <;> cases names
    | some x =>
      rw [found, Option.getD_some] at names
      rcases content_of_marked? found with content | ⟨r', split, hash⟩
      · exact refuted names content
      · cases split
        exact .inr ⟨rfl, hash⟩

/-- What begins with a hash is a tag or a mark, and no identifier. -/
theorem kind_read_hash_ne_identifier (r : List Char) : (read ('#' :: r)).kind ≠ .identifier := by
  intro identifier
  rcases names_cases (by rw [identifier]; rfl) with letter | ⟨-, hash⟩
  · exact absurd letter (by decide)
  · cases identifier.symm.trans (kind_of_hashTag? hash)

theorem length_rest_read_lt {s : List Char} (ne : s ≠ []) :
    (read s).rest.length < s.length := by
  cases s with
  | nil => exact absurd rfl ne
  | cons c r => exact (splits_read : (read (c :: r)).Splits (c :: r)).length_lt

theorem text_read_of_mark {s : List Char} {m : Mark} (h : (read s).kind = .mark m) :
    (read s).text = m.spelling := by
  cases s with
  | nil => simp at h
  | cons c r =>
      cases fixed_read c r with
      | free free => simp [h, TokenKind.isFree] at free
      | mark m' kind text =>
          rw [h] at kind
          cases kind
          exact text
      | word w kind => simp [h] at kind

theorem text_read_of_word {s : List Char} {w : Keyword} (h : (read s).kind = .word w) :
    (read s).text = w.spelling := by
  cases s with
  | nil => simp at h
  | cons c r =>
      cases fixed_read c r with
      | free free => simp [h, TokenKind.isFree] at free
      | mark m kind => simp [h] at kind
      | word w' kind text =>
          rw [h] at kind
          cases kind
          exact text

end Lexeme

end TagLang
