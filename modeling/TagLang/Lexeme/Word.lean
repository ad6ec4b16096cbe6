import TagLang.Lexeme.Basic

/-!
# Words and hash tags

A word runs over letters, digits and underscores and may end in one apostrophe.
At most two underscores stand before its first letter; one underscore alone is
the anonymous literal.
-/

namespace TagLang.Lexeme

/-- A run of word characters with an optional apostrophe after it. -/
def wordSpan (s : List Char) : Cut := (Cut.run isWordBody s).andThen (Cut.one (· == '\''))

/-- Whether a letter follows zero, one or two underscores. -/
def beginsName : List Char → Bool
  | '_' :: '_' :: c :: _ => Unicode.isAlphabetic c
  | '_' :: c :: _ => Unicode.isAlphabetic c
  | c :: _ => Unicode.isAlphabetic c
  | [] => false

/-- The kind of a word, by its spelling. -/
def wordKind (spelling : List Char) : TokenKind :=
  match Keyword.ofSpelling? spelling with
  | some w => .word w
  | none => if beginsName spelling then .identifier else .fault .invalidIdentifier

/-- The lexeme at a letter or an underscore. -/
def word (s : List Char) : Lexeme :=
  let body := Cut.run isWordBody s
  if body.text = ['_'] then ofCut (.literal .anonymous) body
  else ofCut (wordKind (wordSpan s).text) (wordSpan s)

/-- The tag after a `#`, if a letter or an underscore follows it. -/
def hashTag? : List Char → Option Lexeme
  | [] => none
  | c :: r =>
    if Unicode.isAlphabetic c || c == '_' then some (ofCut .tag ((wordSpan (c :: r)).after ['#']))
    else none

theorem of_wordSpan (s : List Char) : (wordSpan s).Of s :=
  (Cut.of_run _ s).andThen (Cut.of_one _ _)

theorem isWordBody_of_isAlphabetic {c : Char} (h : Unicode.isAlphabetic c = true) :
    isWordBody c = true := by
  simp [isWordBody, Unicode.isAlphanumeric_of_isAlphabetic h]

theorem splits_word {c : Char} {r : List Char} (h : isWordBody c = true) :
    (word (c :: r)).Splits (c :: r) := by
  have ne : (Cut.run isWordBody (c :: r)).text ≠ [] := by
    simp [Cut.run, h]
  unfold word
  dsimp only
  split
  · exact splits_ofCut (Cut.of_run _ _) ne
  · refine splits_ofCut (of_wordSpan _) ?_
    simp only [wordSpan, Cut.andThen, Cut.text_after]
    intro h
    exact ne (List.append_eq_nil_iff.mp h).1

theorem splits_of_hashTag? {s : List Char} {x : Lexeme} (h : hashTag? s = some x) :
    x.Splits ('#' :: s) := by
  unfold hashTag? at h
  split at h
  · cases h
  · split at h
    · cases h
      exact splits_ofCut ((of_wordSpan _).after ['#']) (by simp)
    · cases h

end TagLang.Lexeme
