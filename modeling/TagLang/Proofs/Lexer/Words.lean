import TagLang.Proofs.Lexeme.Word
import TagLang.Proofs.Lexer.Reading

/-!
# The words of a source

In front of a letter or an underscore a lexer reads a word, and the kind of the word is told
by its spelling. No other token is spelled as a reserved word, so the keywords of a source are
the tokens with these spellings.
-/

namespace TagLang

namespace Lexer

/-- Where a word begins, the next token takes the longest run of word characters and one
apostrophe behind it, and has the kind that this spelling says. A single underscore is the
anonymous literal and leaves the apostrophe. All over a source, keywords are the tokens that
are spelled as reserved words. -/
theorem read_word (l : Lexer) :
    (∀ w, (l.cursor.rest.head?.any fun c => Unicode.isAlphabetic c || c == '_') = true →
      LongestBody w l.cursor.rest →
        (w = ['_'] → l.read.1.kind = .literal .anonymous ∧ l.read.1.text.toList = ['_']) ∧
        (w ≠ ['_'] →
          l.read.1.text.toList = w ++ apostrophe (l.cursor.rest.drop w.length) ∧
          WordKind w l.read.1.text.toList l.read.1.kind) ∧
        l.read.1.text.toList ++ l.read.2.cursor.rest = l.cursor.rest) ∧
      ∀ t ∈ l.readAll.1, (t.kind.isKeyword = true ↔ Reserved t.text.toList) := by
  constructor
  · intro w start longest
    have lexeme : Lexeme.read l.cursor.rest = Lexeme.word l.cursor.rest := by
      cases here : l.cursor.rest with
      | nil => simp [here] at start
      | cons c r => exact Lexeme.read_of_word (by simpa [here] using start) r
    have reads : ReadsLexeme l.read l.cursor.rest :=
      readsLexeme_of_not_isTrivia (by rw [lexeme, Lexeme.isTrivia_word])
    have whole := reads.text_append_rest
    rw [reads.kind, reads.text, lexeme]
    refine ⟨?_, Lexeme.word_of_ne_underscore longest, ?_⟩
    · rintro rfl
      rw [Lexeme.word_of_underscore longest]
      exact ⟨rfl, rfl⟩
    · rwa [reads.text, lexeme] at whole
  · intro t mem
    obtain ⟨s, kind, text⟩ := exists_read_of_mem_readAll mem
    rw [kind, text]
    exact Lexeme.isKeyword_read_iff

/-- A reserved word with an apostrophe behind it is an identifier, and its second apostrophe
is left. -/
theorem read_word_apostrophe :
    LongestBody "end".toList "end''".toList ∧
      (ofSource "end''" none .standard).read.1.text.toList = "end'".toList ∧
      WordKind "end".toList (ofSource "end''" none .standard).read.1.text.toList
        (ofSource "end''" none .standard).read.1.kind := by
  have longest : LongestBody "end".toList "end''".toList :=
    longestBody_append (r := "''".toList) (List.all_eq_true.mp (by decide)) (by decide)
  exact ⟨longest, ((read_word (ofSource "end''" none .standard)).1 _ (by decide) longest).2.1
    (by decide)⟩

end Lexer

end TagLang
