import TagLang.Proofs.Lexeme.Delimited
import TagLang.Proofs.Lexer.Reading

/-!
# The comments and the delimited literals of a source

In front of an opening delimiter a lexer takes all through the first terminator behind it,
and what has no terminator is a fault that takes all that is left, of its line if it is a
regular expression. The opening delimiter is never taken for a part of the terminator.
-/

namespace TagLang

namespace Lexer

/-- The token ahead, as a lexeme with what is unread behind it. -/
def seen (l : Lexer) : Lexeme := ⟨l.token.kind, l.token.text.toList, l.next.cursor.rest⟩

theorem seen_eq_read (l : Lexer) : l.seen = Lexeme.read l.cursor.rest := by
  have reads := readsLexeme_token l
  rw [seen, reads.kind, reads.text, reads.rest]

/-- What opens a comment, code, a template or a regular expression is followed through the
first terminator behind it. The token ahead is the one that is read, unless the options drop
it as a comment. -/
theorem read_delimited (l : Lexer) (s : List Char) :
    (l.cursor.rest = '/' :: '/' :: s → Lexeme.RunsOverLine s l.seen) ∧
      (l.cursor.rest = '/' :: '*' :: s →
        Lexeme.Delimits ['/', '*'] ['*', '/']
          (if ['*'] <+: s ∧ ¬ ['*', '/'] <+: s then .documentation else .blockComment)
          .unclosedBlockComment s l.seen) ∧
      (l.cursor.rest = '\x60' :: s →
        Lexeme.Delimits ['\x60'] ['\x60'] (.literal .code) .unclosedCode s l.seen) ∧
      (l.cursor.rest = '{' :: '{' :: '{' :: s →
        Lexeme.Delimits ['{', '{', '{'] ['}', '}', '}'] (.literal .template) .unclosedTemplate s
          l.seen) ∧
      (l.cursor.rest = '~' :: '/' :: s → Lexeme.RunsToSlash s l.seen) ∧
      l.read = if l.options.skips l.seen.kind then l.next.read else (l.token, l.next) := by
  simp only [seen_eq_read]
  refine ⟨?_, ?_, ?_, ?_, ?_, ?_⟩
  · intro here
    rw [here]
    exact Lexeme.runsOverLine_lineComment s
  · intro here
    rw [here]
    have kind : (if ['*'] <+: s ∧ ¬ ['*', '/'] <+: s then .documentation else .blockComment) =
        if Lexeme.documents s then TokenKind.documentation else .blockComment :=
      if_congr Lexeme.documents_iff.symm rfl rfl
    rw [kind]
    exact Lexeme.delimits_delimited _ _ _ _ s
  · intro here
    rw [here]
    exact Lexeme.delimits_delimited _ _ _ _ s
  · intro here
    rw [here]
    exact Lexeme.delimits_delimited _ _ _ _ s
  · intro here
    rw [here]
    exact Lexeme.runsToSlash_regularExpression s
  · split
    · rename_i skipped
      exact read_of_skips skipped
    · rename_i kept
      exact read_of_not_skips kept

/-- The star that opens a comment does not close it, and a comment that is closed by the
next two characters documents nothing. -/
theorem read_delimited_short :
    Lexeme.Delimits ['/', '*'] ['*', '/'] .blockComment .unclosedBlockComment ['/']
        (ofSource "/*/" none .standard).seen ∧
      Lexeme.Delimits ['/', '*'] ['*', '/'] .blockComment .unclosedBlockComment ['*', '/', 'x']
        (ofSource "/**/x" none .standard).seen ∧
      Lexeme.RunsToSlash "a/mix".toList (ofSource "~/a/mix" none .standard).seen :=
  ⟨(read_delimited (ofSource "/*/" none .standard) ['/']).2.1 rfl,
    (read_delimited (ofSource "/**/x" none .standard) ['*', '/', 'x']).2.1 rfl,
    (read_delimited (ofSource "~/a/mix" none .standard) "a/mix".toList).2.2.2.2.1 rfl⟩

end Lexer

end TagLang
