import TagLang.Proofs.Lexer.Significant

/-!
# What a token is read from

Whatever a lexer has read before, its next token is a lexeme of the text in front of it,
and the lexer goes on behind this lexeme. So what is known of lexemes holds of all tokens,
of those that are read one by one and of those of a whole source.
-/

namespace TagLang

namespace Lexer

/-- A token, and the lexer behind it, are those of the lexeme that a text begins with. -/
structure ReadsLexeme (read : Token × Lexer) (s : List Char) : Prop where
  kind : read.1.kind = (Lexeme.read s).kind
  text : read.1.text.toList = (Lexeme.read s).text
  rest : read.2.cursor.rest = (Lexeme.read s).rest

variable {l : Lexer} {t : Token}

theorem readsLexeme_token (l : Lexer) : ReadsLexeme (l.token, l.next) l.cursor.rest where
  kind := l.kind_token
  text := by
    have taken : l.cursor.rest.take (Lexeme.read l.cursor.rest).text.length =
        (Lexeme.read l.cursor.rest).text :=
      List.prefix_iff_eq_take.mp ⟨_, Lexeme.text_append_rest_read _⟩ |>.symm
    rw [token, passed_eq, Cursor.span_skip, l.fresh, ahead, taken, String.toList_ofList,
      List.nil_append]
  rest := by
    rw [next, passed_eq, ahead, Lexeme.rest_read_eq_drop, Cursor.rest_commit, Cursor.rest_skip]

/-- The next token is a lexeme of the text. -/
theorem exists_readsLexeme (l : Lexer) : ∃ s, ReadsLexeme l.read s := by
  fun_induction read l with
  | case1 l skipped ih => exact ih
  | case2 l kept => exact ⟨_, readsLexeme_token l⟩

/-- A lexeme ahead that is no trivia is the next token. -/
theorem readsLexeme_of_not_isTrivia
    (significant : (Lexeme.read l.cursor.rest).kind.isTrivia = false) :
    ReadsLexeme l.read l.cursor.rest := by
  have kept : ¬ l.options.skips l.ahead.kind = true := fun skipped =>
    absurd (isTrivia_of_skips skipped) (Bool.eq_false_iff.mp significant)
  rw [read_of_not_skips kept]
  exact readsLexeme_token l

/-- The text of a token and what is unread behind it are the text it is read from. -/
theorem ReadsLexeme.text_append_rest {s : List Char} (reads : ReadsLexeme l.read s) :
    l.read.1.text.toList ++ l.read.2.cursor.rest = s := by
  rw [reads.text, reads.rest, Lexeme.text_append_rest_read]

/-- Every token of a source is a lexeme of some text. -/
theorem exists_read_of_mem_readAll (mem : t ∈ l.readAll.1) :
    ∃ s, t.kind = (Lexeme.read s).kind ∧ t.text.toList = (Lexeme.read s).text := by
  fun_induction readAll l with
  | case1 l last =>
    obtain ⟨s, reads⟩ := exists_readsLexeme l
    rw [List.mem_singleton.mp mem]
    exact ⟨s, reads.kind, reads.text⟩
  | case2 l more ih =>
    rcases List.mem_cons.mp mem with rfl | later
    · obtain ⟨s, reads⟩ := exists_readsLexeme l
      exact ⟨s, reads.kind, reads.text⟩
    · exact ih later

end Lexer

end TagLang
