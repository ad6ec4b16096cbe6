import Mathlib.Data.List.Induction
import TagLang.Proofs.Lexer.Lexemes

/-!
# The positions of tokens

A cursor keeps its place by two routes: character by character, which begins a new line at
a line feed, and by the number of characters known to stand on the line. The lexer takes
the second one over line feeds never, so the position of each token counts the line feeds
in front of it and the characters since the last of them.
-/

namespace TagLang

namespace Place

/-- The column counts the characters since the last line feed. -/
theorem column_after_start (text : List Char) :
    (start.after text).column = 1 + (text.reverse.takeWhile (· ≠ '\n')).length := by
  induction text using List.reverseRecOn with
  | nil => rfl
  | append_singleton text c ih =>
    rw [after_append, after_cons, after_nil, List.reverse_append, List.reverse_singleton,
      List.singleton_append]
    by_cases feed : c = '\n'
    · simp [next, feed]
    · simp [next, feed, ih, Nat.add_comm]

theorem after_start (text : List Char) :
    start.after text = ⟨1 + text.count '\n', 1 + (text.reverse.takeWhile (· ≠ '\n')).length⟩ := by
  rw [← column_after_start, ← show start.line = 1 from rfl, ← line_after]

end Place

namespace Lexer

variable {file : String} {place : Place} {text : List Char} {ts us : List Token} {t : Token}

/-- Each lexeme stands where the place of the text comes to after those in front of it. -/
theorem position_of_lexemes_eq (h : lexemes file place text = ts ++ t :: us) :
    t.position = Position.ofPlace file (place.after (Token.written ts)) := by
  induction ts generalizing place text with
  | nil =>
    have first : t = tokenAt file place text := by
      by_cases ne : text = []
      · subst ne
        rw [lexemes_nil] at h
        exact (List.cons.inj h).1.symm
      · rw [lexemes_of_ne_nil ne] at h
        exact (List.cons.inj h).1.symm
    rw [first]
    rfl
  | cons u ts ih =>
    by_cases ne : text = []
    · subst ne
      simp [lexemes_nil] at h
    · rw [lexemes_of_ne_nil ne] at h
      obtain ⟨rfl, behind⟩ := List.cons.inj h
      rw [ih behind, Token.written, Token.written, List.flatMap_cons, Place.after_append]
      simp [tokenAt]

/-- A token stands on the line after as many line feeds as the source has in front of it, in
the column after the characters since the last of them, whichever tokens are dropped. The
scan of a lexeme comes to its end in every state of a lexer, so it moves over no line feed
by the number of characters alone. -/
theorem readAll_positions (source : String) (file : Option String) (options : LexerOptions) :
    let whole := (ofSource source file ⟨false, false⟩).readAll.1
    (ofSource source file options).readAll.1 = whole.filter (fun t => !options.skips t.kind) ∧
      (∀ ts t us, whole = ts ++ t :: us →
        Token.written ts ++ t.text.toList ++ Token.written us = source.toList ∧
        t.position = ⟨file.getD "shell", 1 + (Token.written ts).count '\n',
          1 + ((Token.written ts).reverse.takeWhile (· ≠ '\n')).length⟩) ∧
      ∀ l : Lexer, (Scan.lexeme l.cursor).isSome = true := by
  intro whole
  have all : whole = lexemes (file.getD "shell") .start source.toList := by
    rw [← filter_skips_nothing (lexemes _ _ _)]
    exact congrArg Prod.fst (readAll_before _ _ _ _)
  refine ⟨?_, fun ts t us split => ⟨?_, ?_⟩, isSome_lexeme⟩
  · rw [all]
    exact congrArg Prod.fst (readAll_before _ _ _ _)
  · have written := written_lexemes (file.getD "shell") .start source.toList
    rw [← all, split] at written
    simpa [Token.written] using written
  · rw [position_of_lexemes_eq (all.symm.trans split), Place.after_start]
    rfl

/-- The text that a comment of three lines puts on the last of them. -/
theorem readAll_positions_comment :
    ∃ ts t us, (ofSource "é/*\n\n*/ \"x" none ⟨false, false⟩).readAll.1 = ts ++ t :: us ∧
      t.kind = .fault .unclosedText ∧ t.position = ⟨"shell", 3, 4⟩ := by
  have split : (ofSource "é/*\n\n*/ \"x" none ⟨false, false⟩).readAll.1 =
      [⟨.identifier, "é", ⟨"shell", 1, 1⟩⟩, ⟨.blockComment, "/*\n\n*/", ⟨"shell", 1, 2⟩⟩,
        ⟨.whiteSpace, " ", ⟨"shell", 3, 3⟩⟩] ++
      ⟨.fault .unclosedText, "\"x", ⟨"shell", 3, 4⟩⟩ :: [⟨.eof, "", ⟨"shell", 3, 6⟩⟩] := by
    decide +kernel
  obtain ⟨-, placed, -⟩ := readAll_positions "é/*\n\n*/ \"x" none .standard
  exact ⟨_, _, _, split, rfl, (placed _ _ _ split).2.trans (by decide +kernel)⟩

end Lexer

end TagLang
