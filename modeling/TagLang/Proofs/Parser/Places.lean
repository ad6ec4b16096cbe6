import TagLang.Proofs.Parser.Extension
import TagLang.Proofs.Parser.Faults

/-!
# Where the errors of a source stand

The error of a source stands at a token of it, and a token begins with a character that is no
blank or is the empty one at the end. So an error never stands on the white space in front of
a token.
-/

namespace TagLang

namespace Lexer

/-- A lexeme is the first one of what is left behind a part of the text, and stands there. -/
theorem exists_tokenAt_of_mem_lexemes {file : String} {place : Place} {text : List Char}
    {t : Token} (mem : t ∈ lexemes file place text) :
    ∃ front rest, text = front ++ rest ∧ t = tokenAt file (place.after front) rest := by
  induction place, text using lexeme_induction with
  | nil place =>
    rw [lexemes_nil, List.mem_singleton] at mem
    exact ⟨[], [], rfl, mem⟩
  | cons place text ne ih =>
    rw [lexemes_of_ne_nil ne] at mem
    rcases List.mem_cons.mp mem with first | later
    · exact ⟨[], text, rfl, first⟩
    · obtain ⟨front, rest, split, here⟩ := ih later
      refine ⟨(Lexeme.read text).text ++ front, rest, ?_, by rw [Place.after_append, here]⟩
      rw [List.append_assoc, ← split, Lexeme.text_append_rest_read]

end Lexer

/-- Blanks are white space, which is trivia. -/
theorem Lexeme.isBlank_eq_false_of_read {s : List Char} (significant : (read s).kind.isTrivia = false) :
    ∀ c ∈ s.head?, isBlank c = false := by
  intro c first
  obtain ⟨r, rfl⟩ := List.head?_eq_some_iff.mp first
  by_contra blank
  rw [read, if_pos (by simpa using blank)] at significant
  cases significant

/-- Where a source cannot be parsed, the error stands behind some part of it, in front of a
character that is no blank or at the end. -/
theorem exists_place_of_error {source : String} {file : Option String} {e : SyntaxError}
    (failed : parse source file = .error e ∨ parseScript source file = .error e) :
    ∃ front rest, source.toList = front ++ rest ∧
      e.position = .ofPlace (file.getD "shell") (Place.start.after front) ∧
      ∀ c ∈ rest.head?, isBlank c = false := by
  have made : ((Parser.ofSource source file .standard).calls []).2 = _ := rfl
  have named : ∃ i k, e.Names (Parser.ofSource source file .standard).stream.upcoming i k := by
    rcases failed with failed | failed
    · obtain ⟨i, k, names, -⟩ := Parser.exists_names_of_error (q := .unit) made failed
      exact ⟨i, k, names⟩
    · obtain ⟨i, k, names, -⟩ := Parser.exists_names_of_error (q := .script) made failed
      exact ⟨i, k, names⟩
  obtain ⟨i, k, names⟩ := named
  obtain ⟨tags, -, stream⟩ := Parser.exists_stream_ofSource source file .standard
  obtain ⟨t, mem, significant, come⟩ :=
    TaggedLexer.exists_lexeme_of_get (file.getD "shell") .standard tags .start source.toList i
  obtain ⟨front, rest, split, here⟩ := Lexer.exists_tokenAt_of_mem_lexemes mem
  have position := names.position
  rw [stream, TokenStream.upcoming_ofLexer, come, Token.position_reclassify, here] at position
  rw [here] at significant
  exact ⟨front, rest, split, position, Lexeme.isBlank_eq_false_of_read significant⟩

end TagLang
