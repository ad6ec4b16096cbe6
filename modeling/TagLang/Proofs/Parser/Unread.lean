import TagLang.Proofs.Lexer.Lexemes
import TagLang.Proofs.Parse.Advances
import TagLang.Proofs.Parser.Reached

/-!
# The tokens that are left before the end of a source

A lexer has no more tokens left than characters, and then gives the empty token of the end
for ever. So every parser of a source has a number of tokens left, whatever it was asked
before, and its depth is above that number.
-/

namespace TagLang

open Stream'

namespace TaggedLexer

/-- Before a text come tokens, no more than it has characters, and then for ever the empty
token of the end. -/
theorem exists_upcoming_eq_const (file : String) (options : LexerOptions) (tags : List String)
    (place : Place) (text : List Char) :
    ∃ ts e, (before file options tags place text).upcoming = ts ++ₛ const e ∧
      (∀ t ∈ ts, t.kind ≠ .eof) ∧ e.kind = .eof ∧ e.text = "" ∧ ts.length ≤ text.length := by
  induction place, text using Lexer.lexeme_induction with
  | nil place => exact ⟨[], _, upcoming_nil, by simp, rfl, rfl, Nat.le_refl 0⟩
  | cons place text ne ih =>
    obtain ⟨ts, e, come, inner, ended, empty, few⟩ := ih
    have shorter := Lexeme.length_rest_read_lt ne
    by_cases trivial : (Lexeme.read text).kind.isTrivia = true
    · exact ⟨ts, e, by rw [upcoming_of_isTrivia trivial, come], inner, ended, empty, by omega⟩
    · refine ⟨(before file options tags place text).retag (Lexer.tokenAt file place text) :: ts, e,
        ?_, ?_, ended, empty, ?_⟩
      · rw [upcoming_of_not_isTrivia trivial, come]
        rfl
      · refine List.forall_mem_cons.mpr ⟨?_, inner⟩
        rw [Ne, kind_retag_eq_eof_iff]
        exact mt Lexeme.kind_read_eq_eof_iff.mp ne
      · rw [List.length_cons]
        omega

/-- A lexer has no more tokens left than characters. -/
theorem exists_unread (l : TaggedLexer) : ∃ k ≤ l.lexer.unread, Unread k l.upcoming := by
  obtain ⟨l, tags⟩ := l
  -- behind its next lexeme, any lexer stands before a text
  obtain ⟨ts, e, come, inner, ended, -, few⟩ := exists_upcoming_eq_const l.file l.options
    tags l.passed.stop l.passed.rest
  have behind : Unread ts.length (mk l.next tags).upcoming := by
    rw [show mk l.next tags = before l.file l.options tags l.passed.stop l.passed.rest from rfl,
      come]
    exact .append_const inner ended
  have fewer : ts.length ≤ l.next.unread := few
  have less (ne : l.ahead.kind ≠ .eof) : l.next.unread < l.unread :=
    Lexer.unread_next_lt (by rwa [Lexer.scanned_eq])
  by_cases trivial : l.ahead.kind.isTrivia = true
  · have ne : l.ahead.kind ≠ .eof := by
      intro eof
      simp [eof, TokenKind.isTrivia] at trivial
    refine ⟨ts.length, Nat.le_trans fewer (Nat.le_of_lt (less ne)), ?_⟩
    rwa [upcoming_eq, readSignificant_of_isTrivia trivial, ← upcoming_eq]
  · rw [upcoming_eq, readSignificant_of_not_isTrivia trivial]
    by_cases eof : l.ahead.kind = .eof
    · have nothing : l.cursor.rest = [] := Lexeme.kind_read_eq_eof_iff.mp eof
      have none : l.next.unread = 0 := by
        simp [Lexer.unread, Lexer.next, Lexer.passed_eq, nothing]
      have stops : Unread 0 (mk l.next tags).upcoming := by
        rwa [show ts.length = 0 by omega] at behind
      refine ⟨0, Nat.zero_le _, fun i hi => absurd hi (Nat.not_lt_zero i), fun i _ => ?_⟩
      cases i with
      | zero => exact kind_retag_eq_eof_iff.mpr (by rwa [Lexer.kind_token])
      | succ i => exact stops.ends i (Nat.zero_le i)
    · refine ⟨ts.length + 1, Nat.le_trans (Nat.succ_le_succ fewer) (less eof), behind.cons ?_⟩
      rw [Ne, kind_retag_eq_eof_iff, Lexer.kind_token]
      exact eof

end TaggedLexer

namespace TokenStream

variable {k : Nat} {s : TokenStream}

/-- No more tokens are left than are buffered and can be made of the unread characters. -/
theorem InOrder.le_remaining (h : s.InOrder) (unread : Unread k s.upcoming) :
    k ≤ s.remaining := by
  obtain ⟨us, held⟩ := h
  obtain ⟨m, few, behind⟩ := s.lexer.exists_unread
  rw [held.upcoming_eq] at unread
  have bound := unread.le_length_add behind
  rw [remaining, held.buffered_eq]
  omega

end TokenStream

namespace Parser

variable {source : String} {file : Option String} {options : LexerOptions} {p : Parser}

/-- A parser of a source has a number of tokens left, its depth is above it, and the token
at the end is empty. -/
theorem Reached.exists_unread (h : p.Reached source file options) :
    ∃ k, Unread k p.stream.upcoming ∧ k + 2 ≤ p.depth := by
  have exist : ∃ k, Unread k p.stream.upcoming := by
    induction h with
    | start =>
      obtain ⟨tags, -, stream⟩ := exists_stream_ofSource source file options
      rw [stream, TokenStream.upcoming_ofLexer]
      obtain ⟨k, -, unread⟩ := TaggedLexer.exists_unread _
      exact ⟨k, unread⟩
    | @ask _ p parse h ih =>
      obtain ⟨k, unread⟩ := ih
      obtain ⟨j, left⟩ := parse.exists_drop_eq_on p.stream.upcoming
      rw [(ask_eq_on parse h.inOrder).2.1, left]
      exact ⟨k - j, unread.drop j⟩
  obtain ⟨k, unread⟩ := exist
  exact ⟨k, unread, Nat.add_le_add_right (h.inOrder.le_remaining unread) 2⟩

/-- The token at the end of a source is empty. -/
theorem text_eq_of_eof (source : String) (file : Option String) (options : LexerOptions) {i : Nat}
    (ended : ((ofSource source file options).stream.upcoming.get i).kind = .eof) :
    ((ofSource source file options).stream.upcoming.get i).text = "" := by
  obtain ⟨tags, -, stream⟩ := exists_stream_ofSource source file options
  rw [stream, TokenStream.upcoming_ofLexer] at ended ⊢
  obtain ⟨ts, e, come, inner, -, empty, -⟩ :=
    TaggedLexer.exists_upcoming_eq_const (file.getD "shell") options tags .start source.toList
  rw [come] at ended ⊢
  by_cases inside : i < ts.length
  · rw [get_append_left _ _ _ inside] at ended
    exact absurd ended (inner _ (List.getElem_mem inside))
  · obtain ⟨m, rfl⟩ := Nat.exists_eq_add_of_le (Nat.le_of_not_lt inside)
    rw [get_append_right]
    exact empty

end Parser

end TagLang
