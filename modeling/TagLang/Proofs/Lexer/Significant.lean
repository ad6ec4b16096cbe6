import TagLang.Proofs.Lexeme.Fixed
import TagLang.Proofs.TokenStream.Upcoming

/-!
# The significant tokens of a text

A lexer with nothing pending is a text and a place. What it gives is read off the
text lexeme by lexeme: trivia are passed over whether the lexer drops them or the
reader does, any other lexeme is the next token, and at the end of the text its
token is repeated for ever.
-/

namespace TagLang

namespace Lexer

/-- A lexer before a text at a place, with nothing pending. -/
def before (file : String) (options : LexerOptions) (place : Place) (text : List Char) : Lexer :=
  ⟨⟨[], text, place, place⟩, file, options, rfl⟩

/-- The first lexeme of a text as a token. -/
def tokenAt (file : String) (place : Place) (text : List Char) : Token :=
  ⟨(Lexeme.read text).kind, String.ofList (Lexeme.read text).text, Position.ofPlace file place⟩

variable {file : String} {options : LexerOptions} {place : Place} {text : List Char}

@[simp] theorem ahead_before :
    (before file options place text).ahead = Lexeme.read text := rfl

@[simp] theorem options_before : (before file options place text).options = options := rfl

private theorem take_length_text :
    text.take (Lexeme.read text).text.length = (Lexeme.read text).text := by
  conv => lhs; arg 2; rw [← Lexeme.text_append_rest_read text]
  simp

theorem token_before : (before file options place text).token = tokenAt file place text := by
  simp only [token, passed, scanned_eq, ahead_before, Cursor.span_skip, Cursor.start_skip]
  simp [before, Cursor.span, take_length_text, tokenAt]

theorem next_before :
    (before file options place text).next =
      before file options (place.after (Lexeme.read text).text) (Lexeme.read text).rest := by
  simp only [next, passed_eq, ahead_before, Cursor.commit, Cursor.stop_skip, Cursor.rest_skip]
  simp [before, take_length_text, Lexeme.rest_read_eq_drop]

theorem isTrivia_of_skips {options : LexerOptions} {kind : TokenKind}
    (h : options.skips kind = true) : kind.isTrivia = true := by
  cases kind <;> simp_all [LexerOptions.skips, TokenKind.isTrivia]

/-- A lexer of the standard options drops all trivia. -/
theorem skips_standard (kind : TokenKind) : LexerOptions.standard.skips kind = kind.isTrivia := by
  cases kind <;> rfl

end Lexer

namespace TaggedLexer

variable {l : Lexer} {tags : List String}

/-- Trivia ahead is passed over, whether the lexer drops it or the reader does. -/
theorem readSignificant_of_isTrivia (h : l.ahead.kind.isTrivia = true) :
    (TaggedLexer.mk l tags).readSignificant = (TaggedLexer.mk l.next tags).readSignificant := by
  by_cases skipped : l.options.skips l.ahead.kind = true
  · have same : l.read = l.next.read := Lexer.read_of_skips skipped
    rw [readSignificant]
    conv_rhs => rw [readSignificant]
    simp only [read, same]
    rfl
  · have reads : l.read = (l.token, l.next) := Lexer.read_of_not_skips skipped
    have trivial : (TaggedLexer.mk l tags).read.1.kind.isTrivia = true := by
      rw [read, isTrivia_retag, reads, Lexer.kind_token]
      exact h
    rw [readSignificant, dif_pos trivial]
    simp only [read, reads]

/-- A lexeme ahead that is no trivia is the token read. -/
theorem readSignificant_of_not_isTrivia (h : ¬ l.ahead.kind.isTrivia = true) :
    (TaggedLexer.mk l tags).readSignificant =
      ((TaggedLexer.mk l tags).retag l.token, TaggedLexer.mk l.next tags) := by
  have reads : l.read = (l.token, l.next) :=
    Lexer.read_of_not_skips fun skipped => h (Lexer.isTrivia_of_skips skipped)
  have significant : ¬ (TaggedLexer.mk l tags).read.1.kind.isTrivia = true := by
    rw [read, isTrivia_retag, reads, Lexer.kind_token]
    exact h
  rw [readSignificant, dif_neg significant]
  simp only [read, reads]

/-- What stands before a text at a place, with the words that are tags. -/
def before (file : String) (options : LexerOptions) (tags : List String) (place : Place)
    (text : List Char) : TaggedLexer :=
  ⟨Lexer.before file options place text, tags⟩

variable {file : String} {options : LexerOptions} {place : Place} {text : List Char}

/-- The kind that a token has where these words are tags. -/
def kindAmong (tags : List String) (kind : TokenKind) (text : String) : TokenKind :=
  if kind = .identifier ∧ tags.contains text then .tag else kind

theorem kindAmong_congr {tags' : List String} (same : ∀ t, t ∈ tags ↔ t ∈ tags') (kind : TokenKind)
    (text : String) : kindAmong tags kind text = kindAmong tags' kind text := by
  have contains : tags.contains text = tags'.contains text := by
    rw [Bool.eq_iff_iff, List.contains_iff_mem, List.contains_iff_mem, same]
  rw [kindAmong, kindAmong, contains]

theorem retag_eq (l : TaggedLexer) (t : Token) :
    l.retag t = t.reclassify (kindAmong l.tags t.kind t.text) := by
  by_cases h : t.kind = .identifier ∧ l.tags.contains t.text
  · rw [retag, kindAmong, if_pos h, isRegistered, if_pos h]
  · rw [retag, kindAmong, if_neg h, isRegistered, if_neg h]
    rfl

theorem kind_retag_eq_eof_iff {l : TaggedLexer} {t : Token} :
    (l.retag t).kind = .eof ↔ t.kind = .eof := by
  rw [retag_eq, Token.kind_reclassify, kindAmong]
  split
  · simp_all
  · rfl

theorem readSignificant_before_of_isTrivia (h : (Lexeme.read text).kind.isTrivia = true) :
    (before file options tags place text).readSignificant =
      (before file options tags (place.after (Lexeme.read text).text)
        (Lexeme.read text).rest).readSignificant := by
  have same : (before file options tags place text).readSignificant = _ :=
    readSignificant_of_isTrivia h
  rwa [Lexer.next_before] at same

theorem readSignificant_before_of_not_isTrivia (h : ¬ (Lexeme.read text).kind.isTrivia = true) :
    (before file options tags place text).readSignificant =
      ((before file options tags place text).retag (Lexer.tokenAt file place text),
        before file options tags (place.after (Lexeme.read text).text)
          (Lexeme.read text).rest) := by
  have read : (before file options tags place text).readSignificant = _ :=
    readSignificant_of_not_isTrivia h
  rwa [Lexer.next_before, Lexer.token_before] at read

theorem upcoming_of_isTrivia (h : (Lexeme.read text).kind.isTrivia = true) :
    (before file options tags place text).upcoming =
      (before file options tags (place.after (Lexeme.read text).text)
        (Lexeme.read text).rest).upcoming := by
  rw [upcoming_eq, readSignificant_before_of_isTrivia h, ← upcoming_eq]

theorem upcoming_of_not_isTrivia (h : ¬ (Lexeme.read text).kind.isTrivia = true) :
    (before file options tags place text).upcoming =
      Stream'.cons ((before file options tags place text).retag (Lexer.tokenAt file place text))
        (before file options tags (place.after (Lexeme.read text).text)
          (Lexeme.read text).rest).upcoming := by
  rw [upcoming_eq, readSignificant_before_of_not_isTrivia h]

/-- The kind and the text of the next token are those of the text alone. -/
theorem head_upcoming_congr {tags' : List String} {place place' : Place}
    (same : ∀ t, t ∈ tags ↔ t ∈ tags') :
    (before file options tags place text).upcoming.head.kind =
        (before file options tags' place' text).upcoming.head.kind ∧
      (before file options tags place text).upcoming.head.text =
        (before file options tags' place' text).upcoming.head.text := by
  induction h : text.length using Nat.strongRecOn generalizing text place place' with
  | ind n ih =>
      subst h
      by_cases trivial : (Lexeme.read text).kind.isTrivia = true
      · have ne : text ≠ [] := by
          rintro rfl
          simp [TokenKind.isTrivia] at trivial
        rw [upcoming_of_isTrivia trivial, upcoming_of_isTrivia trivial]
        exact ih _ (Lexeme.length_rest_read_lt ne) rfl
      · rw [upcoming_of_not_isTrivia trivial, upcoming_of_not_isTrivia trivial]
        simp only [Stream'.head_cons, retag_eq, Token.kind_reclassify, Token.text_reclassify]
        exact ⟨kindAmong_congr same _ _, rfl⟩

theorem eq_const_of_eq_cons {α : Type} {a : α} {s : Stream' α} (h : s = Stream'.cons a s) :
    s = Stream'.const a := by
  refine Stream'.ext fun n => ?_
  induction n with
  | zero => rw [h]; rfl
  | succ n ih => rw [h, Stream'.get_succ_cons, ih]; rfl

theorem upcoming_nil :
    (before file options tags place []).upcoming =
      Stream'.const (Lexer.tokenAt file place []) :=
  eq_const_of_eq_cons (upcoming_of_not_isTrivia (by decide))

theorem readAll_of_isTrivia (h : (Lexeme.read text).kind.isTrivia = true) :
    (before file .standard tags place text).readAll.1 =
      (before file .standard tags (place.after (Lexeme.read text).text)
        (Lexeme.read text).rest).readAll.1 := by
  have same : (Lexer.before file .standard place text).read =
      (Lexer.before file .standard (place.after (Lexeme.read text).text)
        (Lexeme.read text).rest).read := by
    rw [Lexer.read_of_skips (by rwa [Lexer.options_before, Lexer.skips_standard]),
      Lexer.next_before]
  simp only [readAll, before]
  rw [Lexer.readAll]
  conv_rhs => rw [Lexer.readAll]
  simp only [same]
  rfl

theorem readAll_of_not_isTrivia (h : ¬ (Lexeme.read text).kind.isTrivia = true) :
    (before file .standard tags place text).readAll.1 =
      (before file .standard tags place text).retag (Lexer.tokenAt file place text) ::
        if text = [] then []
        else (before file .standard tags (place.after (Lexeme.read text).text)
          (Lexeme.read text).rest).readAll.1 := by
  have read : (Lexer.before file .standard place text).read =
      (Lexer.tokenAt file place text, Lexer.before file .standard
        (place.after (Lexeme.read text).text) (Lexeme.read text).rest) := by
    rw [Lexer.read_of_not_skips (by rwa [Lexer.options_before, Lexer.skips_standard]),
      Lexer.next_before, Lexer.token_before]
  have atEnd : (Lexer.tokenAt file place text).kind = .eof ↔ text = [] :=
    Lexeme.kind_read_eq_eof_iff
  simp only [readAll, before]
  rw [Lexer.readAll]
  by_cases empty : text = []
  · simp only [read, dif_pos (atEnd.mpr empty), if_pos empty]
    rfl
  · simp only [read, dif_neg (mt atEnd.mp empty), if_neg empty]
    rfl

/-- All the tokens that a lexer of the standard options reads come first, and the last
of them, which is the only one at the end of the source, comes again for ever. -/
theorem exists_readAll_eq :
    ∃ ts e, (before file .standard tags place text).readAll.1 = ts ++ [e] ∧
      (∀ t ∈ ts, t.kind ≠ .eof) ∧ e.kind = .eof ∧
      (before file .standard tags place text).upcoming = ts ++ₛ Stream'.const e := by
  induction h : text.length using Nat.strongRecOn generalizing text place with
  | ind n ih =>
      subst h
      rcases eq_or_ne text [] with rfl | ne
      · refine ⟨[], Lexer.tokenAt file place [], ?_, by simp, rfl, ?_⟩
        · rw [readAll_of_not_isTrivia (by decide), if_pos rfl]
          rfl
        · rw [upcoming_nil]
          rfl
      · obtain ⟨ts, e, all, inner, last, come⟩ := @ih _ (Lexeme.length_rest_read_lt ne)
          (place.after (Lexeme.read text).text) _ rfl
        by_cases trivial : (Lexeme.read text).kind.isTrivia = true
        · refine ⟨ts, e, ?_, inner, last, ?_⟩
          · rw [readAll_of_isTrivia trivial, all]
          · rw [upcoming_of_isTrivia trivial, come]
        · refine ⟨(before file .standard tags place text).retag (Lexer.tokenAt file place text) :: ts,
            e, ?_, ?_, last, ?_⟩
          · rw [readAll_of_not_isTrivia trivial, if_neg ne, all]
            rfl
          · refine List.forall_mem_cons.mpr ⟨?_, inner⟩
            rw [Ne, kind_retag_eq_eof_iff]
            exact mt Lexeme.kind_read_eq_eof_iff.mp ne
          · rw [upcoming_of_not_isTrivia trivial, come]
            rfl

end TaggedLexer

end TagLang
