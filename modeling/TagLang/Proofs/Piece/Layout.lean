import TagLang.Proofs.Lexeme.Closed
import TagLang.Proofs.Parser.Reached
import TagLang.Proofs.Piece.Basic

/-!
# Pieces laid out as a text

Pieces are laid out with one blank before each: a line feed before a piece that begins a
line, and a space before any other. Pieces whose text is one lexeme of their kind are
`Legible`, and a lexer that stands before such a text gives their tokens one after
another, each on the line where it was put (`shows_layout`).
-/

namespace TagLang

/-- A place in a sequence of tokens: the line that has been reached, and the tokens that are
still to come. -/
structure Spot where
  line : Nat
  tokens : Stream' Token

namespace Spot

/-- The line that a piece is put on. -/
def lineOf (a : Spot) (p : Piece) : Nat := if p.breaks then a.line + 1 else a.line

/-- The spot behind the token of a piece. -/
def past (a : Spot) (p : Piece) : Spot :=
  ⟨a.lineOf p + p.text.toList.count '\n', a.tokens.tail⟩

/-- The spot behind the tokens of some pieces. -/
def after (a : Spot) (ps : List Piece) : Spot := ps.foldl past a

@[simp] theorem after_nil (a : Spot) : a.after [] = a := rfl

@[simp] theorem after_cons (a : Spot) (p : Piece) (ps : List Piece) :
    a.after (p :: ps) = (a.past p).after ps := rfl

@[simp] theorem after_append (a : Spot) (ps qs : List Piece) :
    a.after (ps ++ qs) = (a.after ps).after qs :=
  List.foldl_append

@[simp] theorem tokens_past (a : Spot) (p : Piece) : (a.past p).tokens = a.tokens.tail := rfl

end Spot

namespace Piece

/-- The next token is what the piece is written as, on the line where it was put. -/
structure Shown (p : Piece) (a : Spot) : Prop where
  kind : a.tokens.head.kind = p.kind
  text : a.tokens.head.text = p.text
  line : a.tokens.head.position.line = a.lineOf p
  regular : a.tokens.head.Regular

/-- The next tokens are what the pieces are written as. -/
def Shows : List Piece → Spot → Prop
  | [], _ => True
  | p :: ps, a => p.Shown a ∧ Shows ps (a.past p)

variable {p : Piece} {ps qs : List Piece} {a : Spot}

@[simp] theorem shows_nil : Shows [] a := trivial

@[simp] theorem shows_cons : Shows (p :: ps) a ↔ p.Shown a ∧ Shows ps (a.past p) := Iff.rfl

@[simp] theorem shows_append : Shows (ps ++ qs) a ↔ Shows ps a ∧ Shows qs (a.after ps) := by
  induction ps generalizing a with
  | nil => simp
  | cons p ps ih => simp [ih, and_assoc]

/-- The blank before a piece and its text. -/
def spelling (p : Piece) : List Char := (if p.breaks then '\n' else ' ') :: p.text.toList

/-- The text of pieces behind other text. -/
def layout (ps : List Piece) : List Char := ps.flatMap spelling

/-- The text of the piece is one lexeme, and a token of the kind of the piece where the words
of the language are tags. -/
structure Legible (p : Piece) : Prop where
  whole : (Lexeme.read p.text.toList).rest = []
  ne : p.text.toList ≠ []
  fault : (Lexeme.read p.text.toList).kind.isFault = false
  trivia : (Lexeme.read p.text.toList).kind.isTrivia = false
  kind : TaggedLexer.kindAmong Registry.standard.tags (Lexeme.read p.text.toList).kind p.text =
    p.kind

theorem legible_iff : p.Legible ↔ (Lexeme.read p.text.toList).rest = [] ∧ p.text.toList ≠ [] ∧
    (Lexeme.read p.text.toList).kind.isFault = false ∧
    (Lexeme.read p.text.toList).kind.isTrivia = false ∧
    TaggedLexer.kindAmong Registry.standard.tags (Lexeme.read p.text.toList).kind p.text =
      p.kind := by
  constructor
  · rintro ⟨whole, ne, fault, trivia, kind⟩
    exact ⟨whole, ne, fault, trivia, kind⟩
  · rintro ⟨whole, ne, fault, trivia, kind⟩
    exact ⟨whole, ne, fault, trivia, kind⟩

instance (p : Piece) : Decidable p.Legible := decidable_of_iff' _ legible_iff

end Piece

section Lexing

variable {file : String} {options : LexerOptions} {tags : List String} {place : Place}
  {rest : List Char} {p : Piece} {ps : List Piece}

/-- Where a lexer stands before a text at a place. -/
def Spot.before (file : String) (options : LexerOptions) (tags : List String) (place : Place)
    (text : List Char) : Spot :=
  ⟨place.line, (TaggedLexer.before file options tags place text).upcoming⟩

/-- A blank is passed over. -/
theorem TaggedLexer.upcoming_blank {c : Char} (blank : isBlank c = true) (text : List Char) :
    (before file options tags place (c :: text)).upcoming =
      (before file options tags (place.next c) text).upcoming := by
  have blanks {d : Char} (hd : isBlank d = true) (r : List Char) :
      Lexeme.read (d :: r) = ⟨.whiteSpace, d :: r.takeWhile isBlank, r.dropWhile isBlank⟩ := by
    rw [Lexeme.read, if_pos hd]
    simp [Lexeme.blanks, Cut.run, Lexeme.ofCut, hd]
  rw [upcoming_of_isTrivia (by rw [blanks blank]; rfl), blanks blank]
  cases text with
  | nil => rfl
  | cons d text =>
      by_cases more : isBlank d = true
      · rw [@upcoming_of_isTrivia _ _ _ _ (d :: text) (by rw [blanks more]; rfl), blanks more]
        simp [more]
      · simp [more]

/-- The text of a legible piece is shown in front of a blank, wherever the blank before it has
led. -/
theorem Piece.Legible.shown (h : p.Legible) (sep : Separates rest)
    (same : ∀ t, t ∈ tags ↔ t ∈ Registry.standard.tags) {a : Spot}
    (line : a.lineOf p = place.line)
    (tokens : a.tokens = (TaggedLexer.before file options tags place (p.text.toList ++ rest)).upcoming) :
    p.Shown a ∧ a.past p = .before file options tags (place.after p.text.toList) rest := by
  have whole : (Lexeme.read p.text.toList).text = p.text.toList := by
    have splits := Lexeme.text_append_rest_read p.text.toList
    rwa [h.whole, List.append_nil] at splits
  have read : Lexeme.read (p.text.toList ++ rest) =
      ⟨(Lexeme.read p.text.toList).kind, p.text.toList, rest⟩ := by
    rw [Lexeme.read_append h.ne sep.seams h.fault h.trivia, Lexeme.extend, whole, h.whole]
    rfl
  have come : (TaggedLexer.before file options tags place (p.text.toList ++ rest)).upcoming = _ :=
    TaggedLexer.upcoming_of_not_isTrivia (by rw [read]; simp [h.trivia])
  rw [come] at tokens
  refine ⟨⟨?_, ?_, ?_, ?_⟩, ?_⟩
  · rw [tokens, Stream'.head_cons, TaggedLexer.retag_eq, Token.kind_reclassify]
    simpa [Lexer.tokenAt, read, TaggedLexer.before, TaggedLexer.kindAmong_congr same] using h.kind
  · rw [tokens, Stream'.head_cons, TaggedLexer.retag_eq, Token.text_reclassify]
    simp [Lexer.tokenAt, read]
  · rw [tokens, Stream'.head_cons, TaggedLexer.retag_eq, Token.position_reclassify]
    exact line.symm
  · rw [tokens, Stream'.head_cons]
    exact TaggedLexer.regular_retag same
  · rw [Spot.past, Spot.before, tokens, Stream'.tail_cons, read, line, Place.line_after]

theorem Piece.separates_layout (sep : Separates rest) (ps : List Piece) :
    Separates (Piece.layout ps ++ rest) := by
  cases ps with
  | nil => exact sep
  | cons p ps =>
      refine Separates.cons _ ?_
      split <;> rfl

/-- Legible pieces that are laid out are shown by a lexer that stands before them, which then
stands before the text behind them. -/
theorem shows_layout (legible : ∀ p ∈ ps, p.Legible) (sep : Separates rest)
    (same : ∀ t, t ∈ tags ↔ t ∈ Registry.standard.tags) :
    Piece.Shows ps (.before file options tags place (Piece.layout ps ++ rest)) ∧
      ∃ place', (Spot.before file options tags place (Piece.layout ps ++ rest)).after ps =
        .before file options tags place' rest := by
  induction ps generalizing place with
  | nil => exact ⟨trivial, place, rfl⟩
  | cons p ps ih =>
      obtain ⟨first, others⟩ := List.forall_mem_cons.mp legible
      have sep' := Piece.separates_layout sep ps
      have blank : isBlank (if p.breaks then '\n' else ' ') = true := by
        split <;> rfl
      have line : (Spot.before file options tags place (Piece.layout (p :: ps) ++ rest)).lineOf p =
          (place.next (if p.breaks then '\n' else ' ')).line := by
        rw [Spot.lineOf, Spot.before]
        split <;> rfl
      have tokens : (Spot.before file options tags place (Piece.layout (p :: ps) ++ rest)).tokens =
          (TaggedLexer.before file options tags (place.next (if p.breaks then '\n' else ' '))
            (p.text.toList ++ (Piece.layout ps ++ rest))).upcoming := by
        rw [Spot.before, ← TaggedLexer.upcoming_blank blank]
        simp [Piece.layout, Piece.spelling]
      obtain ⟨shown, past⟩ := first.shown sep' same line tokens
      obtain ⟨shows, place', left⟩ := @ih ((place.next (if p.breaks then '\n' else ' ')).after
        p.text.toList) others
      rw [Piece.shows_cons, Spot.after_cons, past]
      exact ⟨⟨shown, shows⟩, place', left⟩

/-- The text of pieces at the beginning of a source, where no blank stands before the first. -/
def Piece.render (ps : List Piece) : List Char := (Piece.layout ps).tail

theorem shows_render (legible : ∀ p ∈ ps, p.Legible) (sep : Separates rest)
    (same : ∀ t, t ∈ tags ↔ t ∈ Registry.standard.tags) :
    ∃ a : Spot, a.tokens = (TaggedLexer.before file options tags .start
        (Piece.render ps ++ rest)).upcoming ∧ Piece.Shows ps a ∧
      ∃ place', a.after ps = .before file options tags place' rest := by
  cases ps with
  | nil => exact ⟨.before file options tags .start rest, rfl, trivial, .start, rfl⟩
  | cons p ps =>
      obtain ⟨first, others⟩ := List.forall_mem_cons.mp legible
      have sep' := Piece.separates_layout sep ps
      have text : Piece.render (p :: ps) ++ rest =
          p.text.toList ++ (Piece.layout ps ++ rest) := by
        simp [Piece.render, Piece.layout, Piece.spelling]
      have line : (Spot.mk (if p.breaks then 0 else 1) (TaggedLexer.before file options tags .start
          (p.text.toList ++ (Piece.layout ps ++ rest))).upcoming).lineOf p = Place.start.line := by
        rw [Spot.lineOf]
        split <;> rfl
      obtain ⟨shown, past⟩ := first.shown sep' same line rfl
      obtain ⟨shows, place', left⟩ := shows_layout others sep same
      refine ⟨_, by rw [text], ⟨shown, by rw [past]; exact shows⟩, place', ?_⟩
      rw [Spot.after_cons, past, left]

end Lexing

end TagLang
