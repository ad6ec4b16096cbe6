import TagLang.Proofs.Lexeme.Truncated
import TagLang.Proofs.Lexer.Lexemes
import TagLang.Proofs.Piece.Layout

/-!
# The tokens of a text that breaks off

The text in front of a token has the tokens that stand there, whatever follows behind a line
break. So the tokens in front of an error are those of the part of the source in front of
its position.
-/

namespace TagLang

namespace Place

/-- A text moves a place to a later line, or else by its length along the line. -/
theorem after_cases (place : Place) (text : List Char) :
    place.line < (place.after text).line ∨
      place.after text = ⟨place.line, place.column + text.length⟩ := by
  induction text generalizing place with
  | nil => exact .inr rfl
  | cons c text ih =>
      rw [after_cons, List.length_cons]
      by_cases feed : c = '\n'
      · left
        have next : place.next c = ⟨place.line + 1, 1⟩ := if_pos feed
        rw [next]
        rcases ih ⟨place.line + 1, 1⟩ with later | same
        · exact Nat.lt_of_succ_lt later
        · rw [same]
          exact Nat.lt_succ_self _
      · have next : place.next c = ⟨place.line, place.column + 1⟩ := if_neg feed
        rw [next]
        rcases ih ⟨place.line, place.column + 1⟩ with later | same
        · exact .inl later
        · right
          rw [same, Nat.add_assoc, Nat.add_comm 1]

theorem after_ne (place : Place) {text : List Char} (ne : text ≠ []) : place.after text ≠ place := by
  have taken : 0 < text.length := List.length_pos_iff.mpr ne
  intro back
  rcases after_cases place text with later | same
  · rw [back] at later
    exact Nat.lt_irrefl _ later
  · rw [back] at same
    have column : place.column = place.column + text.length := congrArg Place.column same
    omega

/-- What a text at a place has in front of another place. -/
def textBefore (target : Place) : Place → List Char → List Char
  | _, [] => []
  | place, c :: text => if place = target then [] else c :: textBefore target (place.next c) text

/-- A place that a text comes to has that much of the text in front of it. -/
theorem textBefore_after (place : Place) (a b : List Char) :
    textBefore (place.after a) place (a ++ b) = a := by
  induction a generalizing place with
  | nil =>
      cases b with
      | nil => rfl
      | cons c b => exact if_pos rfl
  | cons c a ih =>
      have apart : place ≠ place.after (c :: a) := (after_ne place (List.cons_ne_nil c a)).symm
      rw [List.cons_append, textBefore, if_neg apart, after_cons, ih]

end Place

/-- The part of a source in front of a position. -/
def Position.textBefore (position : Position) (source : String) : String :=
  String.ofList (Place.textBefore ⟨position.line, position.column⟩ .start source.toList)

/-- The part in front of a position that the source comes to. -/
theorem Position.textBefore_ofPlace {source : String} {a b : List Char}
    (split : source.toList = a ++ b) (file : String) :
    (ofPlace file (Place.start.after a)).textBefore source = String.ofList a := by
  rw [textBefore, split]
  exact congrArg String.ofList (Place.textBefore_after .start a b)

example : (Position.mk "shell" 2 3).textBefore "if x\n  (\nend" = "if x\n  " := by decide

open Stream'

namespace TaggedLexer

variable {file : String} {options : LexerOptions} {tags tags' : List String} {place : Place}
  {text s : List Char}

theorem upcoming_blanks {w : List Char} (blank : w.all isBlank = true) (text : List Char) :
    (before file options tags place (w ++ text)).upcoming =
      (before file options tags (place.after w) text).upcoming := by
  induction w generalizing place with
  | nil => rfl
  | cons c w ih =>
      rw [List.all_cons, Bool.and_eq_true] at blank
      rw [List.cons_append, upcoming_blank blank.1, ih blank.2, Place.after_cons]

/-- Trivia in front of a token stands there in a text that breaks off as well. -/
theorem upcoming_trivia_cut {u r : List Char} (trivia : (Lexeme.read text).kind.isTrivia = true)
    (cut : (Lexeme.read text).rest = u ++ r) (breaks : Breaks s) :
    (before file options tags place ((Lexeme.read text).text ++ (u ++ s))).upcoming =
      (before file options tags (place.after (Lexeme.read text).text) (u ++ s)).upcoming := by
  cases text with
  | nil => cases trivia
  | cons c text =>
      by_cases blank : isBlank c = true
      · apply upcoming_blanks
        rw [Lexeme.read, if_pos blank]
        exact Cut.all_run isBlank (c :: text)
      · have fault : (Lexeme.read (c :: text)).kind.isFault = false := by
          cases kind : (Lexeme.read (c :: text)).kind <;>
            simp_all [TokenKind.isTrivia, TokenKind.isFault]
        have reads := Lexeme.read_cut cut (.breaks fault breaks) fun is => absurd is blank
        rw [upcoming_of_isTrivia (by rw [reads]; exact trivia), reads]
        rfl

/-- A token that is no fault is read in a text that breaks off as well. -/
theorem upcoming_token_cut {u r : List Char} (same : ∀ t, t ∈ tags ↔ t ∈ tags') (ne : text ≠ [])
    (trivia : ¬ (Lexeme.read text).kind.isTrivia = true)
    (fault : (Lexeme.read text).kind.isFault = false) (cut : (Lexeme.read text).rest = u ++ r)
    (breaks : Breaks s) :
    (before file options tags' place ((Lexeme.read text).text ++ (u ++ s))).upcoming =
      (before file options tags place text).upcoming.head ::
        (before file options tags' (place.after (Lexeme.read text).text) (u ++ s)).upcoming := by
  obtain ⟨c, text, rfl⟩ := List.exists_cons_of_ne_nil ne
  have blank : ¬ isBlank c = true := by
    intro blank
    rw [Lexeme.read, if_pos blank] at trivia
    exact trivia rfl
  have reads := Lexeme.read_cut cut (.breaks fault breaks) fun is => absurd is blank
  rw [upcoming_of_not_isTrivia (by rw [reads]; exact trivia), upcoming_of_not_isTrivia trivia, reads]
  rw [head_cons, retag_eq, retag_eq]
  simp only [Lexer.tokenAt, reads, before, kindAmong_congr same, Lexeme.before]

theorem isFault_retag {l : TaggedLexer} {t : Token} :
    (l.retag t).kind.isFault = t.kind.isFault := by
  rw [retag_eq, Token.kind_reclassify, kindAmong]
  split
  · rename_i name
    rw [name.1]
    rfl
  · rfl

/-- The text in front of a token, if no fault and not the end of the text stands there, has the
tokens that stand there, and then those of what follows behind a line break. -/
theorem exists_upcoming_cut (same : ∀ t, t ∈ tags ↔ t ∈ tags') (i : Nat)
    (regular : ∀ j < i, ((before file options tags place text).upcoming.get j).kind ≠ .eof ∧
      ((before file options tags place text).upcoming.get j).kind.isFault = false) :
    ∃ a b, text = a ++ b ∧ i ≤ a.length ∧
      ((before file options tags place text).upcoming.get i).position =
        Position.ofPlace file (place.after a) ∧
      ∀ s, Breaks s → (before file options tags' place (a ++ s)).upcoming =
        (before file options tags place text).upcoming.take i ++ₛ
          (before file options tags' (place.after a) s).upcoming := by
  induction place, text using Lexer.lexeme_induction generalizing i with
  | nil place =>
      have first : i = 0 := by
        by_contra later
        apply (regular 0 (by omega)).1
        rw [upcoming_nil]
        rfl
      subst first
      refine ⟨[], [], rfl, Nat.le_refl 0, ?_, fun s _ => rfl⟩
      rw [upcoming_nil]
      rfl
  | cons place text ne ih =>
      have whole := Lexeme.text_append_rest_read text
      by_cases trivia : (Lexeme.read text).kind.isTrivia = true
      · rw [upcoming_of_isTrivia trivia] at regular ⊢
        obtain ⟨a, b, rest, le, position, cut⟩ := ih i regular
        refine ⟨(Lexeme.read text).text ++ a, b, ?_, ?_, ?_, ?_⟩
        · rw [List.append_assoc, ← rest, whole]
        · rw [List.length_append]
          omega
        · rw [position, Place.after_append]
        · intro s breaks
          rw [List.append_assoc, upcoming_trivia_cut trivia rest breaks, cut s breaks,
            Place.after_append]
      · have come : (before file options tags place text).upcoming = _ :=
          upcoming_of_not_isTrivia trivia
        cases i with
        | zero =>
            refine ⟨[], text, rfl, Nat.le_refl 0, ?_, fun s _ => rfl⟩
            rw [come, retag_eq]
            rfl
        | succ i =>
            have first := (regular 0 (Nat.zero_lt_succ i)).2
            rw [come] at regular first ⊢
            have fault : (Lexeme.read text).kind.isFault = false := isFault_retag.symm.trans first
            obtain ⟨a, b, rest, le, position, cut⟩ :=
              ih i fun j lt => regular (j + 1) (Nat.succ_lt_succ lt)
            refine ⟨(Lexeme.read text).text ++ a, b, ?_, ?_, ?_, ?_⟩
            · rw [List.append_assoc, ← rest, whole]
            · have taken : 0 < (Lexeme.read text).text.length :=
                List.length_pos_iff.mpr (mt Lexeme.text_read_eq_nil_iff.mp ne)
              rw [List.length_append]
              omega
            · rw [get_succ_cons, position, Place.after_append]
            · intro s breaks
              rw [List.append_assoc, upcoming_token_cut same ne trivia fault rest breaks,
                cut s breaks, come, Place.after_append]
              rfl

end TaggedLexer

end TagLang
