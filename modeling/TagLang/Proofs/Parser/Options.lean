import TagLang.Proofs.Lexer.Significant
import TagLang.Proofs.Parser.Calls

/-!
# Lexer options and parsers

The options of a lexer say which trivia it drops, and no parser sees trivia: what one option
value drops in the lexer, another leaves to the stream. After each significant token the
lexer stands at the same place either way, so a parser answers every sequence of calls as it
does with any other options (`calls_ofSource_options`).
-/

namespace TagLang

/-- The lexer at the same place with other options. -/
def Lexer.withOptions (l : Lexer) (options : LexerOptions) : Lexer := { l with options }

namespace TaggedLexer

/-- The tagging lexer at the same place with other options. -/
def withOptions (l : TaggedLexer) (options : LexerOptions) : TaggedLexer :=
  { l with lexer := l.lexer.withOptions options }

theorem register_withOptions (l : TaggedLexer) (options : LexerOptions) (tag : String) :
    (l.withOptions options).register tag = (l.register tag).withOptions options := by
  by_cases known : l.isRegistered tag = true
  · have same : (l.withOptions options).isRegistered tag = true := known
    rw [register, register, if_pos known, if_pos same]
  · have same : ¬ (l.withOptions options).isRegistered tag = true := known
    rw [register, register, if_neg known, if_neg same]
    rfl

/-- Whichever trivia the lexer drops, the same significant token is read, and the lexer
stands behind it. -/
theorem readSignificant_withOptions (l : TaggedLexer) (options : LexerOptions) :
    (l.withOptions options).readSignificant =
      (l.readSignificant.1, l.readSignificant.2.withOptions options) := by
  obtain ⟨lexer, tags⟩ := l
  induction h : lexer.unread using Nat.strongRecOn generalizing lexer with
  | ind n ih =>
    subst h
    by_cases trivial : lexer.ahead.kind.isTrivia = true
    · have ne : lexer.scanned.1 ≠ .eof := by
        intro eof
        have isEof : lexer.ahead.kind = .eof := by rw [← eof, Lexer.scanned_eq]
        rw [isEof] at trivial
        cases trivial
      have passed : readSignificant ⟨lexer, tags⟩ = readSignificant ⟨lexer.next, tags⟩ :=
        readSignificant_of_isTrivia trivial
      have same : (withOptions ⟨lexer, tags⟩ options).readSignificant =
          (withOptions ⟨lexer.next, tags⟩ options).readSignificant :=
        readSignificant_of_isTrivia (l := lexer.withOptions options) trivial
      rw [same, passed]
      exact ih _ (Lexer.unread_next_lt ne) _ rfl
    · have read : readSignificant ⟨lexer, tags⟩ = _ := readSignificant_of_not_isTrivia trivial
      have same : (withOptions ⟨lexer, tags⟩ options).readSignificant = _ :=
        readSignificant_of_not_isTrivia (l := lexer.withOptions options) trivial
      rw [same, read]
      rfl

end TaggedLexer

namespace TokenStream

/-- The stream with the same tokens buffered, over a lexer with other options. -/
def withOptions (s : TokenStream) (options : LexerOptions) : TokenStream :=
  { s with lexer := s.lexer.withOptions options }

variable (s : TokenStream) (options : LexerOptions)

theorem push_withOptions : (s.withOptions options).push = s.push.withOptions options := by
  have read := s.lexer.readSignificant_withOptions options
  simp only [push, withOptions, read]

theorem pushes_withOptions (n : Nat) :
    (s.withOptions options).pushes n = (s.pushes n).withOptions options := by
  induction n generalizing s with
  | zero => rfl
  | succ n ih => rw [pushes, pushes, push_withOptions, ih]

theorem fill_withOptions (k : Nat) :
    (s.withOptions options).fill k = (s.fill k).withOptions options :=
  s.pushes_withOptions options _

theorem slot_withOptions (i : Fin 5) : (s.withOptions options).slot i = s.slot i := by
  have read := s.lexer.readSignificant_withOptions options
  simp only [slot, withOptions, read]
  rfl

theorem look_withOptions :
    (s.withOptions options).look = (s.look.1, s.look.2.withOptions options) := by
  simp only [look, fill_withOptions, slot_withOptions]

theorem lookSecond_withOptions :
    (s.withOptions options).lookSecond =
      (s.lookSecond.1, s.lookSecond.2.withOptions options) := by
  simp only [lookSecond, fill_withOptions, slot_withOptions]

theorem take_withOptions :
    (s.withOptions options).take = (s.take.1, s.take.2.withOptions options) := by
  have read : (s.withOptions options).lexer.readSignificant =
      (s.lexer.readSignificant.1, s.lexer.readSignificant.2.withOptions options) :=
    s.lexer.readSignificant_withOptions options
  have held : (s.withOptions options).held? 0 = s.held? 0 := rfl
  have empty : (s.withOptions options).isEmpty = s.isEmpty := rfl
  unfold take
  rw [empty, held, read]
  split
  · rfl
  · cases s.held? 0 <;> rfl

/-- A parse runs alike whatever trivia the lexer drops. -/
theorem run_withOptions {α : Type} (p : Parse α) :
    (s.withOptions options).run p = ((s.run p).1, (s.run p).2.withOptions options) := by
  induction p generalizing s with
  | done a => rfl
  | fail e => rfl
  | peek k ih => rw [run, run, look_withOptions, ih]
  | peekSecond k ih => rw [run, run, lookSecond_withOptions, ih]
  | take k ih => rw [run, run, take_withOptions, ih]

theorem reply_withOptions (p : Parse Answer) :
    (s.withOptions options).reply p = ((s.reply p).1, (s.reply p).2.withOptions options) := by
  rw [reply, reply, run_withOptions]
  rcases s.run p with ⟨a | e, t⟩ <;> rfl

theorem register_withOptions (tag : String) :
    (s.withOptions options).register tag = (s.register tag).withOptions options := by
  have registered := s.lexer.register_withOptions options tag
  simp only [register, withOptions, registered]

theorem answer_withOptions (r : Request) :
    (s.withOptions options).answer r = ((s.answer r).1, (s.answer r).2.withOptions options) := by
  have replied := s.reply_withOptions options (r.parse s.isEmpty)
  cases r with
  | register tag => exact Prod.ext rfl (s.register_withOptions options tag)
  | _ => exact replied

end TokenStream

namespace Parser

/-- The parser at the same place, over a lexer with other options. -/
def withOptions (p : Parser) (options : LexerOptions) : Parser :=
  { p with stream := p.stream.withOptions options }

variable {α : Type} (p : Parser) (options : LexerOptions)

theorem foldl_register_withOptions (tags : List String) (s : TokenStream) :
    tags.foldl TokenStream.register (s.withOptions options) =
      (tags.foldl TokenStream.register s).withOptions options := by
  induction tags generalizing s with
  | nil => rfl
  | cons tag tags ih => rw [List.foldl_cons, TokenStream.register_withOptions, ih, List.foldl_cons]

theorem register_withOptions (c : Construct) :
    (p.withOptions options).register c = (p.register c).withOptions options := by
  simp only [register, withOptions, foldl_register_withOptions]

theorem ask_withOptions (parse : Parse α) :
    (p.withOptions options).ask parse =
      ((p.ask parse).1, (p.ask parse).2.withOptions options) := by
  have runs := p.stream.run_withOptions options parse
  simp only [ask, withOptions, runs]

/-- A call is answered alike whatever trivia the lexer drops. -/
theorem call_withOptions (c : Call α) :
    (p.withOptions options).call c = ((p.call c).1, (p.call c).2.withOptions options) := by
  cases c with
  | query q => exact p.ask_withOptions options _
  | stream r =>
    have answered := p.stream.answer_withOptions options r
    simp only [call, withOptions, answered]
  | register c => exact Prod.ext rfl (p.register_withOptions options c)
  | startWith kind rule => rfl
  | continueWith kind power rule => rfl

theorem calls_withOptions (cs : List ((α : Type) × Call α)) :
    (p.withOptions options).calls cs = ((p.calls cs).1, (p.calls cs).2.withOptions options) := by
  induction cs generalizing p with
  | nil => rfl
  | cons c cs ih => rw [calls, calls, call_withOptions, ih]

theorem ofSource_withOptions (source : String) (file : Option String)
    (options options' : LexerOptions) :
    (ofSource source file options).withOptions options' = ofSource source file options' := by
  rw [withOptions, ofSource, ofRegistry, ← foldl_register_withOptions]
  rfl

/-- Any calls of a parser, failed ones among them, come to the same with all options of the
lexer: the same trees of the same tokens and the same errors at the same positions. -/
theorem calls_ofSource_options (source : String) (file : Option String)
    (options options' : LexerOptions) (cs : List ((α : Type) × Call α)) :
    ((ofSource source file options).calls cs).1 =
      ((ofSource source file options').calls cs).1 := by
  rw [← ofSource_withOptions source file options options', calls_withOptions]

end Parser

end TagLang
