import TagLang.Scan.Read
import TagLang.Token.Basic

/-!
# The lexer

A lexer scans the lexeme ahead of its cursor and commits the span as a token. Options
drop white space and comments on the way. Faults are tokens like all others, so reading
never fails; at the end of the source it gives the same end-of-file token for ever.
-/

namespace TagLang

/-- Which lexemes a lexer drops. Documentation is never dropped. -/
structure LexerOptions where
  skipWhiteSpace : Bool
  skipComments : Bool
deriving DecidableEq, Repr

namespace LexerOptions

/-- Drop white space and comments. -/
def standard : LexerOptions := ⟨true, true⟩

/-- Whether lexemes of this kind are dropped. -/
def skips (o : LexerOptions) : TokenKind → Bool
  | .whiteSpace => o.skipWhiteSpace
  | .lineComment | .blockComment => o.skipComments
  | _ => false

end LexerOptions

instance : Inhabited LexerOptions := ⟨.standard⟩

/-- A cursor over the source of a labelled file. Nothing is pending between two tokens. -/
structure Lexer where
  cursor : Cursor
  file : String
  options : LexerOptions
  fresh : cursor.span = []
deriving Repr

instance : Inhabited Lexer := ⟨⟨Cursor.ofText [], "shell", default, rfl⟩⟩

namespace Lexer

/-- At the start of a source. A source without a label is that of a shell. -/
def ofSource (source : String) (file : Option String) (options : LexerOptions) : Lexer :=
  ⟨Cursor.ofText source.toList, file.getD "shell", options, rfl⟩

/-- How many characters are unread. -/
def unread (l : Lexer) : Nat := l.cursor.rest.length

/-- The scan of the lexeme ahead comes to a kind. -/
theorem isSome_lexeme (l : Lexer) : (Scan.lexeme l.cursor).isSome = true := by
  rw [Scan.lexeme_eq l.fresh, Option.isSome_some]

/-- The kind of the lexeme ahead, and the cursor behind it. -/
def scanned (l : Lexer) : TokenKind × Cursor := (Scan.lexeme l.cursor).get l.isSome_lexeme

/-- The cursor behind the lexeme ahead. -/
def passed (l : Lexer) : Cursor := l.scanned.2

/-- The lexer behind the lexeme ahead. -/
def next (l : Lexer) : Lexer := { l with cursor := l.passed.commit, fresh := rfl }

/-- The lexeme ahead as a token. -/
def token (l : Lexer) : Token :=
  ⟨l.scanned.1, String.ofList l.passed.span, Position.ofPlace l.file l.passed.start⟩

/-- The lexeme ahead. -/
def ahead (l : Lexer) : Lexeme := Lexeme.read l.cursor.rest

/-- What is scanned is the lexeme that the unread text begins with. -/
theorem scanned_eq (l : Lexer) :
    l.scanned = (l.ahead.kind, l.cursor.skip l.ahead.text.length) := by
  unfold scanned
  simp only [Scan.lexeme_eq l.fresh, Option.get_some, ahead]

theorem passed_eq (l : Lexer) : l.passed = l.cursor.skip l.ahead.text.length := by
  rw [passed, scanned_eq]

@[simp] theorem kind_token (l : Lexer) : l.token.kind = l.ahead.kind := by
  rw [token, scanned_eq]

theorem unread_next_lt {l : Lexer} (h : l.scanned.1 ≠ .eof) : l.next.unread < l.unread := by
  rw [scanned_eq] at h
  cases hr : l.cursor.rest with
  | nil => simp [ahead, hr] at h
  | cons c r =>
    have splits : (Lexeme.read (c :: r)).Splits (c :: r) := Lexeme.splits_read
    have shorter := splits.length_lt
    have rest : l.next.cursor.rest = (Lexeme.read (c :: r)).rest := by
      rw [Lexeme.rest_read_eq_drop]
      simp [next, passed_eq, ahead, hr]
    simpa [unread, hr, rest] using shorter

/-- Read the next token that is not dropped. -/
def read (l : Lexer) : Token × Lexer :=
  if _h : l.options.skips l.scanned.1 then l.next.read else (l.token, l.next)
termination_by l.unread
decreasing_by
  refine unread_next_lt fun eof => ?_
  simp [eof, LexerOptions.skips] at _h

theorem read_of_skips {l : Lexer} (h : l.options.skips l.ahead.kind = true) :
    l.read = l.next.read := by
  rw [read, dif_pos (by rwa [scanned_eq])]

theorem read_of_not_skips {l : Lexer} (h : ¬ l.options.skips l.ahead.kind = true) :
    l.read = (l.token, l.next) := by
  rw [read, dif_neg (by rwa [scanned_eq])]

theorem unread_read_lt {l : Lexer} (h : l.read.1.kind ≠ .eof) : l.read.2.unread < l.unread := by
  fun_induction read l with
  | case1 l hs ih =>
    refine Nat.lt_trans (ih h) (unread_next_lt fun eof => ?_)
    simp [eof, LexerOptions.skips] at hs
  | case2 l hs => exact unread_next_lt h

/-- Read all tokens through the end of the source. -/
def readAll (l : Lexer) : List Token × Lexer :=
  if _h : l.read.1.kind = .eof then ([l.read.1], l.read.2)
  else (l.read.1 :: l.read.2.readAll.1, l.read.2.readAll.2)
termination_by l.unread
decreasing_by all_goals exact unread_read_lt _h

end Lexer

/-- The tokens of a source, without white space and comments. -/
def tokenize (source : String) (file : Option String) : List Token :=
  (Lexer.ofSource source file .standard).readAll.1

end TagLang
