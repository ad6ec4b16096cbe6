import TagLang.Lexer.Basic

/-!
# Tagging identifiers

Which words are tags is not known to the lexer: they are registered from
outside, and an identifier becomes a tag when it is read while its text is
registered.
-/

namespace TagLang

/-- A lexer with the registered tags. -/
structure TaggedLexer where
  lexer : Lexer
  tags : List String
deriving Repr, Inhabited

namespace TaggedLexer

/-- No tags are registered at first. -/
def ofLexer (lexer : Lexer) : TaggedLexer := ⟨lexer, []⟩

/-- Whether a text is registered. -/
def isRegistered (l : TaggedLexer) (text : String) : Bool := l.tags.contains text

/-- Register a text. -/
def register (l : TaggedLexer) (text : String) : TaggedLexer :=
  if l.isRegistered text then l else { l with tags := text :: l.tags }

/-- Make a tag of an identifier with a registered text. -/
def retag (l : TaggedLexer) (t : Token) : Token :=
  if t.kind = .identifier ∧ l.isRegistered t.text then t.reclassify .tag else t

/-- Read the next token. -/
def read (l : TaggedLexer) : Token × TaggedLexer :=
  (l.retag l.lexer.read.1, { l with lexer := l.lexer.read.2 })

/-- Read all tokens through the end of the source. -/
def readAll (l : TaggedLexer) : List Token × TaggedLexer :=
  (l.lexer.readAll.1.map l.retag, { l with lexer := l.lexer.readAll.2 })

/-- Tags and identifiers alike are no trivia, so retagging keeps what is trivia. -/
theorem isTrivia_retag (l : TaggedLexer) (t : Token) :
    (l.retag t).kind.isTrivia = t.kind.isTrivia := by
  unfold retag
  split
  · rename_i h
    simp [h.1, TokenKind.isTrivia]
  · rfl

/-- Read the next token that is neither white space nor a comment. -/
def readSignificant (l : TaggedLexer) : Token × TaggedLexer :=
  if _h : l.read.1.kind.isTrivia then l.read.2.readSignificant else l.read
termination_by l.lexer.unread
decreasing_by
  refine Lexer.unread_read_lt fun eof => ?_
  rw [read, isTrivia_retag, eof] at _h
  simp [TokenKind.isTrivia] at _h

end TaggedLexer

end TagLang
