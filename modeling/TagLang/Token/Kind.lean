import TagLang.Token.Mark

/-!
# Kinds of tokens

A kind says what sort of lexeme a token is. Literals, marks, reserved words and
lexical faults are families of their own, so the questions that other modules
ask of a kind (is it a keyword, a fault, a literal, trivia) are read off its
constructor.
-/

namespace TagLang

/-- The forms of literals that are not reserved words. -/
inductive LiteralForm
  | anonymous | binaryInteger | decimalInteger | hexInteger | number | version
  | doubleQuoted | singleQuoted | doubleQuotedMultiline | singleQuotedMultiline
  | code | dateTime | regularExpression | template
deriving DecidableEq, Repr, Inhabited

namespace LiteralForm

/-- The name a literal form is reported under. -/
def name : LiteralForm → String
  | .anonymous => "AnonymousLiteral"
  | .binaryInteger => "BinaryIntegerLiteral"
  | .decimalInteger => "DecimalIntegerLiteral"
  | .hexInteger => "HexIntegerLiteral"
  | .number => "NumberLiteral"
  | .version => "VersionLiteral"
  | .doubleQuoted => "DoubleQuotedText"
  | .singleQuoted => "SingleQuotedText"
  | .doubleQuotedMultiline => "DoubleQuotedMultilineText"
  | .singleQuotedMultiline => "SingleQuotedMultilineText"
  | .code => "CodeLiteral"
  | .dateTime => "DateTimeLiteral"
  | .regularExpression => "RegularExpressionLiteral"
  | .template => "TemplateLiteral"

/-- Every literal form, once. -/
def all : List LiteralForm := [
  .anonymous, .binaryInteger, .decimalInteger, .hexInteger, .number, .version, .doubleQuoted,
  .singleQuoted, .doubleQuotedMultiline, .singleQuotedMultiline, .code, .dateTime,
  .regularExpression, .template]

theorem mem_all (f : LiteralForm) : f ∈ all := by
  cases f <;> decide

end LiteralForm

/-- The reserved words. -/
inductive Keyword
  | asWord | endWord | falseWord | moduleWord | packageWord | selfWord | trueWord
  | undefinedWord | useWord
deriving DecidableEq, Repr, Inhabited

namespace Keyword

/-- The characters a reserved word is written with. -/
def spelling : Keyword → List Char
  | .asWord => ['a', 's']
  | .endWord => ['e', 'n', 'd']
  | .falseWord => ['f', 'a', 'l', 's', 'e']
  | .moduleWord => ['m', 'o', 'd', 'u', 'l', 'e']
  | .packageWord => ['p', 'a', 'c', 'k', 'a', 'g', 'e']
  | .selfWord => ['s', 'e', 'l', 'f']
  | .trueWord => ['t', 'r', 'u', 'e']
  | .undefinedWord => ['u', 'n', 'd', 'e', 'f', 'i', 'n', 'e', 'd']
  | .useWord => ['u', 's', 'e']

/-- The name a reserved word is reported under. -/
def name : Keyword → String
  | .asWord => "As"
  | .endWord => "End"
  | .falseWord => "False"
  | .moduleWord => "Module"
  | .packageWord => "Package"
  | .selfWord => "SelfKeyword"
  | .trueWord => "True"
  | .undefinedWord => "Undefined"
  | .useWord => "Use"

/-- Every reserved word, once. -/
def all : List Keyword := [
  .asWord, .endWord, .falseWord, .moduleWord, .packageWord, .selfWord, .trueWord,
  .undefinedWord, .useWord]

theorem mem_all (w : Keyword) : w ∈ all := by
  cases w <;> decide

/-- The reserved word with this spelling, if there is one. -/
def ofSpelling? (s : List Char) : Option Keyword := all.find? fun w => w.spelling == s

theorem ofSpelling?_spelling (w : Keyword) : ofSpelling? w.spelling = some w := by
  cases w <;> decide

theorem ofSpelling?_eq_some_iff {s : List Char} {w : Keyword} :
    ofSpelling? s = some w ↔ s = w.spelling := by
  constructor
  · intro h
    have found := List.find?_some h
    exact (by simpa using found : w.spelling = s).symm
  · rintro rfl
    exact ofSpelling?_spelling w

end Keyword

/-- What can be wrong with a lexeme. -/
inductive LexicalFault
  | invalidIdentifier | invalidText | unclosedText | unclosedCode | unclosedTemplate
  | unclosedBlockComment | unclosedRegularExpression | invalidTime | unclosedTime
  | unexpectedCharacter
deriving DecidableEq, Repr, Inhabited

namespace LexicalFault

/-- The name a fault is reported under. -/
def name : LexicalFault → String
  | .invalidIdentifier => "ErrorInvalidIdentifier"
  | .invalidText => "ErrorInvalidTextLiteral"
  | .unclosedText => "ErrorUnclosedTextLiteral"
  | .unclosedCode => "ErrorUnclosedCodeLiteral"
  | .unclosedTemplate => "ErrorUnclosedTemplateLiteral"
  | .unclosedBlockComment => "ErrorUnclosedBlockComment"
  | .unclosedRegularExpression => "ErrorUnclosedRegularExpression"
  | .invalidTime => "ErrorInvalidTimeLiteral"
  | .unclosedTime => "ErrorUnclosedTimeLiteral"
  | .unexpectedCharacter => "ErrorUnexpectedCharacter"

/-- Every fault, once. -/
def all : List LexicalFault := [
  .invalidIdentifier, .invalidText, .unclosedText, .unclosedCode, .unclosedTemplate,
  .unclosedBlockComment, .unclosedRegularExpression, .invalidTime, .unclosedTime,
  .unexpectedCharacter]

theorem mem_all (f : LexicalFault) : f ∈ all := by
  cases f <;> decide

end LexicalFault

/-- The sort of a token. A `word` is a reserved word; other words are identifiers
or tags. -/
inductive TokenKind
  | eof
  | whiteSpace
  | lineComment
  | blockComment
  | documentation
  | identifier
  | tag
  | literal (form : LiteralForm)
  | mark (mark : Mark)
  | word (word : Keyword)
  | fault (fault : LexicalFault)
deriving DecidableEq, Repr, Inhabited

namespace TokenKind

/-- The name a kind is reported under. -/
def name : TokenKind → String
  | .eof => "EOF"
  | .whiteSpace => "WhiteSpace"
  | .lineComment => "LineComment"
  | .blockComment => "BlockComment"
  | .documentation => "Documentation"
  | .identifier => "Identifier"
  | .tag => "Tag"
  | .literal f => f.name
  | .mark m => m.name
  | .word w => w.name
  | .fault f => f.name

/-- Every kind, once. -/
def all : List TokenKind :=
  [.eof, .whiteSpace, .lineComment, .blockComment, .documentation, .identifier, .tag]
    ++ LiteralForm.all.map .literal ++ Mark.all.map .mark ++ Keyword.all.map .word
    ++ LexicalFault.all.map .fault

theorem mem_all (k : TokenKind) : k ∈ all := by
  cases k <;> simp [all, LiteralForm.mem_all, Mark.mem_all, Keyword.mem_all, LexicalFault.mem_all]

/-- The kind reported under a name. -/
def ofName? (s : String) : Option TokenKind := all.find? fun k => k.name == s

/-- Reserved words. -/
def isKeyword : TokenKind → Bool
  | .word _ => true
  | _ => false

/-- Lexical faults. -/
def isFault : TokenKind → Bool
  | .fault _ => true
  | _ => false

/-- Literals, the words that stand for a value among them. -/
def isLiteral : TokenKind → Bool
  | .literal _ => true
  | .word .trueWord | .word .falseWord | .word .selfWord | .word .undefinedWord => true
  | _ => false

/-- White space and comments, which no parser sees. -/
def isTrivia : TokenKind → Bool
  | .whiteSpace | .lineComment | .blockComment => true
  | _ => false

/-- The kinds that annotate the construct after them. -/
def annotates : TokenKind → Bool
  | .documentation | .identifier => true
  | _ => false

end TokenKind

end TagLang
