import TagLang.Text.Escaped
import TagLang.Token.Basic

/-!
# Syntax errors

An error is a cause at a position. The cause carries all that its message and
its tip say, so both are functions of it. Faults of the lexer have no tip.
-/

namespace TagLang

/-- Why a source cannot be parsed. -/
inductive SyntaxCause
  /-- Another kind of token, or another text of that kind, was needed here. -/
  | unexpectedToken (expected : TokenKind) (expectedText : Option String) (actual : TokenKind)
      (actualText : String)
  /-- A colon stands here without something that annotates. -/
  | annotationMissing (actual : TokenKind) (actualText : String)
  /-- No expression begins with this token. -/
  | expressionMissing (token : String)
  /-- No declaration or statement begins with this token. -/
  | unrecognizedElement (token : String)
  /-- The tag belongs inside the construct that owns it. -/
  | misplacedAuxiliary (tag owner : String)
  /-- The lexer found a fault. -/
  | lexical (kind : TokenKind) (text : String)
deriving DecidableEq, Repr, Inhabited

namespace SyntaxCause

/-- The name a cause is reported under. -/
def name : SyntaxCause → String
  | .unexpectedToken .. => "UnexpectedToken"
  | .annotationMissing .. => "ExpectedAnnotation"
  | .expressionMissing .. => "ExpectedExpression"
  | .unrecognizedElement .. => "UnrecognisedCodeElement"
  | .misplacedAuxiliary .. => "MisplacedAuxiliaryTag"
  | .lexical .. => "LexicalError"

/-- One line about the cause. -/
def message : SyntaxCause → String
  | .unexpectedToken expected expectedText actual actualText =>
    s!"unexpected token: expected {expected.name} {Text.quoteOption expectedText}, "
      ++ s!"found {actual.name} {Text.quote actualText}"
  | .annotationMissing actual actualText =>
    s!"expected annotation after \x60:\x60, found {actual.name} {Text.quote actualText}"
  | .expressionMissing token => s!"expected expression, found {Text.quote token}"
  | .unrecognizedElement token => s!"unrecognised code element: {Text.quote token}"
  | .misplacedAuxiliary tag owner =>
    s!"auxiliary tag {Text.quote tag} outside of {Text.quote owner}"
  | .lexical kind text => s!"lexical error {kind.name}: {Text.quote text}"

/-- What a reader may do about the cause. -/
def tip : SyntaxCause → Option String
  | .unexpectedToken expected (some expectedText) actual actualText =>
    some (s!"expected \x60{expectedText}\x60 ({expected.name}), "
      ++ s!"found \x60{actualText}\x60 ({actual.name})")
  | .unexpectedToken expected none actual actualText =>
    some s!"expected {expected.name}, found \x60{actualText}\x60 ({actual.name})"
  | .annotationMissing _ actualText =>
    some ("\x60:\x60 must be followed by an annotation name or documentation, "
      ++ s!"found \x60{actualText}\x60")
  | .expressionMissing token => some s!"\x60{token}\x60 cannot start an expression"
  | .unrecognizedElement token =>
    some s!"\x60{token}\x60 does not start a declaration or statement"
  | .misplacedAuxiliary tag owner => some s!"\x60{tag}\x60 may only appear inside \x60{owner}\x60"
  | .lexical .. => none

end SyntaxCause

/-- The first cause that stops a parse, and where it stands. -/
structure SyntaxError where
  cause : SyntaxCause
  position : Position
deriving DecidableEq, Repr, Inhabited

namespace SyntaxError

/-- The position and the message of the cause. -/
def message (e : SyntaxError) : String := s!"{e.position.render}: {e.cause.message}"

end SyntaxError

end TagLang
