import TagLang.Token.Basic

/-!
# Kinds of literals

A literal is a token together with the kind of value it stands for. Every
literal token has exactly one such kind.
-/

namespace TagLang

/-- What sort of value a literal stands for. -/
inductive LiteralKind
  | boolean | binaryInteger | decimalInteger | hexInteger | number | text | multilineText
  | dateTime | version | regularExpression | template | code | selfReference | undefined
  | anonymous
deriving DecidableEq, Repr, Inhabited

namespace LiteralKind

/-- The name a kind is reported under. -/
def name : LiteralKind → String
  | .boolean => "Boolean"
  | .binaryInteger => "BinaryInteger"
  | .decimalInteger => "DecimalInteger"
  | .hexInteger => "HexInteger"
  | .number => "Number"
  | .text => "Text"
  | .multilineText => "MultilineText"
  | .dateTime => "DateTime"
  | .version => "Version"
  | .regularExpression => "RegularExpression"
  | .template => "Template"
  | .code => "Code"
  | .selfReference => "SelfReference"
  | .undefined => "Undefined"
  | .anonymous => "Anonymous"

/-- Every kind, once. -/
def all : List LiteralKind := [
  .boolean, .binaryInteger, .decimalInteger, .hexInteger, .number, .text, .multilineText,
  .dateTime, .version, .regularExpression, .template, .code, .selfReference, .undefined,
  .anonymous]

theorem mem_all (k : LiteralKind) : k ∈ all := by
  cases k <;> decide

/-- The kind reported under a name. -/
def ofName? (s : String) : Option LiteralKind := all.find? fun k => k.name == s

/-- The kind of value a literal form stands for. -/
def ofForm : LiteralForm → LiteralKind
  | .anonymous => .anonymous
  | .binaryInteger => .binaryInteger
  | .decimalInteger => .decimalInteger
  | .hexInteger => .hexInteger
  | .number => .number
  | .version => .version
  | .doubleQuoted | .singleQuoted => .text
  | .doubleQuotedMultiline | .singleQuotedMultiline => .multilineText
  | .code => .code
  | .dateTime => .dateTime
  | .regularExpression => .regularExpression
  | .template => .template

/-- The kind of value a token stands for, if it is a literal. -/
def ofTokenKind? : TokenKind → Option LiteralKind
  | .literal form => some (ofForm form)
  | .word .trueWord | .word .falseWord => some .boolean
  | .word .selfWord => some .selfReference
  | .word .undefinedWord => some .undefined
  | _ => none

theorem isSome_ofTokenKind? (k : TokenKind) : (ofTokenKind? k).isSome = k.isLiteral := by
  cases k with
  | word w => cases w <;> rfl
  | _ => rfl

end LiteralKind

/-- A literal, kept as the token it was read from. -/
structure Literal where
  kind : LiteralKind
  token : Token
deriving DecidableEq, Repr, Inhabited

end TagLang
