import TagLang.Literal.Kind

/-!
# Expressions

Parentheses group while parsing and leave no node behind. An expression knows
the token it begins with, which is where errors about it would point.
-/

namespace TagLang

/-- An expression. -/
inductive Expr
  | literal (value : Literal)
  | identifier (name : Token)
  | unary (operator : Token) (operand : Expr)
  | binary (left : Expr) (operator : Token) (right : Expr)
  | call (callee : Expr) (arguments : List Expr)
  | member (object : Expr) (operator : Token) (name : Token)
deriving Repr, Inhabited

namespace Expr

/-- The sorts of expressions. -/
inductive Kind
  | literal | identifier | unary | binary | call | member
deriving DecidableEq, Repr

/-- The name a sort of expressions is reported under. -/
def Kind.name : Kind → String
  | .literal => "Literal"
  | .identifier => "Identifier"
  | .unary => "Prefix"
  | .binary => "Operator"
  | .call => "Call"
  | .member => "Member"

/-- The sort of an expression. -/
def kind : Expr → Kind
  | .literal _ => .literal
  | .identifier _ => .identifier
  | .unary .. => .unary
  | .binary .. => .binary
  | .call .. => .call
  | .member .. => .member

/-- The leftmost token of an expression, parentheses aside. -/
def first : Expr → Token
  | .literal value => value.token
  | .identifier name => name
  | .unary operator _ => operator
  | .binary left _ _ => left.first
  | .call callee _ => callee.first
  | .member object _ _ => object.first

end Expr

end TagLang
