import TagLang.Parse
import TagLang.Registry

/-!
# The grammar of expressions

An expression begins with one token and is continued as long as the next token
binds more tightly than the power it is parsed at. Operands are parsed by what
is one level below: a `Level` holds the parses of elements and expressions whose
nesting is bounded. A level consumes a token before it uses the one below, so a
level above the number of tokens left is never exhausted.
-/

namespace TagLang

/-- The parses of bounded nesting. An expression is absent if the token that was
taken begins none. -/
structure Level where
  element : Parse Element
  expr : BindingPower → Parse (Option Expr)

namespace Level

/-- No nesting at all: every token is refused. -/
def bottom : Level := ⟨Parse.refuse, fun _ => Parse.refuse⟩

/-- An expression that has to be there, or else the error is at the token taken. -/
def required (l : Level) (power : BindingPower) : Parse Expr := do
  let t ← Parse.look
  match ← l.expr power with
  | some e => return e
  | none => Parse.failAt t (.expressionMissing t.text)

/-- A whole expression that has to be there. -/
def expression (l : Level) : Parse Expr := l.required .loosest

end Level

namespace Grammar

open Parse

variable {κ : Type}

/-- A comma and an item, if a comma comes next. -/
def furtherItem {α : Type} (item : Parse α) : Parse (Option α) := do
  if ← accept (.mark .comma) then return some (← item) else return none

/-- Items separated by commas, through the closing parenthesis. -/
def items {α : Type} (n : Nat) (item : Parse α) : Parse (List α) := do
  if ← accept (.mark .closeParen) then return []
  else
    let first ← item
    let all ← gather (furtherItem item) n [first]
    let _ ← expect (.mark .closeParen)
    return all

/-- The arguments after an opening parenthesis. -/
def arguments (n : Nat) (below : Level) : Parse (List Expr) := items n below.expression

/-- The expression that a token begins. -/
def begun (below : Level) (rule : ExprStart) (t : Token) : Parse Expr :=
  match rule with
  | .literal =>
    match LiteralKind.ofTokenKind? t.kind with
    | some kind => return .literal ⟨kind, t⟩
    | none => failAt t (.expressionMissing t.text)
  | .identifier => return .identifier t
  | .group => do
    let e ← below.expression
    let _ ← expect (.mark .closeParen)
    return e
  | .unary => return .unary t (← below.required .unary)

/-- An expression continued past a token. The right operand of a power is parsed one
level looser, so that it may be a power itself. -/
def continued (n : Nat) (below : Level) (rule : ExprContinuation) (left : Expr) (t : Token)
    (power : BindingPower) : Parse Expr :=
  match rule with
  | .binary => return .binary left t (← below.required power)
  | .power => return .binary left t (← below.required .multiplicative)
  | .call => return .call left (← arguments n below)
  | .member => return .member left t (← expect .identifier)

/-- An expression continued as long as the next token binds more tightly than `power`,
at most `k` times. -/
def extended (r : Registry κ) (n : Nat) (below : Level) (power : BindingPower) :
    Nat → Expr → Parse Expr
  | 0, _ => refuse
  | k + 1, left => do
    match r.continuation? (← look).kind with
    | none => return left
    | some (tighter, rule) =>
      if tighter ≤ power then return left
      else
        let t ← next
        let longer ← continued n below rule left t tighter
        extended r n below power k longer

/-- Take a token and parse the expression it begins. -/
def expr (r : Registry κ) (n : Nat) (below : Level) (power : BindingPower) :
    Parse (Option Expr) := do
  let t ← next
  match r.start? t.kind with
  | none => return none
  | some rule =>
    let left ← begun below rule t
    return some (← extended r n below power n left)

/-- Whether the next token can begin an expression. -/
def canBegin (r : Registry κ) : Parse Bool := do
  return (r.start? (← look).kind).isSome

end Grammar

end TagLang
