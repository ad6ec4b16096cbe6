import TagLang.BindingPower
import TagLang.Element

/-!
# The registry of constructs

Which words begin a construct, and which tokens begin or continue an expression,
is data. Constructs are kept in the order of their registration, which decides
between those that share a tag. Rules for tokens are replaced by later ones.
-/

namespace TagLang

/-- A sort of elements under the tag it is dispatched on. A construct of two words
has a fixed second word; its auxiliary tags mean something only inside it. The sorts are
those of the language, or any others that someone knows how to parse. -/
structure Construct (κ : Type := ElementKind) where
  tag : String
  second : Option String
  auxiliaries : List String
  kind : κ
deriving DecidableEq, Repr, Inhabited

namespace Construct

variable {κ κ' : Type}

/-- A construct of one word. -/
def one (tag : String) (kind : κ) (auxiliaries : List String) : Construct κ :=
  ⟨tag, none, auxiliaries, kind⟩

/-- A construct of two words. -/
def two (tag second : String) (kind : κ) : Construct κ := ⟨tag, some second, [], kind⟩

/-- The same words for a sort that is named otherwise. -/
def map (f : κ → κ') (c : Construct κ) : Construct κ' :=
  ⟨c.tag, c.second, c.auxiliaries, f c.kind⟩

/-- The two words of a construct, joined by an underscore. -/
def joined? (c : Construct κ) : Option String := c.second.map fun second => s!"{c.tag}_{second}"

/-- The words that a construct makes tags. -/
def tags (c : Construct κ) : List String := c.tag :: c.auxiliaries ++ c.joined?.toList

/-- What a construct offers under a word. Under its joined spelling it needs no second
word. -/
def offers (c : Construct κ) (word : String) : List (Construct κ) :=
  (if c.joined? = some word then [{ c with second := none }] else [])
    ++ if c.tag = word then [c] else []

end Construct

/-- How a token begins an expression. -/
inductive ExprStart
  | literal | identifier | group | unary
deriving DecidableEq, Repr, Inhabited

/-- How a token continues an expression. A `power` groups to the right. -/
inductive ExprContinuation
  | binary | power | call | member
deriving DecidableEq, Repr, Inhabited

/-- Constructs in the order of registration, and rules for tokens, newest first. -/
structure Registry (κ : Type := ElementKind) where
  constructs : List (Construct κ)
  starts : List (TokenKind × ExprStart)
  continuations : List (TokenKind × BindingPower × ExprContinuation)
deriving Repr, Inhabited

namespace Registry

variable {κ κ' : Type}

/-- Nothing registered. -/
def empty : Registry κ := ⟨[], [], []⟩

/-- The same constructs and rules, with sorts that are named otherwise. -/
def map (f : κ → κ') (r : Registry κ) : Registry κ' :=
  ⟨r.constructs.map (.map f), r.starts, r.continuations⟩

/-- Register a construct behind all others. -/
def register (r : Registry κ) (c : Construct κ) : Registry κ :=
  { r with constructs := r.constructs ++ [c] }

/-- Let a token begin expressions. -/
def startWith (r : Registry κ) (kind : TokenKind) (rule : ExprStart) : Registry κ :=
  { r with starts := (kind, rule) :: r.starts }

/-- Let a token continue expressions. -/
def continueWith (r : Registry κ) (kind : TokenKind) (power : BindingPower)
    (rule : ExprContinuation) : Registry κ :=
  { r with continuations := (kind, power, rule) :: r.continuations }

/-- The constructs that a word may begin, in the order of registration. -/
def candidates (r : Registry κ) (word : String) : List (Construct κ) :=
  r.constructs.flatMap fun c => c.offers word

/-- The tag of the first construct that has the word as an auxiliary tag. -/
def owner? (r : Registry κ) (word : String) : Option String :=
  (r.constructs.find? fun c => c.auxiliaries.contains word).map Construct.tag

/-- How a kind of token begins an expression, if it does. -/
def start? (r : Registry κ) (kind : TokenKind) : Option ExprStart := r.starts.lookup kind

/-- How a kind of token continues an expression, and how tightly, if it does. -/
def continuation? (r : Registry κ) (kind : TokenKind) : Option (BindingPower × ExprContinuation) :=
  r.continuations.lookup kind

/-- The words that are tags. -/
def tags (r : Registry κ) : List String := r.constructs.flatMap Construct.tags

/-- Whether a token is a tag or a reserved word, which constructs are dispatched on. -/
def dispatches (t : Token) : Bool := t.kind == .tag || t.kind.isKeyword

/-- Whether some construct begins with the token. -/
def isConstructTag (r : Registry κ) (t : Token) : Bool :=
  dispatches t && !(r.candidates t.tagName).isEmpty

/-- The constructs of the language. -/
def standardConstructs : List Construct := [
  .one "module" (.scope .moduleScope) [],
  .one "package" (.scope .package) [],
  .one "function" (.callable .function) [],
  .one "behavior" (.callable .behavior) [],
  .one "constant" (.binding .constant) [],
  .one "value" (.binding .value) [],
  .one "variable" (.binding .variableSlot) [],
  .two "enumeration" "type" (.scope .enumerationType),
  .one "symbol" .symbol [],
  .two "object" "type" (.scope .objectType),
  .two "structure" "type" (.scope .structureType),
  .two "variant" "type" (.scope .variantType),
  .two "graph" "type" (.scope .graphType),
  .two "edge" "type" (.scope .edgeType),
  .two "vertex" "type" (.scope .vertexType),
  .one "if" .branch ["else"],
  .one "unless" .exemption ["else"],
  .one "match" .selection ["where", "else"],
  .one "check" .check ["detect", "regardless"],
  .one "assert" .assertion [],
  .one "call" .invocation [],
  .one "return" .result [],
  .one "raise" .raising [],
  .two "repeat" "for" .traversal,
  .two "repeat" "until" (.loop .untilTrue),
  .two "repeat" "while" (.loop .whileTrue),
  .one "set" .assignment []]

/-- The literals of the language: every literal form and the words that stand for a value. -/
def literalKinds : List TokenKind :=
  LiteralForm.all.map .literal
    ++ [.word .trueWord, .word .falseWord, .word .selfWord, .word .undefinedWord]

/-- The rules by which tokens begin expressions. -/
def standardStarts : List (TokenKind × ExprStart) :=
  literalKinds.map (·, .literal)
    ++ [(.identifier, .identifier), (.mark .openParen, .group), (.mark .dash, .unary),
      (.mark .bitwiseNot, .unary), (.mark .dollar, .unary)]

/-- The operators between two operands, all but the power. -/
def binaryOperators : List (Mark × BindingPower) := [
  (.questionQuestion, .coalesce),
  (.bitwiseOr, .bitwiseOr), (.bitwiseNor, .bitwiseOr), (.bitwiseXor, .bitwiseOr),
  (.bitwiseAnd, .bitwiseAnd), (.bitwiseNand, .bitwiseAnd),
  (.less, .relational), (.lessEquals, .relational), (.greater, .relational),
  (.greaterEquals, .relational), (.equalsEquals, .relational), (.tildeEquals, .relational),
  (.compare, .relational),
  (.rangeInclusive, .range), (.rangeExclusive, .range),
  (.shiftLeft, .shift), (.shiftRight, .shift), (.zeroShiftRight, .shift),
  (.plus, .additive), (.dash, .additive),
  (.star, .multiplicative), (.slash, .multiplicative), (.percent, .multiplicative)]

/-- The rules by which tokens continue expressions. -/
def standardContinuations : List (TokenKind × BindingPower × ExprContinuation) :=
  binaryOperators.map (fun (mark, power) => (.mark mark, power, .binary))
    ++ [(.mark .caret, .exponent, .power), (.mark .openParen, .call, .call),
      (.mark .dot, .member, .member), (.mark .dotQuestion, .member, .member)]

/-- The language as it is. -/
def standard : Registry := ⟨standardConstructs, standardStarts, standardContinuations⟩

end Registry

end TagLang
