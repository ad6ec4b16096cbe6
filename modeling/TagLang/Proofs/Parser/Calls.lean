import TagLang.Proofs.TokenStream.Queue

/-!
# Calls of a parser

What can be asked of a parser, one call after the other: to parse something, to answer a
request for tokens, to register a construct or a rule. A call that fails leaves the parser
where the parse ended, and the next call goes on there.
-/

namespace TagLang

namespace Parser

/-- What a parser can be asked to parse, with the type of what comes of it. -/
inductive Query : Type → Type
  /-- Uses and exactly one element, through the end of the source. -/
  | unit : Query CompilationUnit
  /-- Uses and any number of elements, through the end of the source. -/
  | script : Query CompilationUnit
  | element : Query Element
  /-- Elements up to the end of their sequence. -/
  | elements : Query (List Element)
  | leading : Query (List Annotation)
  | trailing : Query (List Annotation)
  | path : Query Path
  | parameters : Query (List Parameter)
  /-- Arguments behind an opening parenthesis. -/
  | arguments : Query (List Expr)
  /-- An expression, unless the token taken begins none. -/
  | expr (power : BindingPower) : Query (Option Expr)
  /-- An expression that has to be there. -/
  | required (power : BindingPower) : Query Expr
  /-- The word that ends a construct. -/
  | closing : Query Token
  | atSequenceEnd : Query Bool
  | nextIsTag (tag : String) : Query Bool
  | acceptTag (tag : String) : Query (Option Token)
  | canBegin : Query Bool

/-- The parse that is asked for, with loops and nesting of at most `n`. -/
def Query.parse {α : Type} (r : Registry) (n : Nat) : Query α → Parse α
  | .unit => Grammar.compilationUnit r n
  | .script => Grammar.scriptUnit r n
  | .element => (Grammar.level r n).element
  | .elements => Grammar.elements r n (Grammar.level r n)
  | .leading => Grammar.leading n
  | .trailing => Grammar.trailing n
  | .path => Grammar.path n
  | .parameters => Grammar.parameters n
  | .arguments => Grammar.arguments n (Grammar.level r n)
  | .expr power => (Grammar.level r n).expr power
  | .required power => (Grammar.level r n).required power
  | .closing => Grammar.closing
  | .atSequenceEnd => Grammar.atSequenceEnd r
  | .nextIsTag tag => Grammar.nextIsTag tag
  | .acceptTag tag => Grammar.acceptTag tag
  | .canBegin => Grammar.canBegin r

/-- What a parser can be called for, with the type of what comes of it. -/
inductive Call : Type → Type 1
  | query {α : Type} (q : Query α) : Call α
  /-- A request to the parser's stream of tokens. -/
  | stream (r : Request) : Call Answer
  | register (c : Construct) : Call Unit
  | startWith (kind : TokenKind) (rule : ExprStart) : Call Unit
  | continueWith (kind : TokenKind) (power : BindingPower) (rule : ExprContinuation) : Call Unit

/-- Ask for a parse at the parser's depth. -/
def query {α : Type} (p : Parser) (q : Query α) : Except SyntaxError α × Parser :=
  p.ask (q.parse p.registry p.depth)

/-- Answer a call. -/
def call {α : Type} (p : Parser) : Call α → Except SyntaxError α × Parser
  | .query q => p.query q
  | .stream r => (.ok (p.stream.answer r).1, { p with stream := (p.stream.answer r).2 })
  | .register c => (.ok (), p.register c)
  | .startWith kind rule => (.ok (), p.startWith kind rule)
  | .continueWith kind power rule => (.ok (), p.continueWith kind power rule)

/-- Answer calls one after the other, whether they fail or not. -/
def calls : List ((α : Type) × Call α) → Parser → List ((α : Type) × Except SyntaxError α) × Parser
  | [], p => ([], p)
  | ⟨α, c⟩ :: cs, p =>
    let behind := calls cs (p.call c).2
    (⟨α, (p.call c).1⟩ :: behind.1, behind.2)

theorem unit_eq_query (p : Parser) : p.unit = p.query .unit := rfl

theorem script_eq_query (p : Parser) : p.script = p.query .script := rfl

end Parser

end TagLang
