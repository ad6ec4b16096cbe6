import TagLang.Grammar.Unit
import TagLang.TokenStream

/-!
# Parsers

A parser is a token stream with a registry. Every tag of the registry is
registered with the stream, so a word registered later is a tag from the next
token on that is read. A parse runs with a bound above the number of tokens that
are left, which no nesting can reach.
-/

namespace TagLang

/-- A token stream and what its tokens mean. -/
structure Parser (κ : Type := ElementKind) where
  stream : TokenStream
  registry : Registry κ

namespace Parser

variable {κ : Type}

/-- Register a construct and its tags. -/
def register (p : Parser κ) (c : Construct κ) : Parser κ :=
  ⟨c.tags.foldl TokenStream.register p.stream, p.registry.register c⟩

/-- Let a kind of token begin expressions. -/
def startWith (p : Parser κ) (kind : TokenKind) (rule : ExprStart) : Parser κ :=
  { p with registry := p.registry.startWith kind rule }

/-- Let a kind of token continue expressions. -/
def continueWith (p : Parser κ) (kind : TokenKind) (power : BindingPower)
    (rule : ExprContinuation) : Parser κ :=
  { p with registry := p.registry.continueWith kind power rule }

/-- A parser at the start of a source. -/
def ofRegistry (r : Registry κ) (source : String) (file : Option String)
    (options : LexerOptions) : Parser κ :=
  let stream := TokenStream.ofLexer (.ofLexer (.ofSource source file options))
  ⟨r.tags.foldl TokenStream.register stream, r⟩

/-- A parser of the language at the start of a source. -/
def ofSource (source : String) (file : Option String) (options : LexerOptions) : Parser :=
  ofRegistry .standard source file options

/-- More levels of nesting than there are tokens left. -/
def depth (p : Parser κ) : Nat := p.stream.remaining + 2

/-- Run a parse on the stream, which is left where the parse ended. -/
def ask {α : Type} (p : Parser κ) (parse : Parse α) : Except SyntaxError α × Parser κ :=
  let answer := p.stream.run parse
  (answer.1, { p with stream := answer.2 })

/-- The parses of elements and expressions at the parser's depth. -/
def level (p : Parser) : Level := Grammar.level p.registry p.depth

/-- Parse a unit of one element, with elements parsed as their sorts are handled. -/
def unitBy (handle : Grammar.Handling κ) (p : Parser κ) :
    Except SyntaxError CompilationUnit × Parser κ :=
  p.ask (Grammar.unitOf (Grammar.levelBy handle p.registry p.depth) p.depth)

/-- Parse a unit of any number of elements, with elements parsed as their sorts are handled. -/
def scriptBy (handle : Grammar.Handling κ) (p : Parser κ) :
    Except SyntaxError CompilationUnit × Parser κ :=
  p.ask (Grammar.scriptOf (Grammar.levelBy handle p.registry p.depth) p.depth)

/-- Parse a unit of one element of the language. -/
def unit (p : Parser) : Except SyntaxError CompilationUnit × Parser := p.unitBy Grammar.elementOf

/-- Parse a unit of any number of elements of the language. -/
def script (p : Parser) : Except SyntaxError CompilationUnit × Parser :=
  p.scriptBy Grammar.elementOf

end Parser

/-- Parse a source of uses and exactly one element. -/
def parse (source : String) (file : Option String) : Except SyntaxError CompilationUnit :=
  (Parser.ofSource source file .standard).unit.1

/-- Parse a source of uses and any number of elements. -/
def parseScript (source : String) (file : Option String) : Except SyntaxError CompilationUnit :=
  (Parser.ofSource source file .standard).script.1

end TagLang
