import TagLang.Position
import TagLang.Token.Kind

/-!
# Tokens

A token is a kind, the exact slice of source it was read from and the position
of its first character. Reclassifying a token keeps its text and position.
-/

namespace TagLang

/-- One lexical unit of a source. -/
structure Token where
  kind : TokenKind
  text : String
  position : Position
deriving DecidableEq, Repr, Inhabited

namespace Token

/-- The same text at the same position, as another kind. -/
def reclassify (t : Token) (kind : TokenKind) : Token := { t with kind }

/-- The name a tag goes by: its text without one leading `#`. -/
def tagName (t : Token) : String :=
  match t.text.toList with
  | '#' :: name => String.ofList name
  | _ => t.text

/-- The text between back-ticks, the kind in parentheses, the position. -/
def render (t : Token) : String :=
  s!"\x60{t.text}\x60 ({t.kind.name}) at {t.position.render}"

@[simp] theorem kind_reclassify (t : Token) (k : TokenKind) : (t.reclassify k).kind = k := rfl

@[simp] theorem text_reclassify (t : Token) (k : TokenKind) : (t.reclassify k).text = t.text := rfl

@[simp] theorem position_reclassify (t : Token) (k : TokenKind) :
    (t.reclassify k).position = t.position := rfl

end Token

end TagLang
