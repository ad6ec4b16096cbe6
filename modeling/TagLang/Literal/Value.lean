import TagLang.Literal.DateTime
import TagLang.Literal.Kind
import TagLang.Literal.Version
import TagLang.Text.Bytes
import TagLang.Text.Unescaped

/-!
# Values of literals

A literal is decoded on demand: as a truth value, an integer, a text, a version
or a date and time. A view is absent where the literal is of another kind or its
text does not fit the view.
-/

namespace TagLang

namespace Literal

/-- The truth value of a reserved word. -/
def bool? (l : Literal) : Option Bool :=
  match l.token.kind with
  | .word .trueWord => some true
  | .word .falseWord => some false
  | _ => none

/-- The integers that fit into a word of sixty-four bits. -/
def integerLimit : Nat := UInt64.size

/-- The characters of an integer without the underscores that separate them. -/
def ungrouped (l : Literal) : List Char := l.token.text.toList.filter (· != '_')

/-- The value of an integer. The radix takes the first two bytes, a size suffix is
ignored, and a value beyond the limit is absent. -/
def integer? (l : Literal) : Option Nat :=
  match l.kind with
  | .binaryInteger => (Text.dropBytes? 2 l.ungrouped).bind (Text.numeral? 2 integerLimit)
  | .hexInteger => (Text.dropBytes? 2 l.ungrouped).bind (Text.numeral? 16 integerLimit)
  | .decimalInteger =>
    Text.numeral? 10 integerLimit (l.ungrouped.reverse.dropWhile Char.isAlpha).reverse
  | _ => none

/-- The text between the quotes, with its escapes decoded. -/
def text? (l : Literal) : Option String :=
  let quotes := match l.kind with
    | .text => some 1
    | .multilineText => some 3
    | _ => none
  quotes.bind fun n =>
    ((Text.stripBytes? n l.token.text.toList).bind Text.unescape?).map String.ofList

/-- The parts of a version. -/
def version? (l : Literal) : Option Version :=
  if l.kind = .version then Version.ofText? l.token.text.toList else none

/-- The parts of a date and time. -/
def dateTime? (l : Literal) : Option DateTime :=
  if l.kind = .dateTime then DateTime.ofText? l.token.text.toList else none

end Literal

end TagLang
