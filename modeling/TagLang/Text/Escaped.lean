import TagLang.Unicode.Classes

/-!
# Text as messages show it

Messages put texts between double quotes. Characters that are not drawn, and
marks that would attach to the quote, are written as code points, so a message
shows every character of what it quotes.
-/

namespace TagLang.Text

/-- The lowercase hexadecimal digits of a number, without leading zeros. -/
def hexadecimal (n : Nat) : List Char := Nat.toDigits 16 n

/-- Whether a character can be seen for itself inside quotes. -/
def isVisible (c : Char) : Bool :=
  Unicode.isPrintable c && !Unicode.isAttachingMark c && !Unicode.isDefaultIgnorable c

/-- A character as it stands in a quoted text. -/
def escaped (c : Char) : List Char :=
  if c == '\x00' then ['\\', '0']
  else if c == '\t' then ['\\', 't']
  else if c == '\r' then ['\\', 'r']
  else if c == '\n' then ['\\', 'n']
  else if c == '"' then ['\\', '"']
  else if c == '\\' then ['\\', '\\']
  else if isVisible c then [c]
  else ['\\', 'u', '{'] ++ hexadecimal c.toNat ++ ['}']

/-- A text between double quotes. -/
def quote (s : String) : String :=
  String.ofList (['"'] ++ s.toList.flatMap escaped ++ ['"'])

/-- An optional text: `None`, or `Some` around the quoted text. -/
def quoteOption : Option String → String
  | none => "None"
  | some s => s!"Some({quote s})"

end TagLang.Text
