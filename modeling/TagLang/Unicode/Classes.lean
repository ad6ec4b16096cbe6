import TagLang.Unicode.Alphabetic
import TagLang.Unicode.AttachingMark
import TagLang.Unicode.DecimalDigit
import TagLang.Unicode.DefaultIgnorable
import TagLang.Unicode.Numeric
import TagLang.Unicode.Unprintable
import TagLang.Unicode.WhiteSpace

/-!
# Character classes

Each class decides an ASCII character by a closed condition and looks all
others up in the table of its property. The closed conditions are what lexical
arguments rest on: marks, quotes and blanks are ASCII and lie in no word class.
-/

namespace TagLang.Unicode

/-- Characters below U+0080. -/
def isAscii (c : Char) : Bool := c.toNat < 0x80

/-- The property Alphabetic. -/
def isAlphabetic (c : Char) : Bool :=
  if isAscii c then c.isAlpha else alphabeticRanges.contains c.toNat

/-- Alphabetic characters and those of the categories Nd, Nl and No. -/
def isAlphanumeric (c : Char) : Bool :=
  isAlphabetic c || (if isAscii c then c.isDigit else numericRanges.contains c.toNat)

/-- The category Nd: the digits of every script known to version 16.0 of the standard. -/
def isDecimalDigit (c : Char) : Bool :=
  if isAscii c then c.isDigit else decimalDigitRanges.contains c.toNat

/-- The property White_Space. -/
def isWhiteSpace (c : Char) : Bool :=
  if isAscii c then c.toNat == 0x20 || (0x09 ≤ c.toNat && c.toNat ≤ 0x0D)
  else whiteSpaceRanges.contains c.toNat

/-- Marks with the property Grapheme_Extend, which attach to the character before them.
Letters with that property stand alone and are none. -/
def isAttachingMark (c : Char) : Bool :=
  !isAscii c && attachingMarkRanges.contains c.toNat

/-- The property Default_Ignorable_Code_Point: characters that are not drawn, fillers
among them. -/
def isDefaultIgnorable (c : Char) : Bool :=
  !isAscii c && defaultIgnorableRanges.contains c.toNat

/-- Characters of the categories of letters, marks, numbers, punctuation and symbols, and the
space U+0020. -/
def isPrintable (c : Char) : Bool :=
  if isAscii c then 0x20 ≤ c.toNat && c.toNat < 0x7F
  else !unprintableRanges.contains c.toNat

theorem isAlphanumeric_of_isAlphabetic {c : Char} (h : isAlphabetic c = true) :
    isAlphanumeric c = true := by
  simp [isAlphanumeric, h]

theorem isAlphabetic_underscore : isAlphabetic '_' = false := by decide

end TagLang.Unicode
