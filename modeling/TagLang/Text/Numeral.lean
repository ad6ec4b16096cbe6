/-!
# Numerals

Reading a natural number in a radix up to thirty-six, with digits and letters of
ASCII. One plus sign may stand in front.
-/

namespace TagLang.Text

/-- The value of a character as a digit of any radix. -/
def digitValue? (c : Char) : Option Nat :=
  if c.isDigit then some (c.toNat - '0'.toNat)
  else if c.isLower then some (c.toNat - 'a'.toNat + 10)
  else if c.isUpper then some (c.toNat - 'A'.toNat + 10)
  else none

/-- The value of a character as a digit of the given radix. -/
def digitOf? (radix : Nat) (c : Char) : Option Nat :=
  (digitValue? c).filter (· < radix)

/-- The value of a row of digits that continues a number. -/
def positional? (radix : Nat) : Nat → List Char → Option Nat
  | value, [] => some value
  | value, c :: r => (digitOf? radix c).bind fun d => positional? radix (value * radix + d) r

/-- The number a text spells, if it is below the limit. -/
def numeral? (radix limit : Nat) (s : List Char) : Option Nat :=
  let digits := match s with
    | '+' :: r => r
    | _ => s
  if digits = [] then none else (positional? radix 0 digits).filter (· < limit)

end TagLang.Text
