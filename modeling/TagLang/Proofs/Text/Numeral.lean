import Mathlib.Data.Nat.Digits.Defs
import TagLang.Proofs.Unicode.Ascii
import TagLang.Text.Numeral

/-!
# The values of numerals

A numeral is read digit by digit from the left. What comes out is its positional value, as
soon as each of its characters is a digit of the radix (`numeral?_eq`).
-/

namespace TagLang.Text

open Unicode (isAscii)

/-- The digits of all radices, in the order of their values. -/
def digits : List Char := [
  '0', '1', '2', '3', '4', '5', '6', '7', '8', '9', 'a', 'b', 'c', 'd', 'e', 'f', 'g', 'h', 'i',
  'j', 'k', 'l', 'm', 'n', 'o', 'p', 'q', 'r', 's', 't', 'u', 'v', 'w', 'x', 'y', 'z']

/-- The value of a digit, in either case. -/
def digit (c : Char) : Nat := digits.idxOf c.toLower

/-- The number that a row of digits spells, the last digit counting ones. -/
def value (radix : Nat) (ds : List Char) : Nat := Nat.ofDigits radix (ds.reverse.map digit)

theorem value_cons (radix : Nat) (c : Char) (ds : List Char) :
    value radix (c :: ds) = digit c * radix ^ ds.length + value radix ds := by
  rw [value, List.reverse_cons, List.map_append, Nat.ofDigits_append, List.map_singleton,
    Nat.ofDigits_singleton, List.length_map, List.length_reverse, value]
  ring

/-- Beyond the ASCII range there are no digits. -/
theorem isAscii_of_digit_lt {c : Char} (h : digit c < 36) : isAscii c = true := by
  have mem : c.toLower ∈ digits := List.idxOf_lt_length_iff.mp h
  by_cases upper : 'A'.val ≤ c.val ∧ c.val ≤ 'Z'.val
  · exact Unicode.isAscii_of_le upper.2 (by decide)
  · have same : c.toLower = c := dif_neg upper
    rw [same] at mem
    have narrow : digits.all isAscii = true := by decide
    exact List.all_eq_true.mp narrow c mem

theorem digitValue?_eq (c : Char) :
    digitValue? c = if digit c < 36 then some (digit c) else none := by
  by_cases ascii : isAscii c = true
  · have same := Unicode.of_isAscii (p := fun c => digitValue? c ==
      if digit c < 36 then some (digit c) else none) (by decide +kernel) ascii
    exact eq_of_beq same
  · rw [if_neg (mt isAscii_of_digit_lt ascii), digitValue?,
      if_neg (mt Unicode.isAscii_of_isDigit ascii), if_neg (mt Unicode.isAscii_of_isLower ascii),
      if_neg (mt Unicode.isAscii_of_isUpper ascii)]

theorem digitOf?_eq {radix : Nat} (le : radix ≤ 36) (c : Char) :
    digitOf? radix c = if digit c < radix then some (digit c) else none := by
  rw [digitOf?, digitValue?_eq]
  by_cases within : digit c < radix
  · simp [within, Nat.lt_of_lt_of_le within le]
  · by_cases known : digit c < 36
    · simp [known, within, Nat.not_lt.mp within]
    · simp [known, within]

/-- A class of ASCII characters that are the digits of a radix. -/
theorem eq_digit_lt {radix : Nat} {p : Char → Bool} (le : radix ≤ 36)
    (narrow : ∀ c, p c = true → isAscii c = true)
    (same : ∀ n < 128, (p (Char.ofNat n) == decide (digit (Char.ofNat n) < radix)) = true)
    (c : Char) : p c = decide (digit c < radix) := by
  by_cases ascii : isAscii c = true
  · exact eq_of_beq (Unicode.of_isAscii (p := fun c => p c == decide (digit c < radix)) same ascii)
  · have beyond : ¬ digit c < radix := fun lt =>
      ascii (isAscii_of_digit_lt (Nat.lt_of_lt_of_le lt le))
    rw [decide_eq_false beyond, Bool.eq_false_iff]
    exact mt (narrow c) ascii

theorem isDigit_eq (c : Char) : c.isDigit = decide (digit c < 10) :=
  eq_digit_lt (by decide) (fun _ => Unicode.isAscii_of_isDigit) (by decide +kernel) c

theorem isHexDigit_eq (c : Char) : isHexDigit c = decide (digit c < 16) :=
  eq_digit_lt (by decide) (fun _ => Unicode.isAscii_of_isHexDigit) (by decide +kernel) c

theorem all_isHexDigit (ds : List Char) : ds.all isHexDigit = ds.all (digit · < 16) :=
  congrArg ds.all (funext isHexDigit_eq)

/-- A number goes on with a row of digits as far as they are digits. -/
theorem positional?_eq {radix : Nat} (le : radix ≤ 36) (ds : List Char) (n : Nat) :
    positional? radix n ds =
      if ds.all (digit · < radix) then some (n * radix ^ ds.length + value radix ds) else none := by
  induction ds generalizing n with
  | nil => simp [positional?, value]
  | cons c ds ih =>
    rw [positional?, digitOf?_eq le]
    by_cases first : digit c < radix
    · rw [if_pos first, Option.bind_some, ih]
      simp only [List.all_cons, first, decide_true, Bool.true_and, value_cons, List.length_cons]
      congr 2
      ring
    · rw [if_neg first, Option.bind_none, List.all_cons, decide_eq_false first, Bool.false_and]
      rfl

/-- A numeral without a sign spells the number that its digits have by their places. -/
theorem numeral?_eq {radix : Nat} (le : radix ≤ 36) (limit : Nat) {ds : List Char} (ne : ds ≠ [])
    (unsigned : '+' ∉ ds.head?) :
    numeral? radix limit ds =
      if ds.all (digit · < radix) ∧ value radix ds < limit then some (value radix ds)
      else none := by
  have read : numeral? radix limit ds = (positional? radix 0 ds).filter (· < limit) := by
    cases ds with
    | nil => exact absurd rfl ne
    | cons c ds =>
      have apart : c ≠ '+' := fun sign => unsigned (by rw [sign]; rfl)
      simp [numeral?, apart]
  rw [read, positional?_eq le]
  by_cases proper : ds.all (digit · < radix) = true
  · rw [if_pos proper, Nat.zero_mul, Nat.zero_add, Option.filter_some]
    exact if_congr (by rw [decide_eq_true_eq, and_iff_right proper]) rfl rfl
  · rw [if_neg proper, if_neg fun both => proper both.1]
    rfl

end TagLang.Text
