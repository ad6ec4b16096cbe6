import TagLang.Proofs.Lexeme.Kept.Number
import TagLang.Proofs.Lexeme.Munch
import TagLang.Proofs.Lexeme.Origin
import TagLang.Proofs.Unicode.Ascii

/-!
# The grammar of numbers

Integers of three bases, numbers and versions are five languages, none of which shares a
word with another. A text that begins with a digit begins with words of several of them. The
recognizer of numbers takes the longest of these words, although it looks ahead by three
characters at most and never goes back.
-/

namespace TagLang

open Text

namespace LiteralForm

/-- Digits, with underscores between and behind them. -/
def grouped : Language Char := row Char.isDigit Lexeme.isDigitOrUnderscore

/-- An exponent: a letter, an optional sign and digits. -/
def exponent : Language Char :=
  anyOf "eE" * maybe (anyOf "+-") * row Char.isDigit Char.isDigit

/-- A label of a version: a letter and further characters of words, or digits. -/
def label : Language Char :=
  row Unicode.isAlphabetic isWordBody + row Char.isDigit Char.isDigit

/-- An integer of a base that has a letter: a zero, the letter and digits with underscores
between and behind them. -/
def based (letters : String) (digit : Char → Bool) : Language Char :=
  anyOf "0" * anyOf letters * row digit fun c => digit c || c == '_'

/-- The words of numbers and versions, by their form. The words of other forms do not begin
with a digit. -/
def numerals : LiteralForm → Language Char
  | .binaryInteger => based "bB" Lexeme.isBit
  | .hexInteger => based "xX" isHexDigit
  | .decimalInteger => grouped * maybe (anyOf "uU") * maybe (anyOf "iIlLsSyY")
  | .number =>
    grouped * anyOf "." * grouped * maybe exponent * maybe (anyOf "dDfFgG") +
      grouped * exponent * maybe (anyOf "dDfFgG")
  | .version =>
    grouped * anyOf "." * grouped * anyOf "." * grouped * maybe (anyOf "-" * label) *
      maybe (anyOf "+" * label)
  | _ => 0

end LiteralForm

namespace Lexeme

open LiteralForm (based grouped exponent numerals)

variable {s : List Char} {d : Char} {r : List Char}

section Parts

theorem leads_row_isDigit (q : Char → Bool) : Leads Char.isDigit (row Char.isDigit q) :=
  (leads_one fun _ h => h).mul _

theorem settles_someDigits : Cut.Settles someDigits (row Char.isDigit Char.isDigit) Char.isDigit :=
  Cut.settles_row fun _ h => h

theorem settles_grouped :
    Cut.Settles (Cut.guarded Char.isDigit (Cut.run isDigitOrUnderscore)) grouped
      isDigitOrUnderscore :=
  Cut.settles_row fun _ => isDigitOrUnderscore_of_isDigit

theorem settles_dotDigits? :
    Cut.Settles dotDigits? (anyOf "." * grouped) isDigitOrUnderscore := by
  rw [dotDigits?_eq, ← one_eq_anyOf (p := (· == '.')) fun c => by simp]
  exact settles_grouped.behind _

theorem settles_exponent? : Cut.Settles exponent? exponent Char.isDigit := by
  have sign : one (fun c => c == '+' || c == '-') = anyOf "+-" := one_eq_anyOf fun c => by simp
  have letter : one (fun c => c == 'e' || c == 'E') = anyOf "eE" := one_eq_anyOf fun c => by simp
  have signed := settles_someDigits.behind fun c => c == '+' || c == '-'
  rw [sign] at signed
  have digits := settles_someDigits.either signed (leads_row_isDigit _)
    ((leads_anyOf "+-").mul _) (decide_mem_eq_false (by decide))
  have settled := digits.behind fun c => c == 'e' || c == 'E'
  rw [letter, ← exponent?_eq] at settled
  rwa [exponent, mul_assoc, maybe, add_mul, one_mul]

theorem settles_label (introducer : Char) (cs : String) (same : cs.toList = [introducer]) :
    Cut.Settles (Cut.behind (· == introducer)
      (Cut.either (Cut.guarded Unicode.isAlphabetic (Cut.run isWordBody)) someDigits))
        (anyOf cs * LiteralForm.label) isWordBody := by
  have letter : one (· == introducer) = anyOf cs := one_eq_anyOf fun c => by simp [same]
  have word : Cut.Settles (Cut.guarded Unicode.isAlphabetic (Cut.run isWordBody))
      (row Unicode.isAlphabetic isWordBody) isWordBody :=
    Cut.settles_row fun _ => isWordBody_of_isAlphabetic
  have digits : Cut.Settles someDigits (row Char.isDigit Char.isDigit) isWordBody :=
    settles_someDigits.mono fun _ => Unicode.isWordBody_of_isDigit
  have settled := (word.either digits ((leads_one fun _ h => h).mul _) (leads_row_isDigit _)
    fun _ => Unicode.isDigit_of_isAlphabetic).behind (· == introducer)
  rwa [letter] at settled

/-- What is left of a version behind its patch. -/
def labels : Language Char :=
  maybe (anyOf "-" * LiteralForm.label) * maybe (anyOf "+" * LiteralForm.label)

/-- What is left of a number behind its digits. -/
def numberSuffix : Language Char := maybe (anyOf "dDfFgG")

/-- What is left of an integer behind its digits. -/
def integerSuffix : Language Char := maybe (anyOf "uU") * maybe (anyOf "iIlLsSyY")

theorem munches_labels : Cut.Munches (fun s => (label '-' s).andThen (label '+')) labels := by
  have plus := (settles_label '+' "+" rfl).getD ((leads_anyOf "+").mul _)
  rw [← label_eq] at plus
  have both := (settles_label '-' "-" rfl).maybe plus (apart_anyOf_mul (by decide) _).maybe
    ((leads_anyOf "-").mul _) (apart_anyOf_mul (by decide) _).maybe
  rwa [label_eq '-']

theorem munches_numberSuffix : Cut.Munches (Cut.one isNumberSuffix) numberSuffix := by
  have letters : one isNumberSuffix = anyOf "dDfFgG" :=
    one_eq_anyOf fun c => by simp [isNumberSuffix, or_assoc]
  rw [numberSuffix, ← letters]
  exact Cut.munches_one isNumberSuffix

theorem munches_integerSuffix :
    Cut.Munches (fun s => (Cut.one (fun c => c == 'u' || c == 'U') s).andThen
      (Cut.one isIntegerSuffix)) integerSuffix := by
  have sign : one (fun c => c == 'u' || c == 'U') = anyOf "uU" := one_eq_anyOf fun c => by simp
  have size : one isIntegerSuffix = anyOf "iIlLsSyY" :=
    one_eq_anyOf fun c => by simp [isIntegerSuffix, or_assoc]
  rw [integerSuffix, ← sign, ← size]
  refine Cut.munches_one_andThen _ (Cut.munches_one isIntegerSuffix) ?_
  rw [size]
  exact (apart_anyOf (by decide)).maybe

end Parts

section Decimals

/-- A dot and digits behind it. -/
def dotted : Language Char := anyOf "." * grouped

/-- What may come behind an exponent, or in place of it. -/
def scaled (H : Forms) : Forms := (fun form => exponent * only .number numberSuffix form) + H

/-- What may come behind the first dot and its digits. -/
def fractions : Forms :=
  (fun form => dotted * only .version labels form) + scaled (only .number numberSuffix)

/-- What may come behind the first digits. -/
def tails : Forms :=
  (fun form => dotted * fractions form) + scaled (only .decimalInteger integerSuffix)

variable {p : Char → Bool}

theorem apart_numberSuffix (disjoint : excludes p "dDfFgG" = true) (form : LiteralForm) :
    Apart p (only .number numberSuffix form) :=
  apart_only (apart_anyOf disjoint).maybe _ _

theorem apart_integerSuffix (sign : excludes p "uU" = true)
    (size : excludes p "iIlLsSyY" = true) (form : LiteralForm) :
    Apart p (only .decimalInteger integerSuffix form) :=
  apart_only ((apart_anyOf sign).maybe.mul (apart_anyOf size).maybe) _ _

theorem apart_labels (dash : excludes p "-" = true) (plus : excludes p "+" = true)
    (form : LiteralForm) : Apart p (only .version labels form) :=
  apart_only ((apart_anyOf_mul dash _).maybe.mul (apart_anyOf_mul plus _).maybe) _ _

theorem apart_scaled {H : Forms} {form : LiteralForm} (letter : excludes p "eE" = true)
    (apart : Apart p (H form)) : Apart p (scaled H form) := by
  have exponents : Apart p (exponent * only .number numberSuffix form) := by
    rw [exponent, mul_assoc, mul_assoc]
    exact apart_anyOf_mul letter _
  exact exponents.add apart

theorem apart_dotted (dot : excludes p "." = true) (M : Language Char) :
    Apart p (dotted * M) := by
  rw [dotted, mul_assoc]
  exact apart_anyOf_mul dot _

theorem apart_fractions (dot : excludes p "." = true) (letter : excludes p "eE" = true)
    (suffix : excludes p "dDfFgG" = true) (form : LiteralForm) : Apart p (fractions form) :=
  (apart_dotted dot _).add (apart_scaled letter (apart_numberSuffix suffix form))

theorem apart_tails (dot : excludes p "." = true) (letter : excludes p "eE" = true)
    (sign : excludes p "uU" = true) (size : excludes p "iIlLsSyY" = true)
    (form : LiteralForm) : Apart p (tails form) :=
  (apart_dotted dot _).add (apart_scaled letter (apart_integerSuffix sign size form))

theorem reads_suffixed (s : List Char) : Reads (suffixed s) (only .number numberSuffix) s :=
  reads_ofCut munches_numberSuffix .number s

theorem reads_scaled {other : List Char → Lexeme} {H : Forms} (hother : ∀ s, Reads (other s) H s)
    (apart : ∀ form, Apart (fun c => decide (c ∈ "eE".toList)) (H form)) (s : List Char) :
    Reads (branch exponent? suffixed other s) (scaled H) s := by
  have leads : Leads (fun c => decide (c ∈ "eE".toList)) exponent :=
    ((leads_anyOf "eE").mul _).mul _
  exact reads_branch settles_exponent? leads reads_suffixed hother
    (apart_numberSuffix (by decide)) apart s

theorem reads_decimalTail (s : List Char) : Reads (decimalTail s) tails s := by
  have leads : Leads (fun c => decide (c ∈ ".".toList)) dotted := (leads_anyOf ".").mul _
  have numbers := reads_scaled reads_suffixed (apart_numberSuffix (by decide))
  have integers := reads_scaled (reads_ofCut munches_integerSuffix .decimalInteger)
    (apart_integerSuffix (by decide) (by decide))
  have afterDot := reads_branch settles_dotDigits? leads
    (reads_ofCut munches_labels .version) numbers (apart_labels (by decide) (by decide))
    fun form => apart_scaled (by decide) (apart_numberSuffix (by decide) form)
  exact reads_branch settles_dotDigits? leads afterDot integers
    (apart_fractions (by decide) (by decide) (by decide))
    (fun form => apart_scaled (by decide) (apart_integerSuffix (by decide) (by decide) form)) s

/-- Decimal integers, numbers with a fraction or an exponent, and versions. -/
def decimals : Forms := fun form => grouped * tails form

theorem reads_decimal (digit : d.isDigit = true) (r : List Char) :
    Reads (decimal (d :: r)) decimals (d :: r) := by
  obtain ⟨form, kind, longest⟩ := reads_decimalTail (Cut.run isDigitOrUnderscore (d :: r)).rest
  have here : Cut.guarded Char.isDigit (Cut.run isDigitOrUnderscore) (d :: r) =
      some (Cut.run isDigitOrUnderscore (d :: r)) := if_pos digit
  refine ⟨form, ?_, ?_⟩
  · rw [decimal_eq]
    exact kind
  · rw [decimal_eq]
    exact longest.behind settles_grouped here
      (apart_tails (by decide) (by decide) (by decide) (by decide))

end Decimals

section Radices

variable {letter digit : Char → Bool} {cs : String} {form : LiteralForm} {v w : List Char}

theorem mem_based : w ∈ based cs digit ↔
    ∃ x c ds, x ∈ cs.toList ∧ digit c = true ∧ ds.all (fun c => digit c || c == '_') = true ∧
      w = '0' :: x :: c :: ds := by
  simp only [based, mul_assoc, anyOf, mem_one_mul, mem_row]
  constructor
  · rintro ⟨z, _, zero, ⟨x, _, radix, ⟨c, ds, first, further, rfl⟩, rfl⟩, rfl⟩
    obtain rfl : z = '0' := by simpa using zero
    exact ⟨x, c, ds, of_decide_eq_true radix, first, further, rfl⟩
  · rintro ⟨x, c, ds, radix, first, further, rfl⟩
    exact ⟨'0', _, rfl, ⟨x, _, decide_eq_true radix, ⟨c, ds, first, further, rfl⟩, rfl⟩, rfl⟩

theorem settles_radixDigits (same : ∀ c, letter c = true ↔ c ∈ cs.toList) (digit : Char → Bool) :
    Cut.Settles (radixDigits letter digit) (based cs digit) fun c => digit c || c == '_' := by
  have digits : Cut.Settles (Cut.guarded digit (Cut.run fun c => digit c || c == '_'))
      (row digit fun c => digit c || c == '_') fun c => digit c || c == '_' :=
    Cut.settles_row fun c h => by rw [h, Bool.true_or]
  have settled := (digits.behind letter).behind (· == '0')
  have zero : one (· == '0') = anyOf "0" := one_eq_anyOf fun c => by simp
  rwa [zero, one_eq_anyOf same, ← mul_assoc] at settled

/-- Integers of two bases do not begin the same text. -/
theorem not_prefix_of_mem_based {cs' : String} {digit' : Char → Bool}
    (mem : v ∈ based cs digit) (pre : v <+: s)
    (disjoint : excludes (cs'.toList.contains ·) cs = true) (other : w ∈ based cs' digit') :
    ¬ w <+: s := by
  intro begins
  obtain ⟨x, c, ds, here, -, -, rfl⟩ := mem_based.mp mem
  obtain ⟨x', c', ds', there, -, -, rfl⟩ := mem_based.mp other
  obtain ⟨t, rfl⟩ := pre
  obtain ⟨-, begins⟩ := List.cons_prefix_cons.mp begins
  obtain ⟨rfl, -⟩ := List.cons_prefix_cons.mp begins
  have apart := eq_false_of_mem disjoint here
  simp [there] at apart

/-- A decimal in front of the letter of a base is no more than the zero. -/
theorem length_lt_of_mem_based (mem : v ∈ based cs digit) (pre : v <+: s)
    (letters : cs.toList.all ("bBxX".toList.contains ·) = true)
    (decimal : w ∈ decimals form) (begins : w <+: s) : w.length < v.length := by
  obtain ⟨x, c, ds, radix, -, -, rfl⟩ := mem_based.mp mem
  obtain ⟨t, rfl⟩ := pre
  have letter : x ∈ "bBxX".toList := by simpa using List.all_eq_true.mp letters x radix
  have letters : excludes isDigitOrUnderscore "bBxX" = true := by decide
  have apart := eq_false_of_mem letters letter
  have zero : Cut.guarded Char.isDigit (Cut.run isDigitOrUnderscore) ('0' :: x :: c :: ds ++ t) =
      some ⟨['0'], x :: c :: ds ++ t⟩ := by
    simp [Cut.guarded, Cut.run, apart, show isDigitOrUnderscore '0' = true from rfl]
  have further : Apart isDigitOrUnderscore (tails form) :=
    apart_tails (by decide) (by decide) (by decide) (by decide) form
  -- Neither digits nor what may follow them goes on with the letter.
  rcases settles_grouped.cases zero further decimal begins with ⟨b, tail, rfl, next⟩ | less
  · have other : Apart (fun c => decide (c ∈ "bBxX".toList)) (tails form) :=
      apart_tails (by decide) (by decide) (by decide) (by decide) form
    rw [Cut.eq_nil_of_apart other tail next (decide_eq_true letter)]
    simp
  · exact Nat.lt_trans less (by simp)

theorem numerals_eq :
    numerals = only .binaryInteger (based "bB" isBit) +
      (only .hexInteger (based "xX" isHexDigit) + decimals) := by
  funext form
  cases form
  case number =>
    have tail : tails .number =
        dotted * (maybe exponent * numberSuffix) + exponent * numberSuffix := by
      simp [only, Pi.single_apply, tails, fractions, scaled, maybe, add_mul, add_comm]
    simp [only, tail, numerals, decimals, dotted, mul_add, mul_assoc, numberSuffix]
  all_goals
    simp [numerals, only, Pi.single_apply, decimals, tails, fractions, scaled, dotted,
      integerSuffix, labels, mul_assoc]

/-- In front of a digit, the longest word of all numbers and versions is read. -/
theorem reads_number (first : d.isDigit = true) (r : List Char) :
    Reads (number (d :: r)) numerals (d :: r) := by
  have binary : Cut.Settles (radixDigits (fun c => c == 'b' || c == 'B') isBit)
      (based "bB" isBit) _ :=
    settles_radixDigits (fun c => by simp) isBit
  have hex : Cut.Settles (radixDigits (fun c => c == 'x' || c == 'X') isHexDigit)
      (based "xX" isHexDigit) _ :=
    settles_radixDigits (fun c => by simp) isHexDigit
  rw [numerals_eq, number, radixInteger?_eq]
  cases bits : radixDigits (fun c => c == 'b' || c == 'B') isBit (d :: r) with
  | some x =>
    have mem := binary.mem bits
    have pre : x.text <+: d :: r := ⟨_, binary.of bits⟩
    refine ⟨.binaryInteger, rfl, (Longest.of_settles binary bits _).add fun _ v word begins => ?_⟩
    rcases word with other | decimal
    · exact absurd begins (not_prefix_of_mem_based mem pre (by decide) (mem_only.mp other).2)
    · exact length_lt_of_mem_based mem pre (by decide) decimal begins
  | none =>
    have noBits {form : LiteralForm} : ∀ v ∈ only .binaryInteger (based "bB" isBit) form,
        ¬ v <+: d :: r := fun _ word => binary.absent bits (mem_only.mp word).2
    cases hexes : radixDigits (fun c => c == 'x' || c == 'X') isHexDigit (d :: r) with
    | some x =>
      have pre : x.text <+: d :: r := ⟨_, hex.of hexes⟩
      have longest := (Longest.of_settles hex hexes .hexInteger).add (H := decimals)
        fun _ _ => length_lt_of_mem_based (hex.mem hexes) pre (by decide)
      exact ⟨.hexInteger, rfl, longest.skip fun _ => noBits⟩
    | none =>
      have noHexes {form : LiteralForm} : ∀ v ∈ only .hexInteger (based "xX" isHexDigit) form,
          ¬ v <+: d :: r := fun _ word => hex.absent hexes (mem_only.mp word).2
      obtain ⟨form, kind, longest⟩ := reads_decimal first r
      exact ⟨form, kind, (longest.skip fun _ => noHexes).skip fun _ => noBits⟩

end Radices

theorem read_of_isDigit (digit : d.isDigit = true) (r : List Char) :
    read (d :: r) = number (d :: r) := by
  have classes : (!d.isDigit || !isBlank d && !(Unicode.isAlphabetic d || d == '_')) = true :=
    Unicode.of_isAscii
      (p := fun c => !c.isDigit || !isBlank c && !(Unicode.isAlphabetic c || c == '_'))
      (by decide) (Unicode.isAscii_of_isDigit digit)
  rw [digit, Bool.not_true, Bool.false_or, Bool.and_eq_true, Bool.not_eq_true',
    Bool.not_eq_true'] at classes
  rw [read, classes.1, classes.2, digit]
  rfl

/-- What is recognized as a number or a version is a word of its form. -/
theorem mem_numerals_of_read {form : LiteralForm} (h : (read s).kind = .literal form)
    (origin : form.origin = .number) : (read s).text ∈ numerals form := by
  obtain ⟨d, r, rfl, digit, here⟩ := read_eq_number h origin
  rw [here] at h ⊢
  obtain ⟨form', kind, longest⟩ := reads_number digit r
  cases kind.symm.trans h
  exact longest.mem

end Lexeme

end TagLang
