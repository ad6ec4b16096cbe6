import TagLang.Lexeme.Word

/-!
# Numbers and versions

A digit begins an integer in base two, ten or sixteen, a number with a fraction
or an exponent, or a version of three parts with optional labels. Each part is
taken only if it is complete: a dot needs a digit after it, an exponent a digit
after its sign, a label a letter or digit after its introducer.
-/

namespace TagLang.Lexeme

/-- Digits and the underscores that separate them. -/
def isDigitOrUnderscore (c : Char) : Bool := c.isDigit || c == '_'

/-- The binary digits. -/
def isBit (c : Char) : Bool := c == '0' || c == '1'

/-- The size suffixes of numbers. -/
def isNumberSuffix (c : Char) : Bool :=
  c == 'd' || c == 'D' || c == 'f' || c == 'F' || c == 'g' || c == 'G'

/-- The size suffixes of integers, besides the sign suffix. -/
def isIntegerSuffix (c : Char) : Bool :=
  c == 'i' || c == 'I' || c == 'l' || c == 'L' || c == 's' || c == 'S' || c == 'y' || c == 'Y'

/-- A dot and the digits after it. -/
def dotDigits? : List Char → Option Cut
  | '.' :: d :: r =>
    if d.isDigit then some ((Cut.run isDigitOrUnderscore (d :: r)).after ['.']) else none
  | _ => none

/-- An exponent: a letter, an optional sign and digits. -/
def exponent? : List Char → Option Cut
  | e :: r =>
    if e == 'e' || e == 'E' then
      match r with
      | d :: r' =>
        if d.isDigit then some ((Cut.run Char.isDigit (d :: r')).after [e])
        else if d == '+' || d == '-' then
          match r' with
          | d' :: r'' =>
            if d'.isDigit then some ((Cut.run Char.isDigit (d' :: r'')).after [e, d]) else none
          | [] => none
        else none
      | [] => none
    else none
  | [] => none

/-- A label of a version: an introducer and then a word without an apostrophe or
a run of digits. Nothing is taken where no label stands. -/
def label (introducer : Char) : List Char → Cut
  | i :: c :: r =>
    if i == introducer then
      if Unicode.isAlphabetic c then (Cut.run isWordBody (c :: r)).after [i]
      else if c.isDigit then (Cut.run Char.isDigit (c :: r)).after [i]
      else Cut.nothing (i :: c :: r)
    else Cut.nothing (i :: c :: r)
  | s => Cut.nothing s

/-- An integer with a radix letter in its second place. -/
def radixInteger? : List Char → Option Lexeme
  | '0' :: x :: d :: r =>
    if (x == 'b' || x == 'B') && isBit d then
      some (ofCut (.literal .binaryInteger)
        ((Cut.run (fun c => isBit c || c == '_') (d :: r)).after ['0', x]))
    else if (x == 'x' || x == 'X') && isHexDigit d then
      some (ofCut (.literal .hexInteger)
        ((Cut.run (fun c => isHexDigit c || c == '_') (d :: r)).after ['0', x]))
    else none
  | _ => none

/-- A decimal integer, a number or a version. -/
def decimal (s : List Char) : Lexeme :=
  let whole := Cut.run isDigitOrUnderscore s
  match dotDigits? whole.rest with
  | some minor =>
    match dotDigits? minor.rest with
    | some patch =>
      ofCut (.literal .version)
        ((((patch.andThen (label '-')).andThen (label '+')).after minor.text).after whole.text)
    | none =>
      let scaled := (exponent? minor.rest).getD (Cut.nothing minor.rest)
      ofCut (.literal .number)
        (((scaled.andThen (Cut.one isNumberSuffix)).after minor.text).after whole.text)
  | none =>
    match exponent? whole.rest with
    | some exponent =>
      ofCut (.literal .number) ((exponent.andThen (Cut.one isNumberSuffix)).after whole.text)
    | none =>
      ofCut (.literal .decimalInteger)
        ((whole.andThen (Cut.one fun c => c == 'u' || c == 'U')).andThen (Cut.one isIntegerSuffix))

/-- The lexeme at a digit. -/
def number (s : List Char) : Lexeme := (radixInteger? s).getD (decimal s)

theorem of_dotDigits? {s : List Char} {x : Cut} (h : dotDigits? s = some x) : x.Of s := by
  unfold dotDigits? at h
  split at h
  · split at h
    · cases h
      exact (Cut.of_run _ _).after _
    · cases h
  · cases h

theorem of_exponent? {s : List Char} {x : Cut} (h : exponent? s = some x) : x.Of s := by
  unfold exponent? at h
  repeat' split at h
  all_goals first | cases h; done | (cases h; exact (Cut.of_run _ _).after _)

theorem of_label (introducer : Char) (s : List Char) : (label introducer s).Of s := by
  unfold label
  split
  · split
    · split
      · exact (Cut.of_run _ _).after _
      · split
        · exact (Cut.of_run _ _).after _
        · exact Cut.of_nothing _
    · exact Cut.of_nothing _
  · exact Cut.of_nothing _

theorem splits_of_radixInteger? {s : List Char} {x : Lexeme} (h : radixInteger? s = some x) :
    x.Splits s := by
  unfold radixInteger? at h
  split at h
  · split at h
    · cases h
      exact splits_ofCut ((Cut.of_run _ _).after _) (by simp)
    · split at h
      · cases h
        exact splits_ofCut ((Cut.of_run _ _).after _) (by simp)
      · cases h
  · cases h

theorem splits_decimal {d : Char} {r : List Char} (h : d.isDigit = true) :
    (decimal (d :: r)).Splits (d :: r) := by
  have whole : (Cut.run isDigitOrUnderscore (d :: r)).Of (d :: r) := Cut.of_run _ _
  have ne : (Cut.run isDigitOrUnderscore (d :: r)).text ≠ [] := by
    simp [Cut.run, isDigitOrUnderscore, h]
  unfold decimal
  dsimp only
  split
  · rename_i minor hm
    have minorOf := of_dotDigits? hm
    split
    · rename_i patch hp
      have inner := ((of_dotDigits? hp).andThen (of_label '-' _)).andThen (of_label '+' _)
      refine splits_ofCut (whole.under (minorOf.under inner)) ?_
      simp [ne]
    · have scaled : ((exponent? minor.rest).getD (Cut.nothing minor.rest)).Of minor.rest := by
        cases he : exponent? minor.rest with
        | none => exact Cut.of_nothing _
        | some e => exact of_exponent? he
      refine splits_ofCut (whole.under (minorOf.under (scaled.andThen (Cut.of_one _ _)))) ?_
      simp [ne]
  · split
    · rename_i e he
      refine splits_ofCut (whole.under ((of_exponent? he).andThen (Cut.of_one _ _))) ?_
      simp [ne]
    · refine splits_ofCut ((whole.andThen (Cut.of_one _ _)).andThen (Cut.of_one _ _)) ?_
      simp [Cut.andThen, ne]

theorem splits_number {d : Char} {r : List Char} (h : d.isDigit = true) :
    (number (d :: r)).Splits (d :: r) := by
  unfold number
  cases hr : radixInteger? (d :: r) with
  | none => exact splits_decimal h
  | some x => exact splits_of_radixInteger? hr

end TagLang.Lexeme
