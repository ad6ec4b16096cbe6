import TagLang.Text.Numeral
import TagLang.Unicode.Classes

/-!
# Dates and times

A date and a time of day are fields of fixed width. The fields admit digits of
every script, but only those of ASCII have a value: a date or time with another
digit in it is read and has no value.
-/

namespace TagLang

/-- A date, a time of day, or both. -/
structure DateTime where
  date : Option (Nat × Nat × Nat)
  time : Option (Nat × Nat × Nat)
  fraction : Option String
  zone : Option String
deriving DecidableEq, Repr, Inhabited

namespace DateTime

/-- Exactly `n` digits of any script, and what follows them. -/
def digits? : Nat → List Char → Option (List Char × List Char)
  | 0, s => some ([], s)
  | _ + 1, [] => none
  | n + 1, c :: r =>
    if Unicode.isDecimalDigit c then (digits? n r).map fun (ds, rest) => (c :: ds, rest) else none

/-- The character `ch` and `n` digits after it. -/
def field? (ch : Char) (n : Nat) : List Char → Option (List Char × List Char)
  | [] => none
  | c :: r => if c == ch then digits? n r else none

/-- The value of a field. Only digits of ASCII have one. -/
def value? (field : List Char) : Option Nat := Text.numeral? 10 UInt32.size field

/-- A year of four digits, a month and a day of two. -/
def date? (s : List Char) : Option ((List Char × List Char × List Char) × List Char) := do
  let (year, r) ← digits? 4 s
  let (month, r) ← field? '-' 2 r
  let (day, r) ← field? '-' 2 r
  return ((year, month, day), r)

/-- A dot and a run of digits, if there is one. -/
def takeFraction (s : List Char) : Option (List Char) × List Char :=
  match s with
  | '.' :: r =>
    if r.takeWhile Unicode.isDecimalDigit = [] then (none, s)
    else (some (r.takeWhile Unicode.isDecimalDigit), r.dropWhile Unicode.isDecimalDigit)
  | _ => (none, s)

/-- The letter of the zero offset, or a sign, hours and minutes, if one is there. -/
def takeZone (s : List Char) : Option (List Char) × List Char :=
  match s with
  | 'Z' :: r => (some ['Z'], r)
  | c :: _ =>
    if c == '+' || c == '-' then
      match (field? c 2 s).bind fun (hours, r) => (field? ':' 2 r).map fun (minutes, r) =>
          ((c :: hours) ++ (':' :: minutes), r) with
      | some (offset, r) => (some offset, r)
      | none => (none, s)
    else (none, s)
  | [] => (none, s)

/-- The fields of a time of day, as they are written. -/
structure TimeFields where
  hour : List Char
  minute : List Char
  second : Option (List Char)
  fraction : Option (List Char)
  zone : Option (List Char)
deriving DecidableEq, Repr

/-- The letter `T` and a time of day after it. -/
def time? (s : List Char) : Option (TimeFields × List Char) := do
  let (hour, r) ← field? 'T' 2 s
  let (minute, r) ← field? ':' 2 r
  match field? ':' 2 r with
  | some (second, r) =>
    let (fraction, r) := takeFraction r
    let (zone, r) := takeZone r
    return (⟨hour, minute, some second, fraction, zone⟩, r)
  | none =>
    let (zone, r) := takeZone r
    return (⟨hour, minute, none, none, zone⟩, r)

/-- The value of a date, if all its fields have one. -/
def dateValue? : List Char × List Char × List Char → Option (Nat × Nat × Nat)
  | (year, month, day) => do return (← value? year, ← value? month, ← value? day)

/-- The value of a time, if hour and minute have one. Seconds default to zero. -/
def timeValue? (t : TimeFields) : Option (Nat × Nat × Nat) := do
  return (← value? t.hour, ← value? t.minute, (t.second.bind value?).getD 0)

/-- Read a date, a time or both between dollar signs. -/
def ofText? : List Char → Option DateTime
  | '$' :: s =>
    let (date, r) := match date? s with
      | some (date, r) => (some date, r)
      | none => (none, s)
    let (time, r) := match time? r with
      | some (time, r) => (some time, r)
      | none => (none, r)
    if r = ['$'] then
      some
        { date := date.bind dateValue?
          time := time.bind timeValue?
          fraction := (time.bind TimeFields.fraction).map String.ofList
          zone := (time.bind TimeFields.zone).map String.ofList }
    else none
  | _ => none

end DateTime

end TagLang
