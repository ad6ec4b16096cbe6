import TagLang.Literal.Value
import TagLang.Proofs.Lexeme.Replaced
import TagLang.Proofs.Text.Padded

/-!
# Dates and times and their text

A date and time is written with fields of fixed width. Only the seconds may be left out, and
only where they are zero and have no fraction. Either way its text is read back as what it
is written from: `DateTime.ofText?` is the inverse of `DateTime.written` on dates and times
whose fields fit.
-/

namespace TagLang

open Text

namespace DateTime

/-- Two numbers of two digits with a separator between them. -/
def pair (separator : Char) (a b : Nat) : List Char := padded 2 a ++ separator :: padded 2 b

/-- A date as it is written; nothing where there is none. -/
def writtenDate : Option (Nat × Nat × Nat) → List Char
  | none => []
  | some (year, month, day) => padded 4 year ++ '-' :: pair '-' month day

/-- A fraction behind its dot; nothing where there is none. -/
def writtenFraction : Option String → List Char
  | none => []
  | some w => '.' :: w.toList

/-- A zone as it is written; nothing where there is none. -/
def writtenZone : Option String → List Char
  | none => []
  | some w => w.toList

/-- The seconds and their fraction, unless they are left out. -/
def writtenSeconds (shown : Bool) (second : Nat) (fraction : Option String) : List Char :=
  if shown then ':' :: (padded 2 second ++ writtenFraction fraction) else []

/-- The time with its fraction and its zone; nothing where there is none. -/
def writtenTime (shown : Bool) (d : DateTime) : List Char :=
  match d.time with
  | none => []
  | some (hour, minute, second) =>
    'T' :: (pair ':' hour minute ++
      (writtenSeconds shown second d.fraction ++ writtenZone d.zone))

/-- The characters that a date and time is written with. -/
def written (shown : Bool) (d : DateTime) : List Char :=
  '$' :: (writtenDate d.date ++ (writtenTime shown d ++ ['$']))

/-- A fraction is a row of digits that is not empty. -/
def IsFraction (w : List Char) : Prop := w ≠ [] ∧ ∀ c ∈ w, c.isDigit = true

/-- A zone is the letter of the zero offset, or a sign, hours and minutes. -/
inductive IsZone : List Char → Prop
  | zero : IsZone ['Z']
  | offset {sign : Char} (signed : sign = '+' ∨ sign = '-') {hours minutes : Nat}
      (hour : hours ≤ 99) (minute : minutes ≤ 99) : IsZone (sign :: pair ':' hours minutes)

/-- There is a date or a time, the fields fit into their widths, and only a time has a fraction
or a zone. -/
structure Proper (d : DateTime) : Prop where
  present : d.date.isSome = true ∨ d.time.isSome = true
  date : ∀ f ∈ d.date, f.1 ≤ 9999 ∧ f.2.1 ≤ 99 ∧ f.2.2 ≤ 99
  time : ∀ f ∈ d.time, f.1 ≤ 99 ∧ f.2.1 ≤ 99 ∧ f.2.2 ≤ 99
  fraction : ∀ w ∈ d.fraction, IsFraction w.toList
  zone : ∀ w ∈ d.zone, IsZone w.toList
  timed : d.time = none → d.fraction = none ∧ d.zone = none

/-- The seconds are left out only where they are zero and have no fraction. -/
def Admits (d : DateTime) (shown : Bool) : Prop :=
  shown = false → d.fraction = none ∧ ∀ f ∈ d.time, f.2.2 = 0

variable {p : Char → Bool} {ds r s : List Char} {n v : Nat} {ch : Char} {d : DateTime}
  {fraction zone : Option String} {shown : Bool}

section Fields

theorem isDecimalDigit_of_isDigit {c : Char} (h : c.isDigit = true) :
    Unicode.isDecimalDigit c = true := by
  rw [Unicode.isDecimalDigit, if_pos (Unicode.isAscii_of_isDigit h), h]

theorem digits?_append (digits : ∀ c ∈ ds, c.isDigit = true) (r : List Char) :
    digits? ds.length (ds ++ r) = some (ds, r) := by
  induction ds with
  | nil => rfl
  | cons c ds ih =>
    have first := isDecimalDigit_of_isDigit (digits c List.mem_cons_self)
    rw [List.length_cons, List.cons_append, digits?, if_pos first,
      ih fun d mem => digits d (List.mem_cons_of_mem c mem)]
    rfl

@[simp] theorem digits?_padded (n v : Nat) (r : List Char) :
    digits? n (padded n v ++ r) = some (padded n v, r) := by
  have row := digits?_append (fun c => isDigit_of_mem_padded (n := n) (v := v)) r
  rwa [length_padded] at row

@[simp] theorem field?_padded (ch : Char) (n v : Nat) (r : List Char) :
    field? ch n (ch :: (padded n v ++ r)) = some (padded n v, r) := by
  rw [field?, if_pos (beq_self_eq_true ch), digits?_padded]

theorem field?_eq_none (apart : s.head?.any (· == ch) = false) (n : Nat) :
    field? ch n s = none := by
  cases s with
  | nil => rfl
  | cons c s => exact if_neg (Bool.eq_false_iff.mp apart)

theorem value?_padded (pos : 0 < n) (le : v ≤ 10 ^ n - 1) (fits : 10 ^ n ≤ UInt32.size) :
    value? (padded n v) = some v := by
  have lt : v < 10 ^ n := Nat.lt_of_le_sub_one (Nat.pow_pos (by decide)) le
  exact numeral?_padded pos lt fits

theorem date?_written (year month day : Nat) (r : List Char) :
    date? (writtenDate (some (year, month, day)) ++ r) =
      some ((padded 4 year, padded 2 month, padded 2 day), r) := by
  simp [date?, writtenDate, pair]

theorem date?_eq_none (apart : s.head?.any Unicode.isDecimalDigit = false) : date? s = none := by
  have none : digits? 4 s = none := by
    cases s with
    | nil => rfl
    | cons c s => exact if_neg (Bool.eq_false_iff.mp apart)
  rw [date?, none]
  rfl

theorem takeFraction_written (digits : ∀ w ∈ fraction, IsFraction w.toList)
    (dot : r.head?.any (· == '.') = false)
    (digit : r.head?.any Unicode.isDecimalDigit = false) :
    takeFraction (writtenFraction fraction ++ r) = (fraction.map String.toList, r) := by
  cases fraction with
  | none =>
    cases r with
    | nil => rfl
    | cons c r =>
      have apart : c ≠ '.' := by simpa using dot
      simp [takeFraction, writtenFraction, apart]
  | some w =>
    obtain ⟨ne, digits⟩ := digits w rfl
    have all : w.toList.all Unicode.isDecimalDigit = true :=
      List.all_eq_true.mpr fun c mem => isDecimalDigit_of_isDigit (digits c mem)
    obtain ⟨taken, left⟩ := Cut.mk.inj (Cut.run_append all digit)
    rw [writtenFraction, List.cons_append, takeFraction, taken, left, if_neg ne]
    rfl

theorem takeZone_written (fits : ∀ w ∈ zone, IsZone w.toList) (r : List Char) :
    takeZone (writtenZone zone ++ '$' :: r) = (zone.map String.toList, '$' :: r) := by
  cases zone with
  | none => rfl
  | some w =>
    have fits := fits w rfl
    rw [writtenZone, Option.map_some]
    generalize w.toList = z at fits
    cases fits with
    | zero => rfl
    | offset signed hour minute =>
      rcases signed with rfl | rfl <;> simp [takeZone, pair]

/-- Behind the seconds comes a zone or the end. -/
theorem stops_writtenZone (fits : ∀ w ∈ zone, IsZone w.toList)
    (zero : p 'Z' = false) (plus : p '+' = false) (minus : p '-' = false)
    (stop : r.head?.any p = false) : (writtenZone zone ++ r).head?.any p = false := by
  cases zone with
  | none => exact stop
  | some w =>
    have fits := fits w rfl
    rw [writtenZone]
    generalize w.toList = z at fits
    cases fits with
    | zero => exact zero
    | offset signed hour minute =>
      rcases signed with rfl | rfl
      · exact plus
      · exact minus

end Fields

/-- The fields of a time that is written. -/
def timeFields (shown : Bool) (hour minute second : Nat) (fraction zone : Option String) :
    TimeFields where
  hour := padded 2 hour
  minute := padded 2 minute
  second := if shown then some (padded 2 second) else none
  fraction := fraction.map String.toList
  zone := zone.map String.toList

theorem time?_written (hour minute second : Nat)
    (digits : ∀ w ∈ fraction, IsFraction w.toList)
    (fits : ∀ w ∈ zone, IsZone w.toList) (omitted : shown = false → fraction = none) :
    time? ('T' :: (pair ':' hour minute ++ (writtenSeconds shown second fraction ++
        (writtenZone zone ++ ['$'])))) =
      some (timeFields shown hour minute second fraction zone, ['$']) := by
  have zoned := takeZone_written fits []
  cases shown with
  | false =>
    obtain rfl := omitted rfl
    have colon : (writtenZone zone ++ ['$']).head?.any (· == ':') = false :=
      stops_writtenZone fits rfl rfl rfl rfl
    simp [time?, pair, writtenSeconds, field?_eq_none colon, zoned, timeFields]
  | true =>
    have behind := takeFraction_written digits
      (stops_writtenZone (r := ['$']) fits rfl rfl rfl rfl)
      (stops_writtenZone fits (by decide) (by decide) (by decide) (by decide))
    simp [time?, pair, writtenSeconds, behind, zoned, timeFields]

theorem dateValue?_padded {year month day : Nat}
    (fits : year ≤ 9999 ∧ month ≤ 99 ∧ day ≤ 99) :
    dateValue? (padded 4 year, padded 2 month, padded 2 day) = some (year, month, day) := by
  have y : value? (padded 4 year) = some year := value?_padded (by decide) fits.1 (by decide)
  have m : value? (padded 2 month) = some month := value?_padded (by decide) fits.2.1 (by decide)
  have d : value? (padded 2 day) = some day := value?_padded (by decide) fits.2.2 (by decide)
  simp [dateValue?, y, m, d]

theorem timeValue?_timeFields {hour minute second : Nat} (fraction zone : Option String)
    (fits : hour ≤ 99 ∧ minute ≤ 99 ∧ second ≤ 99) (omitted : shown = false → second = 0) :
    timeValue? (timeFields shown hour minute second fraction zone) =
      some (hour, minute, second) := by
  have h : value? (padded 2 hour) = some hour := value?_padded (by decide) fits.1 (by decide)
  have m : value? (padded 2 minute) = some minute := value?_padded (by decide) fits.2.1 (by decide)
  have s : value? (padded 2 second) = some second := value?_padded (by decide) fits.2.2 (by decide)
  cases shown with
  | false => simp [timeValue?, timeFields, h, m, omitted rfl]
  | true => simp [timeValue?, timeFields, h, m, s]

@[simp] theorem fraction_timeFields (hour minute second : Nat) :
    (timeFields shown hour minute second fraction zone).fraction.map String.ofList = fraction := by
  simp [timeFields, Function.comp_def]

@[simp] theorem zone_timeFields (hour minute second : Nat) :
    (timeFields shown hour minute second fraction zone).zone.map String.ofList = zone := by
  simp [timeFields, Function.comp_def]

/-- A date and time is read back from its text. -/
theorem ofText?_written (proper : d.Proper) (admits : d.Admits shown) :
    ofText? (d.written shown) = some d := by
  obtain ⟨date, time, fraction, zone⟩ := d
  cases time with
  | none =>
    obtain ⟨rfl, rfl⟩ := proper.timed rfl
    obtain ⟨⟨year, month, day⟩, rfl⟩ := Option.isSome_iff_exists.mp
      (proper.present.resolve_right (fun timed => nomatch timed))
    have dated := date?_written year month day ['$']
    have value := dateValue?_padded (proper.date _ rfl)
    have untimed : time? ['$'] = none := rfl
    simp [ofText?, written, writtenTime, dated, value, untimed]
  | some clock =>
    obtain ⟨hour, minute, second⟩ := clock
    have timed := time?_written hour minute second proper.fraction proper.zone
      fun omitted => (admits omitted).1
    have value := timeValue?_timeFields fraction zone (proper.time _ rfl)
      fun omitted => (admits omitted).2 _ rfl
    cases date with
    | none =>
      have undated (r : List Char) : date? ('T' :: r) = none := date?_eq_none rfl
      simp [ofText?, written, writtenDate, writtenTime, undated, timed, value]
    | some day =>
      obtain ⟨year, month, day⟩ := day
      have dated := date?_written year month day
      have dateValue := dateValue?_padded (proper.date _ rfl)
      simp [ofText?, written, writtenTime, dated, dateValue, timed, value]

end DateTime

end TagLang
