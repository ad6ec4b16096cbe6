import TagLang.Lexeme.Basic

/-!
# Dates and times

A date, a time or both stand between dollar signs:
`$YYYY-MM-DD$`, `$Thh:mm:ss.fff+hh:mm$`. A dollar sign that no digit and no `T`
with a digit follows is a mark. Once begun, a literal that breaks off in the
middle of a field is a fault over what was read so far.
-/

namespace TagLang.Lexeme

/-- What an attempt has taken, and whether it got to its end. -/
structure Attempt where
  ok : Bool
  cut : Cut
deriving DecidableEq, Repr

namespace Attempt

/-- An attempt that takes nothing. -/
def done (s : List Char) : Attempt := ⟨true, Cut.nothing s⟩

/-- Go on if the attempt succeeded. -/
def andThen (a : Attempt) (next : List Char → Attempt) : Attempt :=
  if a.ok then ⟨(next a.cut.rest).ok, (next a.cut.rest).cut.after a.cut.text⟩ else a

end Attempt

/-- Take exactly `n` digits. -/
def digits : Nat → List Char → Attempt
  | 0, s => Attempt.done s
  | _ + 1, [] => ⟨false, Cut.nothing []⟩
  | n + 1, c :: r =>
    if c.isDigit then
      let tail := digits n r
      ⟨tail.ok, tail.cut.after [c]⟩
    else ⟨false, Cut.nothing (c :: r)⟩

/-- Take exactly this character. -/
def exactly (ch : Char) : List Char → Attempt
  | [] => ⟨false, Cut.nothing []⟩
  | c :: r => if c == ch then ⟨true, ⟨[c], r⟩⟩ else ⟨false, Cut.nothing (c :: r)⟩

/-- Two digits, a separator, two digits. -/
def digitPairs (separator : Char) (s : List Char) : Attempt :=
  ((digits 2 s).andThen (exactly separator)).andThen (digits 2)

/-- Whether a digit comes next. -/
def digitNext : List Char → Bool
  | c :: _ => c.isDigit
  | [] => false

theorem digitNext_eq (s : List Char) : digitNext s = s.head?.any Char.isDigit := by
  cases s <;> rfl

/-- Four digits, a dash and a pair of two digits, if a digit comes next. -/
def date (s : List Char) : Attempt :=
  if digitNext s then ((digits 4 s).andThen (exactly '-')).andThen (digitPairs '-')
  else Attempt.done s

/-- A dot and at least one digit, if a dot comes next. -/
def fraction : List Char → Attempt
  | '.' :: r => ⟨digitNext r, (Cut.run Char.isDigit r).after ['.']⟩
  | s => Attempt.done s

/-- A colon, two digits and an optional fraction, if a colon comes next. -/
def seconds : List Char → Attempt
  | ':' :: r => ((exactly ':' (':' :: r)).andThen (digits 2)).andThen fraction
  | s => Attempt.done s

/-- A sign and a pair of two digits, or the letter for the zero offset, if one
of them comes next. -/
def zone : List Char → Attempt
  | 'Z' :: r => ⟨true, ⟨['Z'], r⟩⟩
  | '+' :: r => (exactly '+' ('+' :: r)).andThen (digitPairs ':')
  | '-' :: r => (exactly '-' ('-' :: r)).andThen (digitPairs ':')
  | s => Attempt.done s

/-- Whether a `T` with a digit after it comes next. -/
def timeNext : List Char → Bool
  | 'T' :: r => digitNext r
  | _ => false

/-- Hours, minutes, seconds and a zone, if a time comes next. -/
def time (s : List Char) : Attempt :=
  if timeNext s then
    (((exactly 'T' s).andThen (digitPairs ':')).andThen seconds).andThen zone
  else Attempt.done s

/-- The kind of a date-time literal that begins with a date or a time. -/
def dateTimeKind (fields : Attempt) (closing : Cut) : TokenKind :=
  if fields.ok then
    if closing.text = [] then .fault .unclosedTime else .literal .dateTime
  else .fault .invalidTime

/-- The date-time literal after a dollar sign, if a date or a time comes next. -/
def dateTime? (s : List Char) : Option Lexeme :=
  if digitNext s || timeNext s then
    let fields := (date s).andThen time
    let closing :=
      if fields.ok then Cut.one (· == '$') fields.cut.rest else Cut.nothing fields.cut.rest
    some (ofCut (dateTimeKind fields closing) ((closing.after fields.cut.text).after ['$']))
  else none

namespace Attempt

/-- The attempt loses no character of the text. -/
def Of (a : Attempt) (s : List Char) : Prop := a.cut.Of s

theorem of_done (s : List Char) : (done s).Of s := Cut.of_nothing s

theorem Of.andThen {a : Attempt} {s : List Char} {next : List Char → Attempt} (h : a.Of s)
    (hn : ∀ r, (next r).Of r) : (a.andThen next).Of s := by
  unfold Attempt.andThen
  split
  · exact Cut.Of.under h (hn _)
  · exact h

end Attempt

theorem of_digits (n : Nat) (s : List Char) : (digits n s).Of s := by
  induction n generalizing s with
  | zero => exact Attempt.of_done s
  | succ n ih =>
    cases s with
    | nil => rfl
    | cons c r =>
      unfold digits
      split
      · exact (ih r : Cut.Of _ _).after [c]
      · exact Cut.of_nothing _

theorem of_exactly (ch : Char) (s : List Char) : (exactly ch s).Of s := by
  unfold exactly
  split
  · rfl
  · split <;> rfl

theorem of_digitPairs (separator : Char) (s : List Char) : (digitPairs separator s).Of s :=
  ((of_digits 2 s).andThen (of_exactly separator)).andThen (of_digits 2)

theorem of_date (s : List Char) : (date s).Of s := by
  unfold date
  split
  · exact ((of_digits 4 s).andThen (of_exactly '-')).andThen (of_digitPairs '-')
  · exact Attempt.of_done s

theorem of_fraction (s : List Char) : (fraction s).Of s := by
  unfold fraction
  split
  · exact (Cut.of_run _ _).after ['.']
  · exact Attempt.of_done _

theorem of_seconds (s : List Char) : (seconds s).Of s := by
  unfold seconds
  split
  · exact ((of_exactly ':' _).andThen (of_digits 2)).andThen of_fraction
  · exact Attempt.of_done _

theorem of_zone (s : List Char) : (zone s).Of s := by
  unfold zone
  split
  · rfl
  · exact (of_exactly '+' _).andThen (of_digitPairs ':')
  · exact (of_exactly '-' _).andThen (of_digitPairs ':')
  · exact Attempt.of_done _

theorem of_time (s : List Char) : (time s).Of s := by
  unfold time
  split
  · exact (((of_exactly 'T' s).andThen (of_digitPairs ':')).andThen of_seconds).andThen of_zone
  · exact Attempt.of_done s

theorem splits_of_dateTime? {s : List Char} {x : Lexeme} (h : dateTime? s = some x) :
    x.Splits ('$' :: s) := by
  unfold dateTime? at h
  split at h
  · cases h
    have fields := (of_date s).andThen of_time
    refine splits_ofCut (Cut.Of.after (Cut.Of.under fields ?_) ['$']) (by simp)
    split
    · exact Cut.of_one _ _
    · exact Cut.of_nothing _
  · cases h

end TagLang.Lexeme
