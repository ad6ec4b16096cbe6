import TagLang.Lexeme.DateTime
import TagLang.Proofs.Lexeme.Kept.Number

/-!
# Dates and times cut short behind them

The fields of a date-time literal follow one another for as long as each comes out, and an
optional field is asked for by its first characters, which it takes even where it breaks
off. A fault is kept like a literal.
-/

namespace TagLang

namespace Lexeme

section DateTimes

namespace Attempt

/-- The attempt with more text behind it. -/
def extend (a : Attempt) (s : List Char) : Attempt := ⟨a.ok, a.cut.extend s⟩

@[simp] theorem extend_nil (a : Attempt) : a.extend [] = a := by
  simp [extend]

@[simp] theorem extend_done (t s : List Char) : (done t).extend s = done (t ++ s) := rfl

@[simp] theorem ok_extend (a : Attempt) (s : List Char) : (a.extend s).ok = a.ok := rfl

@[simp] theorem cut_extend (a : Attempt) (s : List Char) : (a.extend s).cut = a.cut.extend s := rfl

/-- What is attempted is attempted in any text that holds all that was taken. -/
def Keeps (f : List Char → Attempt) : Prop :=
  ∀ t s, (f (t ++ s)).cut.size ≤ t.length → f (t ++ s) = (f t).extend s

theorem size_le_andThen (a : Attempt) (f : List Char → Attempt) :
    a.cut.size ≤ (a.andThen f).cut.size := by
  unfold Attempt.andThen
  split
  · rw [Cut.size_after]
    exact Nat.le_add_right _ _
  · exact Nat.le_refl _

theorem andThen_of_ok {a : Attempt} (h : a.ok = true) (f : List Char → Attempt) :
    a.andThen f = ⟨(f a.cut.rest).ok, (f a.cut.rest).cut.after a.cut.text⟩ := if_pos h

theorem Keeps.andThen {f g : List Char → Attempt} (hf : Keeps f) (of : ∀ t, (f t).Of t)
    (hg : Keeps g) : Keeps fun t => (f t).andThen g := by
  intro t s h
  have first := hf t s (Nat.le_trans (size_le_andThen _ g) h)
  dsimp only at h ⊢
  rw [first] at h ⊢
  by_cases ok : (f t).ok = true
  · have size : t.length = (f t).cut.size + (f t).cut.rest.length := Cut.Of.length_eq (of t)
    rw [andThen_of_ok (a := (f t).extend s) ok, Cut.size_after, size] at h
    rw [andThen_of_ok (a := (f t).extend s) ok, andThen_of_ok ok]
    rw [cut_extend, Cut.rest_extend] at h ⊢
    rw [hg _ s (Nat.le_of_add_le_add_left h)]
    rfl
  · simp [Attempt.andThen, ok]

theorem keeps_done : Keeps done := fun _ _ _ => rfl

/-- An attempt that is made only where it takes what tells so. -/
theorem Keeps.ite {look : List Char → Bool} {f g : List Char → Attempt} (hf : Keeps f)
    (seen : ∀ t s, (f (t ++ s)).cut.size ≤ t.length → look (t ++ s) = true → look t = true)
    (same : ∀ t s, look t = true → look (t ++ s) = true) (hg : Keeps g) :
    Keeps fun t => if look t then f t else g t := by
  intro t s h
  dsimp only at h ⊢
  by_cases goes : look (t ++ s) = true
  · rw [if_pos goes] at h ⊢
    rw [if_pos (seen t s h goes)]
    exact hf t s h
  · rw [if_neg goes] at h ⊢
    rw [if_neg (mt (same t s) goes)]
    exact hg t s h

/-- An attempt that is made where the first character, which it takes, satisfies `p`. -/
theorem Keeps.guarded {f g : List Char → Attempt} (hf : Keeps f) {p : Char → Bool}
    (takes : ∀ c r, p c = true → 0 < (f (c :: r)).cut.size) (hg : Keeps g) :
    Keeps fun t => if t.head?.any p then f t else g t := by
  refine hf.ite (fun t s le goes => ?_) (fun t s goes => ?_) hg
  · cases t with
    | nil =>
      cases s with
      | nil => cases goes
      | cons c s => exact absurd (takes c s goes) (Nat.not_lt_of_le le)
    | cons c t => exact goes
  · cases t with
    | nil => cases goes
    | cons c t => exact goes

end Attempt

theorem keeps_digits (n : Nat) : Attempt.Keeps (digits n) := by
  intro t s h
  induction n generalizing t with
  | zero => rfl
  | succ n ih =>
    cases t with
    | nil =>
      cases s with
      | nil => rfl
      | cons c s =>
        by_cases digit : c.isDigit = true
        · simp [digits, digit] at h
        · simp [digits, digit, Attempt.extend, Cut.nothing, Cut.extend]
    | cons c t =>
      by_cases digit : c.isDigit = true
      · simp only [List.cons_append, digits, if_pos digit, Cut.size_after, List.length_cons,
          List.length_nil, Nat.zero_add, Nat.add_comm 1] at h ⊢
        rw [ih t (Nat.le_of_succ_le_succ h)]
        rfl
      · simp [digits, digit, Attempt.extend]

theorem keeps_exactly (ch : Char) : Attempt.Keeps (exactly ch) := by
  intro t s h
  cases t with
  | nil =>
    cases s with
    | nil => rfl
    | cons c s =>
      by_cases same : c = ch
      · simp [exactly, same, Cut.size] at h
      · simp [exactly, same, Attempt.extend, Cut.nothing, Cut.extend]
  | cons c t =>
    simp only [List.cons_append, exactly]
    split <;> rfl

theorem keeps_digitPairs (separator : Char) : Attempt.Keeps (digitPairs separator) :=
  ((keeps_digits 2).andThen (of_digits 2) (keeps_exactly separator)).andThen
    (fun t => (of_digits 2 t).andThen (of_exactly separator)) (keeps_digits 2)

theorem size_digits_pos {c : Char} (h : c.isDigit = true) (n : Nat) (r : List Char) :
    0 < (digits (n + 1) (c :: r)).cut.size := by
  simp only [digits, if_pos h, Cut.size_after, List.length_singleton]
  omega

theorem size_exactly_pos (ch : Char) (r : List Char) : 0 < (exactly ch (ch :: r)).cut.size := by
  simp [exactly, Cut.size]

theorem keeps_date : Attempt.Keeps date := by
  have fields : Attempt.Keeps fun t => ((digits 4 t).andThen (exactly '-')).andThen (digitPairs '-') :=
    ((keeps_digits 4).andThen (of_digits 4) (keeps_exactly '-')).andThen
      (fun t => (of_digits 4 t).andThen (of_exactly '-')) (keeps_digitPairs '-')
  have guarded := fields.guarded (p := Char.isDigit) (fun c r digit =>
    Nat.lt_of_lt_of_le (size_digits_pos digit 3 r)
      (Nat.le_trans (Attempt.size_le_andThen _ _) (Attempt.size_le_andThen _ _))) Attempt.keeps_done
  intro t s
  simp only [date, digitNext_eq]
  exact guarded t s

/-- A run of digits that has to begin. -/
def digitRun (t : List Char) : Attempt := ⟨digitNext t, Cut.run Char.isDigit t⟩

theorem keeps_digitRun : Attempt.Keeps digitRun := by
  intro t s h
  cases t with
  | nil =>
    cases s with
    | nil => rfl
    | cons c s =>
      by_cases digit : c.isDigit = true
      · have taken := size_run_pos (fun _ h => h) c s digit
        exact absurd taken (Nat.not_lt_of_le h)
      · simp [digitRun, digitNext, digit, Cut.run, Attempt.extend, Cut.extend]
  | cons c t => exact congrArg _ (Cut.keeps_run _ (c :: t) s h)

/-- A field behind a character that introduces it, if that comes next. -/
def introduced (ch : Char) (field other : List Char → Attempt) (t : List Char) : Attempt :=
  if t.head?.any (· == ch) then (exactly ch t).andThen field else other t

theorem introduced_cons (ch : Char) (field other : List Char → Attempt) (r : List Char) :
    introduced ch field other (ch :: r) = (exactly ch (ch :: r)).andThen field := by
  simp [introduced]

theorem keeps_introduced (ch : Char) {field other : List Char → Attempt}
    (hf : Attempt.Keeps field) (ho : Attempt.Keeps other) :
    Attempt.Keeps (introduced ch field other) := by
  refine ((keeps_exactly ch).andThen (of_exactly ch) hf).guarded (fun c r same => ?_) ho
  obtain rfl : c = ch := by simpa using same
  exact Nat.lt_of_lt_of_le (size_exactly_pos c r) (Attempt.size_le_andThen _ _)

theorem fraction_eq : fraction = introduced '.' digitRun Attempt.done := by
  funext t
  match t with
  | [] => rfl
  | c :: t =>
    by_cases dot : c = '.'
    · subst dot
      rfl
    · simp [fraction, introduced, dot]

theorem andThen_assoc (a : Attempt) (f g : List Char → Attempt) :
    (a.andThen f).andThen g = a.andThen fun t => (f t).andThen g := by
  by_cases ok : a.ok = true
  · simp only [Attempt.andThen, if_pos ok]
    split <;> simp [Cut.after]
  · simp [Attempt.andThen, ok]

theorem seconds_eq :
    seconds = introduced ':' (fun t => (digits 2 t).andThen fraction) Attempt.done := by
  funext t
  match t with
  | [] => rfl
  | c :: t =>
    by_cases colon : c = ':'
    · subst colon
      rw [introduced_cons, ← andThen_assoc]
      rfl
    · simp [seconds, introduced, colon]

theorem zone_eq :
    zone = introduced 'Z' Attempt.done
      (introduced '+' (digitPairs ':') (introduced '-' (digitPairs ':') Attempt.done)) := by
  funext t
  match t with
  | [] => rfl
  | c :: t =>
    by_cases zero : c = 'Z'
    · subst zero
      rfl
    · by_cases plus : c = '+'
      · subst plus
        rfl
      · by_cases minus : c = '-'
        · subst minus
          rfl
        · simp [zone, introduced, zero, plus, minus]

theorem keeps_fraction : Attempt.Keeps fraction := by
  rw [fraction_eq]
  exact keeps_introduced '.' keeps_digitRun Attempt.keeps_done

theorem keeps_seconds : Attempt.Keeps seconds := by
  rw [seconds_eq]
  exact keeps_introduced ':' ((keeps_digits 2).andThen (of_digits 2) keeps_fraction)
    Attempt.keeps_done

theorem keeps_zone : Attempt.Keeps zone := by
  rw [zone_eq]
  exact keeps_introduced 'Z' Attempt.keeps_done (keeps_introduced '+' (keeps_digitPairs ':')
    (keeps_introduced '-' (keeps_digitPairs ':') Attempt.keeps_done))

/-- A time whose letter and first digit come next. -/
def clock (t : List Char) : Attempt :=
  (((exactly 'T' t).andThen (digitPairs ':')).andThen seconds).andThen zone

theorem keeps_clock : Attempt.Keeps clock := by
  have hours : ∀ t, ((exactly 'T' t).andThen (digitPairs ':')).Of t :=
    fun t => (of_exactly 'T' t).andThen (of_digitPairs ':')
  exact ((((keeps_exactly 'T').andThen (of_exactly 'T') (keeps_digitPairs ':')).andThen hours
    keeps_seconds).andThen (fun t => (hours t).andThen of_seconds) keeps_zone)

/-- A time takes its letter and a digit. -/
theorem size_clock {d : Char} (digit : d.isDigit = true) (r : List Char) :
    2 ≤ (clock ('T' :: d :: r)).cut.size := by
  refine Nat.le_trans ?_ (Nat.le_trans (Attempt.size_le_andThen _ _) (Attempt.size_le_andThen _ _))
  have hour : 1 ≤ (digitPairs ':' (d :: r)).cut.size :=
    Nat.le_trans (size_digits_pos digit 1 r)
      (Nat.le_trans (Attempt.size_le_andThen _ _) (Attempt.size_le_andThen _ _))
  rw [Attempt.andThen_of_ok rfl, Cut.size_after]
  exact Nat.add_le_add_left hour 1

theorem exists_of_timeNext {t : List Char} (h : timeNext t = true) :
    ∃ d r, t = 'T' :: d :: r ∧ d.isDigit = true := by
  match t with
  | [] => cases h
  | [c] =>
    by_cases letter : c = 'T'
    · subst letter
      cases h
    · simp [timeNext, letter] at h
  | c :: d :: r =>
    by_cases letter : c = 'T'
    · subst letter
      exact ⟨d, r, rfl, h⟩
    · simp [timeNext, letter] at h

theorem timeNext_append {t : List Char} (s : List Char) (h : timeNext t = true) :
    timeNext (t ++ s) = true := by
  obtain ⟨d, r, rfl, digit⟩ := exists_of_timeNext h
  exact digit

theorem timeNext_of_append {t s : List Char} (h : timeNext (t ++ s) = true)
    (le : 2 ≤ t.length) : timeNext t = true := by
  match t with
  | c :: d :: t =>
    obtain ⟨_, _, same, digit⟩ := exists_of_timeNext h
    cases same
    exact digit

theorem keeps_time : Attempt.Keeps time := by
  refine keeps_clock.ite (fun t s le goes => ?_) (fun t s => timeNext_append s) Attempt.keeps_done
  refine timeNext_of_append goes (Nat.le_trans ?_ le)
  obtain ⟨d, r, same, digit⟩ := exists_of_timeNext goes
  rw [same]
  exact size_clock digit r

/-- Whether a date or a time comes next. -/
def dateTimeNext (t : List Char) : Bool := digitNext t || timeNext t

/-- The date, the time or both behind a dollar sign. -/
def fields (t : List Char) : Attempt := (date t).andThen time

/-- The dollar sign behind fields that are complete. -/
def dateTimeClosing (ok : Bool) (t : List Char) : Cut :=
  if ok then Cut.one (· == '$') t else Cut.nothing t

theorem keeps_dateTimeClosing (ok : Bool) : Cut.Keeps (dateTimeClosing ok) := by
  cases ok with
  | false => exact fun _ _ _ => rfl
  | true => exact Cut.keeps_one _

/-- A date-time literal without the dollar sign that opens it. -/
def dateTimeBody (t : List Char) : Lexeme :=
  ofCut (dateTimeKind (fields t) (dateTimeClosing (fields t).ok (fields t).cut.rest))
    ((dateTimeClosing (fields t).ok (fields t).cut.rest).after (fields t).cut.text)

theorem dateTime?_eq (t : List Char) :
    dateTime? t = if dateTimeNext t then some ((dateTimeBody t).after ['$']) else none := rfl

theorem keeps_fields : Attempt.Keeps fields := keeps_date.andThen of_date keeps_time

theorem size_fields_le (t : List Char) : (fields t).cut.size ≤ (dateTimeBody t).size := by
  rw [dateTimeBody, size_ofCut, Cut.size_after]
  exact Nat.le_add_right _ _

theorem keeps_dateTimeBody : Keeps dateTimeBody := by
  intro t s h
  have kept := keeps_fields t s (Nat.le_trans (size_fields_le _) h)
  have of : (fields t).cut.Of t := (of_date t).andThen of_time
  rw [dateTimeBody, size_ofCut, Cut.size_after, kept, of.length_eq] at h
  have dollar := keeps_dateTimeClosing (fields t).ok _ s (Nat.le_of_add_le_add_left h)
  rw [dateTimeBody, dateTimeBody, kept, Attempt.ok_extend, Attempt.cut_extend, Cut.rest_extend, dollar]
  rfl

/-- Where a first character tells that fields come, it is taken. -/
theorem size_fields_pos {c : Char} (digit : c.isDigit = true) (r : List Char) :
    0 < (fields (c :: r)).cut.size := by
  refine Nat.lt_of_lt_of_le ?_ (Attempt.size_le_andThen _ _)
  have next : digitNext (c :: r) = true := digit
  rw [date, if_pos next]
  exact Nat.lt_of_lt_of_le (size_digits_pos digit 3 r)
    (Nat.le_trans (Attempt.size_le_andThen _ _) (Attempt.size_le_andThen _ _))

theorem fields_of_timeNext {t : List Char} (h : timeNext t = true) : fields t = clock t := by
  obtain ⟨d, r, rfl, digit⟩ := exists_of_timeNext h
  have none : date ('T' :: d :: r) = Attempt.done ('T' :: d :: r) := rfl
  rw [fields, none, Attempt.andThen_of_ok rfl]
  exact if_pos h

/-- What tells that a date or a time comes is taken. -/
theorem dateTimeNext_of_append {t s : List Char} (h : dateTimeNext (t ++ s) = true)
    (le : (fields (t ++ s)).cut.size ≤ t.length) : dateTimeNext t = true := by
  rcases Bool.or_eq_true_iff.mp h with digit | time
  · cases t with
    | nil =>
      cases s with
      | nil => cases digit
      | cons c s => exact absurd (size_fields_pos digit s) (Nat.not_lt_of_le le)
    | cons c t => exact Bool.or_eq_true_iff.mpr (.inl digit)
  · obtain ⟨d, r, same, digit⟩ := exists_of_timeNext time
    rw [fields_of_timeNext time, same] at le
    exact Bool.or_eq_true_iff.mpr
      (.inr (timeNext_of_append time (Nat.le_trans (size_clock digit r) le)))

theorem dateTimeNext_append {t : List Char} (s : List Char) (h : dateTimeNext t = true) :
    dateTimeNext (t ++ s) = true := by
  rcases Bool.or_eq_true_iff.mp h with digit | time
  · cases t with
    | nil => cases digit
    | cons c t => exact Bool.or_eq_true_iff.mpr (.inl digit)
  · exact Bool.or_eq_true_iff.mpr (.inr (timeNext_append s time))

/-- The literal behind a `$` that is part of the text. -/
theorem dateTime?_keeps {t s : List Char} (h : ∀ x ∈ dateTime? (t ++ s), x.size ≤ t.length + 1) :
    dateTime? (t ++ s) = (dateTime? t).map (extend · s) := by
  rw [dateTime?_eq] at h ⊢
  rw [dateTime?_eq]
  by_cases next : dateTimeNext (t ++ s) = true
  · rw [if_pos next] at h ⊢
    have taken := h _ rfl
    rw [size_after, List.length_singleton, Nat.add_comm] at taken
    have le := Nat.le_of_succ_le_succ taken
    rw [if_pos (dateTimeNext_of_append next (Nat.le_trans (size_fields_le _) le)),
      keeps_dateTimeBody t s le]
    rfl
  · rw [if_neg next, if_neg (mt (dateTimeNext_append s) next)]
    rfl

end DateTimes

end Lexeme

end TagLang
