import TagLang.Lexeme.DateTime
import TagLang.Scan.Basic

/-!
# Scanning dates and times

A date-time literal is scanned field by field from behind its dollar sign. A field that
breaks off ends the literal where it broke off; without a date or a time the dollar sign
is a mark.
-/

namespace TagLang.Scan

/-- Go through the scan on a condition. -/
def when (b : Bool) (p : Scan Bool) : Scan Bool := if b then p else return true

/-- Two digits, a separator, two digits. -/
def digitPairs (separator : Char) : Scan Bool :=
  (times Char.isDigit 2 <&&> advanceOver separator) <&&> times Char.isDigit 2

/-- Year, month and day. -/
def date : Scan Bool := (times Char.isDigit 4 <&&> advanceOver '-') <&&> digitPairs '-'

/-- A digit and the digits after it. -/
def someDigits : Scan Bool := do
  if ← times Char.isDigit 1 then
    advanceWhile Char.isDigit
    return true
  else return false

/-- The digits behind a dot, if a dot comes next. -/
def fraction : Scan Bool := do
  if ← advanceOver '.' then someDigits else return true

/-- The seconds behind a colon, if a colon comes next. -/
def seconds : Scan Bool := do
  if ← advanceOver ':' then times Char.isDigit 2 <&&> fraction else return true

/-- The offset behind a sign, or the letter for none, if one of them comes next. -/
def zone : Scan Bool := do
  if ← advanceIf fun c => c == '+' || c == '-' then digitPairs ':'
  else
    let _ ← advanceOver 'Z'
    return true

/-- The time behind its letter. -/
def time : Scan Bool := do
  sameLine 1
  (digitPairs ':' <&&> seconds) <&&> zone

/-- Go on behind a scan, unless it breaks off. -/
def unbroken (p : Scan Bool) (next : Scan TokenKind) : Scan TokenKind := do
  if ← p then next else return .fault .invalidTime

/-- The closing dollar sign. -/
def closing : Scan TokenKind := do
  if ← advanceOver '$' then return .literal .dateTime else return .fault .unclosedTime

/-- The date, if a digit comes next, and what stands behind it. -/
def withDate (next : Bool → Scan TokenKind) : Scan TokenKind := do
  let dated := (← look 1).any Char.isDigit
  unbroken (when dated date) (next dated)

/-- The time, if a `T` with a digit comes next, and what stands behind it. -/
def withTime (next : Bool → Scan TokenKind) : Scan TokenKind := do
  let lettered ← has 1 'T'
  let timed := lettered && (← look 2).any Char.isDigit
  unbroken (when timed time) (next timed)

/-- A date-time literal or a mark behind a dollar sign. -/
def dateTime : Scan TokenKind :=
  withDate fun dated => withTime fun timed =>
    if dated || timed then closing else return .mark .dollar

/-- The scan comes to the same outcome as the attempt on every unread text. -/
def Makes (p : Scan Bool) (f : List Char → Lexeme.Attempt) : Prop :=
  ∀ t s, p.Takes t s (f s).ok (f s).cut

theorem Takes.andThen {p q : Scan Bool} {t s : List Char} {a : Lexeme.Attempt}
    {next : List Char → Lexeme.Attempt} (h : p.Takes t s a.ok a.cut) (hq : q.Makes next) :
    (p <&&> q).Takes t s (a.andThen next).ok (a.andThen next).cut := by
  unfold Lexeme.Attempt.andThen
  cases ok : a.ok with
  | true =>
    rw [ok] at h
    exact h.and (hq _ _)
  | false =>
    rw [if_neg Bool.false_ne_true, ok]
    rw [ok] at h
    exact h.and_of_not q

theorem Makes.andThen {p q : Scan Bool} {f next : List Char → Lexeme.Attempt} (h : p.Makes f)
    (hq : q.Makes next) : (p <&&> q).Makes fun s => (f s).andThen next :=
  fun t s => (h t s).andThen hq

end TagLang.Scan

namespace TagLang.Lexeme

theorem Attempt.andThen_assoc (a : Attempt) (f g : List Char → Attempt) :
    (a.andThen f).andThen g = a.andThen fun s => (f s).andThen g := by
  unfold Attempt.andThen
  split
  · dsimp only
    split
    · simp [Cut.after, List.append_assoc]
    · rfl
  · rename_i failed
    simp only

theorem andThen_exactly (ch : Char) (r : List Char) (f : List Char → Attempt) :
    (exactly ch (ch :: r)).andThen f = ⟨(f r).ok, (f r).cut.after [ch]⟩ := by
  simp [exactly, Attempt.andThen]

/-- What follows the fields of a literal: the closing sign, unless they broke off. -/
def Attempt.last (a : Attempt) : Cut :=
  if a.ok then Cut.one (· == '$') a.cut.rest else .nothing a.cut.rest

theorem dateTimeKind_of_broken {a : Attempt} (h : a.ok = false) :
    dateTimeKind a a.last = .fault .invalidTime := by
  simp [dateTimeKind, h]

theorem Attempt.after_last_of_broken {a : Attempt} (h : a.ok = false) :
    a.last.after a.cut.text = a.cut := by
  simp [Attempt.last, h, Cut.after, Cut.nothing]

theorem timeNext_eq (s : List Char) :
    timeNext s = (s[0]? == some 'T' && s[1]?.any Char.isDigit) := by
  fun_cases timeNext s with
  | case1 r => cases r <;> rfl
  | case2 s other =>
    cases s with
    | nil => rfl
    | cons c r =>
      have apart : c ≠ 'T' := by
        rintro rfl
        exact other r rfl
      simp [apart]

end TagLang.Lexeme

namespace TagLang.Scan

theorem makes_digits (n : Nat) : (times Char.isDigit n).Makes (Lexeme.digits n) := by
  intro t s
  fun_induction Lexeme.digits n s generalizing t with
  | case1 s => exact takes_pure true
  | case2 n => exact takes_times_of_not n rfl
  | case3 n c r digit tail ih => exact takes_times_cons digit (ih _)
  | case4 n c r digit => exact takes_times_of_not n (by simpa using digit)

theorem makes_exactly (ch : Char) : (advanceOver ch).Makes (Lexeme.exactly ch) := by
  intro t s
  have taken := takes_advanceOver (t := t) ch s
  fun_cases Lexeme.exactly ch s with
  | case1 => exact taken
  | case2 c r same => simpa [Cut.one, same] using taken
  | case3 c r other => simpa [Cut.one, other] using taken

theorem makes_digitPairs (separator : Char) :
    (digitPairs separator).Makes (Lexeme.digitPairs separator) :=
  ((makes_digits 2).andThen (makes_exactly separator)).andThen (makes_digits 2)

theorem takes_someDigits (t s : List Char) :
    someDigits.Takes t s (Lexeme.digitNext s) (.run Char.isDigit s) := by
  by_cases next : s.head?.any Char.isDigit = true
  · obtain ⟨c, r, rfl⟩ : ∃ c r, s = c :: r := List.exists_cons_of_ne_nil (by rintro rfl; cases next)
    have digit : c.isDigit = true := next
    rw [Lexeme.digitNext_eq, next, Cut.run_cons digit]
    have first : (times Char.isDigit 1).Takes t (c :: r) true ⟨[c], r⟩ :=
      takes_times_cons (n := 0) digit (takes_pure true)
    exact first.bind ((takes_advanceWhile Char.isDigit r).bind_pure rfl)
  · have none : s.head?.any Char.isDigit = false := by simpa using next
    have nothing : Cut.run Char.isDigit s = .nothing s := by
      cases s <;> simp_all [Cut.run, Cut.nothing]
    rw [Lexeme.digitNext_eq, none, nothing]
    exact (takes_times_of_not 0 none).bind_pure rfl

theorem makes_fraction : fraction.Makes Lexeme.fraction := by
  intro t s
  fun_cases Lexeme.fraction s with
  | case1 r => exact takes_advanceOver_cons.bind (takes_someDigits _ r)
  | case2 s other =>
    refine takes_advanceIf_bind_of_not ?_ (takes_pure true)
    cases s <;> simp_all

theorem makes_seconds : seconds.Makes Lexeme.seconds := by
  intro t s
  fun_cases Lexeme.seconds s with
  | case1 r =>
    rw [Lexeme.Attempt.andThen_assoc, Lexeme.andThen_exactly]
    exact takes_advanceOver_cons.bind ((makes_digits 2).andThen makes_fraction _ r)
  | case2 s other =>
    refine takes_advanceIf_bind_of_not ?_ (takes_pure true)
    cases s <;> simp_all

theorem makes_zone : zone.Makes Lexeme.zone := by
  intro t s
  fun_cases Lexeme.zone s with
  | case1 r =>
    exact takes_advanceIf_bind_of_not rfl (takes_advanceOver_cons.bind_pure rfl)
  | case2 r =>
    rw [Lexeme.andThen_exactly]
    exact takes_advanceIf_bind (by decide) (makes_digitPairs ':' _ r)
  | case3 r =>
    rw [Lexeme.andThen_exactly]
    exact takes_advanceIf_bind (by decide) (makes_digitPairs ':' _ r)
  | case4 s noLetter noPlus noDash =>
    refine takes_advanceIf_bind_of_not ?_ ?_
    · cases s <;> simp_all
    · refine takes_advanceIf_bind_of_not ?_ (takes_pure true)
      cases s <;> simp_all

theorem makes_date : (Scan.date).Makes
    fun s => ((Lexeme.digits 4 s).andThen (Lexeme.exactly '-')).andThen (Lexeme.digitPairs '-') :=
  ((makes_digits 4).andThen (makes_exactly '-')).andThen (makes_digitPairs '-')

theorem takes_when_date (t s : List Char) :
    (when (Lexeme.digitNext s) date).Takes t s (Lexeme.date s).ok (Lexeme.date s).cut := by
  unfold Lexeme.date
  split
  · exact takes_then ‹_› (makes_date t s)
  · exact takes_else ‹_› (takes_pure true)

theorem takes_when_time (t s : List Char) :
    (when (Lexeme.timeNext s) time).Takes t s (Lexeme.time s).ok (Lexeme.time s).cut := by
  cases next : Lexeme.timeNext s with
  | true =>
    obtain ⟨r, rfl⟩ : ∃ r, s = 'T' :: r := by
      unfold Lexeme.timeNext at next
      split at next
      · exact ⟨_, rfl⟩
      · cases next
    have letter : (sameLine 1).Takes t ('T' :: r) () ⟨['T'], r⟩ :=
      takes_sameLine (w := ['T']) (by decide)
    have fields := ((makes_digitPairs ':').andThen makes_seconds).andThen makes_zone
    rw [Lexeme.time, if_pos next, Lexeme.Attempt.andThen_assoc, Lexeme.Attempt.andThen_assoc,
      Lexeme.andThen_exactly]
    simp only [← Lexeme.Attempt.andThen_assoc]
    exact letter.bind (fields _ r)
  | false =>
    rw [Lexeme.time, next]
    exact takes_pure true

theorem takes_unbroken {p : Scan Bool} {next : Scan TokenKind} {t s : List Char} {x y : Cut}
    {kind : TokenKind} (h : p.Takes t s true x)
    (hn : next.Takes (t ++ x.text) x.rest kind y) :
    (unbroken p next).Takes t s kind (y.after x.text) :=
  h.bind hn

theorem takes_unbroken_of_broken {p : Scan Bool} {t s : List Char} {x : Cut}
    (h : p.Takes t s false x) (next : Scan TokenKind) :
    (unbroken p next).Takes t s (.fault .invalidTime) x :=
  h.bind_pure rfl

theorem takes_closing (t s : List Char) :
    closing.Takes t s (if (Cut.one (· == '$') s).text = [] then TokenKind.fault .unclosedTime
      else .literal .dateTime) (.one (· == '$') s) := by
  refine (takes_advanceOver '$' s).bind_pure ?_
  cases s with
  | nil => rfl
  | cons c r => by_cases same : c = '$' <;> simp [Cut.one, same, Cut.nothing]

section Fields

variable {t s : List Char} {next : Bool → Scan TokenKind} {kind : TokenKind} {y : Cut}

theorem look_digit (s : List Char) : s[0]?.any Char.isDigit = Lexeme.digitNext s := by
  cases s <;> rfl

theorem takes_withDate (ok : (Lexeme.date s).ok = true)
    (hn : (next (Lexeme.digitNext s)).Takes (t ++ (Lexeme.date s).cut.text)
      (Lexeme.date s).cut.rest kind y) :
    (withDate next).Takes t s kind (y.after (Lexeme.date s).cut.text) := by
  have taken := takes_when_date t s
  rw [ok] at taken
  exact takes_look_bind 0 (look_digit s ▸ takes_unbroken taken hn)

theorem takes_withDate_of_broken (broken : (Lexeme.date s).ok = false) :
    (withDate next).Takes t s (.fault .invalidTime) (Lexeme.date s).cut := by
  have taken := takes_when_date t s
  rw [broken] at taken
  exact takes_look_bind 0 (look_digit s ▸ takes_unbroken_of_broken taken _)

theorem takes_withTime (ok : (Lexeme.time s).ok = true)
    (hn : (next (Lexeme.timeNext s)).Takes (t ++ (Lexeme.time s).cut.text)
      (Lexeme.time s).cut.rest kind y) :
    (withTime next).Takes t s kind (y.after (Lexeme.time s).cut.text) := by
  have taken := takes_when_time t s
  rw [ok] at taken
  exact takes_has_bind 0 'T' (takes_look_bind 1 (Lexeme.timeNext_eq s ▸ takes_unbroken taken hn))

theorem takes_withTime_of_broken (broken : (Lexeme.time s).ok = false) :
    (withTime next).Takes t s (.fault .invalidTime) (Lexeme.time s).cut := by
  have taken := takes_when_time t s
  rw [broken] at taken
  exact takes_has_bind 0 'T'
    (takes_look_bind 1 (Lexeme.timeNext_eq s ▸ takes_unbroken_of_broken taken _))

end Fields

/-- A dollar sign without a date or a time. -/
theorem takes_dateTime_of_none {t s : List Char} (noDate : Lexeme.digitNext s = false)
    (noTime : Lexeme.timeNext s = false) :
    dateTime.Takes t s (.mark .dollar) (.nothing s) := by
  refine takes_look_bind 0 ?_
  rw [look_digit, noDate]
  refine (takes_pure true).bind_nothing (takes_has_bind 0 'T' (takes_look_bind 1 ?_))
  rw [← Lexeme.timeNext_eq, noTime]
  exact (takes_pure true).bind_nothing (takes_pure _)

theorem takes_closing_of_ok {t : List Char} {a : Lexeme.Attempt} (ok : a.ok = true) :
    closing.Takes t a.cut.rest (Lexeme.dateTimeKind a a.last) a.last := by
  have taken := takes_closing t a.cut.rest
  simpa [Lexeme.dateTimeKind, Lexeme.Attempt.last, ok] using taken

/-- A dollar sign in front of a date or a time. -/
theorem takes_dateTime_of_next {t s : List Char} {fields : Lexeme.Attempt}
    (next : (Lexeme.digitNext s || Lexeme.timeNext s) = true)
    (hf : (Lexeme.date s).andThen Lexeme.time = fields) :
    dateTime.Takes t s (Lexeme.dateTimeKind fields fields.last)
      (fields.last.after fields.cut.text) := by
  cases dateOk : (Lexeme.date s).ok with
  | false =>
    have same : fields = Lexeme.date s := by simp [← hf, Lexeme.Attempt.andThen, dateOk]
    rw [same, Lexeme.dateTimeKind_of_broken dateOk, Lexeme.Attempt.after_last_of_broken dateOk]
    exact takes_withDate_of_broken dateOk
  | true =>
    have rest : fields.cut = (Lexeme.time (Lexeme.date s).cut.rest).cut.after
        (Lexeme.date s).cut.text := by simp [← hf, Lexeme.Attempt.andThen, dateOk]
    have ok : fields.ok = (Lexeme.time (Lexeme.date s).cut.rest).ok := by
      simp [← hf, Lexeme.Attempt.andThen, dateOk]
    cases timeOk : (Lexeme.time (Lexeme.date s).cut.rest).ok with
    | false =>
      have broken : fields.ok = false := ok.trans timeOk
      rw [Lexeme.dateTimeKind_of_broken broken, Lexeme.Attempt.after_last_of_broken broken, rest]
      exact takes_withDate dateOk (takes_withTime_of_broken timeOk)
    | true =>
      have closed := takes_closing_of_ok (ok.trans timeOk)
        (t := t ++ (Lexeme.date s).cut.text ++ (Lexeme.time (Lexeme.date s).cut.rest).cut.text)
      rw [rest, Cut.rest_after] at closed
      rw [rest, Cut.text_after, Cut.after_append]
      refine takes_withDate dateOk (takes_withTime timeOk (takes_then ?_ closed))
      -- Without a date no text was passed before the time was looked for.
      cases dated : Lexeme.digitNext s with
      | true => rfl
      | false => simpa [Lexeme.date, Lexeme.Attempt.done, Cut.nothing, dated] using next

theorem completes_dateTime (r : List Char) :
    dateTime.Completes ['$'] r ((Lexeme.dateTime? r).getD ⟨.mark .dollar, ['$'], r⟩) := by
  unfold Lexeme.dateTime?
  split
  · exact ⟨_, _, takes_dateTime_of_next ‹_› rfl, rfl⟩
  · rename_i none
    rw [Bool.or_eq_true, not_or, Bool.not_eq_true, Bool.not_eq_true] at none
    exact ⟨_, _, takes_dateTime_of_none none.1 none.2, rfl⟩

end TagLang.Scan
