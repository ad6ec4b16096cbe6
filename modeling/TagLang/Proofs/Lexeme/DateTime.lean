import TagLang.Proofs.Lexeme.Kept.DateTime
import TagLang.Proofs.Lexeme.Origin
import TagLang.Proofs.Literal.DateTime

/-!
# Dates and times as they are written

The fields of a date-time literal are recognized one after another, each optional field by
the character that introduces it. What comes out whole is the text of a date and time, and
every such text comes out whole, whatever follows it.
-/

namespace TagLang

open Text
open DateTime (pair writtenDate writtenFraction writtenSeconds writtenTime writtenZone IsFraction
  IsZone)

namespace Lexeme

variable {f g : List Char → Attempt} {t v w r : List Char} {n a b : Nat} {ch : Char}
  {separator : Char} {part place : Option String} {shown : Bool} {d : DateTime} {x : Lexeme}

section Written

/-- In front of the rest, the attempt comes to its end with the text. -/
def Takes (f : List Char → Attempt) (w r : List Char) : Prop := f (w ++ r) = ⟨true, ⟨w, r⟩⟩

theorem Takes.andThen (hf : Takes f w (v ++ r)) (hg : Takes g v r) :
    Takes (fun t => (f t).andThen g) (w ++ v) r := by
  change ((f (w ++ v ++ r)).andThen g) = _
  rw [List.append_assoc, hf, Attempt.andThen_of_ok rfl, hg]
  rfl

theorem takes_done (r : List Char) : Takes Attempt.done [] r := rfl

theorem takes_exactly (ch : Char) (r : List Char) : Takes (exactly ch) [ch] r := by
  simp [Takes, exactly]

theorem takes_digits (n v : Nat) (r : List Char) : Takes (digits n) (padded n v) r := by
  have row {ds : List Char} (all : ∀ c ∈ ds, c.isDigit = true) : Takes (digits ds.length) ds r := by
    induction ds with
    | nil => rfl
    | cons c ds ih =>
      have rest := ih fun d mem => all d (List.mem_cons_of_mem c mem)
      rw [Takes, List.length_cons, List.cons_append, digits, if_pos (all c List.mem_cons_self),
        rest]
      rfl
  have padded := row fun c => isDigit_of_mem_padded (n := n) (v := v)
  rwa [length_padded] at padded

theorem takes_digitPairs (separator : Char) (a b : Nat) (r : List Char) :
    Takes (digitPairs separator) (pair separator a b) r := by
  have first := (takes_digits 2 a _).andThen (takes_exactly separator (padded 2 b ++ r))
  have whole := first.andThen (takes_digits 2 b r)
  rwa [List.append_assoc] at whole

theorem digitNext_padded (n v : Nat) (r : List Char) :
    digitNext (padded (n + 1) v ++ r) = true := by
  obtain ⟨c, ds, same⟩ := List.exists_cons_of_ne_nil (padded_ne_nil (Nat.succ_pos n) (v := v))
  rw [same]
  exact isDigit_of_mem_padded (same ▸ List.mem_cons_self)

theorem takes_introduced {other : List Char → Attempt} (hf : Takes f w r) :
    Takes (introduced ch f other) (ch :: w) r := by
  have both := (takes_exactly ch (w ++ r)).andThen hf
  rw [Takes, List.cons_append, introduced_cons]
  exact both

theorem takes_of_not_introduced {other : List Char → Attempt} (ho : Takes other w r)
    (apart : (w ++ r).head?.any (· == ch) = false) : Takes (introduced ch f other) w r := by
  rw [Takes, introduced, if_neg (Bool.eq_false_iff.mp apart)]
  exact ho

theorem takes_fraction (digits : ∀ w ∈ part, IsFraction w.toList)
    (dot : r.head?.any (· == '.') = false) (digit : r.head?.any Char.isDigit = false) :
    Takes fraction (writtenFraction part) r := by
  rw [fraction_eq]
  cases part with
  | none => exact takes_of_not_introduced (takes_done r) dot
  | some w =>
    obtain ⟨ne, all⟩ := digits w rfl
    obtain ⟨c, ds, same⟩ := List.exists_cons_of_ne_nil ne
    refine takes_introduced ?_
    have next : digitNext (w.toList ++ r) = true := by
      rw [same]
      exact all c (same ▸ List.mem_cons_self)
    rw [Takes, digitRun, next, Cut.run_append (List.all_eq_true.mpr all) digit]

theorem takes_seconds (shown : Bool) (second : Nat) (digits : ∀ w ∈ part, IsFraction w.toList)
    (colon : r.head?.any (· == ':') = false) (dot : r.head?.any (· == '.') = false)
    (digit : r.head?.any Char.isDigit = false) :
    Takes seconds (writtenSeconds shown second part) r := by
  rw [seconds_eq]
  cases shown with
  | false => exact takes_of_not_introduced (takes_done r) colon
  | true =>
    have behind := takes_fraction digits dot digit
    exact takes_introduced ((takes_digits 2 second _).andThen behind)

theorem takes_zone (fits : ∀ w ∈ place, IsZone w.toList) (r : List Char) :
    Takes zone (writtenZone place) ('$' :: r) := by
  cases place with
  | none => rfl
  | some w =>
    have fits := fits w rfl
    rw [writtenZone]
    generalize w.toList = z at fits
    rw [zone_eq]
    cases fits with
    | zero => rfl
    | offset signed hour minute =>
      rcases signed with rfl | rfl
      · exact takes_of_not_introduced (takes_introduced (takes_digitPairs ':' _ _ _)) rfl
      · exact takes_of_not_introduced
          (takes_of_not_introduced (takes_introduced (takes_digitPairs ':' _ _ _)) rfl) rfl

theorem takes_clock (shown : Bool) (hour minute second : Nat)
    (digits : ∀ w ∈ part, IsFraction w.toList)
    (fits : ∀ w ∈ place, IsZone w.toList) (r : List Char) :
    Takes clock ('T' :: (pair ':' hour minute ++
      (writtenSeconds shown second part ++ writtenZone place))) ('$' :: r) := by
  have tail := takes_seconds (r := writtenZone place ++ '$' :: r) shown second digits
    (DateTime.stops_writtenZone fits rfl rfl rfl rfl)
    (DateTime.stops_writtenZone fits rfl rfl rfl rfl)
    (DateTime.stops_writtenZone fits rfl rfl rfl rfl)
  have whole := (((takes_exactly 'T' _).andThen (takes_digitPairs ':' hour minute _)).andThen
    tail).andThen (takes_zone fits r)
  rw [List.append_assoc, List.append_assoc] at whole
  exact whole

theorem timeNext_clock (hour minute : Nat) (r : List Char) :
    timeNext ('T' :: (pair ':' hour minute ++ r)) = true := by
  rw [pair, List.append_assoc]
  exact digitNext_padded 1 hour (':' :: padded 2 minute ++ r)

theorem takes_time (proper : d.Proper) (shown : Bool) (r : List Char) :
    Takes time (writtenTime shown d) ('$' :: r) := by
  rw [writtenTime]
  cases d.time with
  | none => rfl
  | some clock =>
    obtain ⟨hour, minute, second⟩ := clock
    have whole := takes_clock shown hour minute second proper.fraction proper.zone r
    have next := timeNext_clock hour minute
      (writtenSeconds shown second d.fraction ++ writtenZone d.zone ++ '$' :: r)
    rw [← List.append_assoc, ← List.cons_append] at next
    rw [Takes, time, if_pos next]
    exact whole

theorem takes_date {day : Option (Nat × Nat × Nat)} (next : day = none → digitNext r = false) :
    Takes date (writtenDate day) r := by
  cases day with
  | none => exact if_neg (Bool.eq_false_iff.mp (next rfl))
  | some day =>
    obtain ⟨year, month, day⟩ := day
    have whole := ((takes_digits 4 year _).andThen (takes_exactly '-' _)).andThen
      (takes_digitPairs '-' month day r)
    rw [List.append_assoc] at whole
    have next : digitNext (writtenDate (some (year, month, day)) ++ r) = true := by
      rw [writtenDate, List.append_assoc]
      exact digitNext_padded 3 year _
    rw [Takes, date, if_pos next]
    exact whole

theorem takes_fields (proper : d.Proper) (shown : Bool) (r : List Char) :
    Takes fields (writtenDate d.date ++ writtenTime shown d) ('$' :: r) := by
  refine (takes_date fun _ => ?_).andThen (takes_time proper shown r)
  rw [writtenTime]
  cases d.time <;> rfl

theorem dateTimeNext_written (proper : d.Proper) (r : List Char) :
    dateTimeNext (writtenDate d.date ++ (writtenTime shown d ++ r)) = true := by
  refine Bool.or_eq_true_iff.mpr ?_
  cases dated : d.date with
  | some day =>
    obtain ⟨year, month, day⟩ := day
    refine .inl ?_
    rw [writtenDate, List.append_assoc]
    exact digitNext_padded 3 year _
  | none =>
    have timed := proper.present.resolve_left (by simp [dated])
    obtain ⟨⟨hour, minute, second⟩, timed⟩ := Option.isSome_iff_exists.mp timed
    refine .inr ?_
    rw [writtenTime, timed, writtenDate, List.nil_append, List.cons_append, List.append_assoc]
    exact timeNext_clock hour minute _

/-- A date and time as it is written is recognized, whatever follows it. -/
theorem dateTime?_of_written (proper : d.Proper) (shown : Bool) (r : List Char) :
    dateTime? (writtenDate d.date ++ (writtenTime shown d ++ '$' :: r)) =
      some ⟨.literal .dateTime, d.written shown, r⟩ := by
  have taken := takes_fields proper shown r
  rw [Takes, List.append_assoc] at taken
  rw [dateTime?_eq, if_pos (dateTimeNext_written proper _), dateTimeBody, taken]
  simp [dateTimeClosing, Cut.one, dateTimeKind, ofCut, Lexeme.after, Cut.after, DateTime.written]

theorem read_dateTime (proper : d.Proper) (shown : Bool) (r : List Char) :
    read (d.written shown ++ r) = ⟨.literal .dateTime, d.written shown, r⟩ := by
  have split : d.written shown ++ r =
      '$' :: (writtenDate d.date ++ (writtenTime shown d ++ '$' :: r)) := by
    simp [DateTime.written]
  rw [split]
  change (dateTime? _).getD (mark '$' _) = _
  rw [dateTime?_of_written proper, Option.getD_some]

end Written

section Read

theorem forall_mem_none {α : Type} {P : α → Prop} : ∀ a ∈ (none : Option α), P a :=
  fun a mem => absurd mem (Option.not_mem_none a)

theorem of_ok_andThen {p : Attempt} (ok : (p.andThen f).ok = true) :
    p.ok = true ∧ (f p.cut.rest).ok = true ∧
      (p.andThen f).cut.text = p.cut.text ++ (f p.cut.rest).cut.text := by
  by_cases first : p.ok = true
  · rw [Attempt.andThen_of_ok first] at ok ⊢
    exact ⟨first, ok, rfl⟩
  · rw [Attempt.andThen, if_neg first] at ok
    exact absurd ok first

theorem text_of_ok_exactly (ok : (exactly ch t).ok = true) : (exactly ch t).cut.text = [ch] := by
  unfold exactly at ok ⊢
  split at ok
  · cases ok
  · split at ok
    · rename_i same
      rw [if_pos same, eq_of_beq same]
    · cases ok

theorem digits_of_ok (ok : (digits n t).ok = true) :
    (digits n t).cut.text.length = n ∧ ∀ c ∈ (digits n t).cut.text, c.isDigit = true := by
  induction n generalizing t with
  | zero => exact ⟨rfl, List.forall_mem_nil _⟩
  | succ n ih =>
    cases t with
    | nil => cases ok
    | cons c t =>
      by_cases digit : c.isDigit = true
      · rw [digits, if_pos digit] at ok ⊢
        obtain ⟨length, all⟩ := ih ok
        exact ⟨by simp [length], List.forall_mem_cons.mpr ⟨digit, all⟩⟩
      · rw [digits, if_neg digit] at ok
        cases ok

theorem exists_of_ok_digits (ok : (digits n t).ok = true) :
    ∃ v ≤ 10 ^ n - 1, (digits n t).cut.text = padded n v := by
  obtain ⟨length, all⟩ := digits_of_ok ok
  obtain ⟨v, lt, same⟩ := exists_eq_padded all
  rw [length] at lt same
  exact ⟨v, Nat.le_sub_one_of_lt lt, same⟩

theorem exists_of_ok_digitPairs (ok : (digitPairs separator t).ok = true) :
    ∃ a ≤ 99, ∃ b ≤ 99, (digitPairs separator t).cut.text = pair separator a b := by
  obtain ⟨front, second, text⟩ := of_ok_andThen ok
  obtain ⟨first, mark, frontText⟩ := of_ok_andThen front
  obtain ⟨a, ha, firstText⟩ := exists_of_ok_digits first
  obtain ⟨b, hb, secondText⟩ := exists_of_ok_digits second
  refine ⟨a, ha, b, hb, text.trans ?_⟩
  rw [frontText, firstText, text_of_ok_exactly mark, secondText, List.append_assoc]
  rfl

/-- An optional field is left out, or stands whole behind what introduces it. -/
theorem of_ok_introduced {other : List Char → Attempt} (ok : (introduced ch f other t).ok = true) :
    (∃ r, (f r).ok = true ∧ (introduced ch f other t).cut.text = ch :: (f r).cut.text) ∨
      (other t).ok = true ∧ (introduced ch f other t).cut.text = (other t).cut.text := by
  unfold introduced at ok ⊢
  split at ok
  · rename_i here
    rw [if_pos here]
    obtain ⟨mark, field, text⟩ := of_ok_andThen ok
    rw [text_of_ok_exactly mark] at text
    exact .inl ⟨_, field, text⟩
  · rename_i absent
    rw [if_neg absent]
    exact .inr ⟨ok, rfl⟩

theorem exists_of_ok_fraction (ok : (fraction t).ok = true) :
    ∃ part : Option String, (∀ w ∈ part, IsFraction w.toList) ∧
      (fraction t).cut.text = writtenFraction part := by
  rw [fraction_eq] at ok ⊢
  rcases of_ok_introduced ok with ⟨r, next, text⟩ | ⟨-, text⟩
  · refine ⟨some (String.ofList (r.takeWhile Char.isDigit)), ?_, ?_⟩
    · intro w mem
      rw [← Option.mem_some_iff.mp mem, String.toList_ofList]
      refine ⟨?_, fun c mem => List.all_eq_true.mp List.all_takeWhile c mem⟩
      cases r with
      | nil => cases next
      | cons c r =>
        have digit : c.isDigit = true := next
        rw [List.takeWhile_cons, if_pos digit]
        exact List.cons_ne_nil _ _
    · rw [text, writtenFraction, String.toList_ofList]
      rfl
  · exact ⟨none, forall_mem_none, text⟩

theorem exists_of_ok_seconds (ok : (seconds t).ok = true) :
    ∃ (shown : Bool) (second : Nat) (part : Option String), second ≤ 99 ∧
      (∀ w ∈ part, IsFraction w.toList) ∧
      (shown = false → part = none ∧ second = 0) ∧
      (seconds t).cut.text = writtenSeconds shown second part := by
  rw [seconds_eq] at ok ⊢
  rcases of_ok_introduced ok with ⟨r, field, text⟩ | ⟨-, text⟩
  · obtain ⟨first, rest, both⟩ := of_ok_andThen field
    obtain ⟨second, le, secondText⟩ := exists_of_ok_digits first
    obtain ⟨part, digits, partText⟩ := exists_of_ok_fraction rest
    refine ⟨true, second, part, le, digits, Bool.noConfusion, ?_⟩
    rw [text, both, secondText, partText]
    rfl
  · exact ⟨false, 0, none, by decide, forall_mem_none, fun _ => ⟨rfl, rfl⟩, text⟩

theorem exists_of_ok_zone (ok : (zone t).ok = true) :
    ∃ place : Option String, (∀ w ∈ place, IsZone w.toList) ∧
      (zone t).cut.text = writtenZone place := by
  have present {z : List Char} (is : IsZone z) : ∃ place : Option String,
      (∀ w ∈ place, IsZone w.toList) ∧ z = writtenZone place := by
    refine ⟨some (String.ofList z), ?_, String.toList_ofList.symm⟩
    intro w mem
    rwa [← Option.mem_some_iff.mp mem, String.toList_ofList]
  rw [zone_eq] at ok ⊢
  rcases of_ok_introduced ok with ⟨r, -, text⟩ | ⟨ok, text⟩
  · rw [text]
    exact present .zero
  rcases of_ok_introduced ok with ⟨r, field, text'⟩ | ⟨ok, text'⟩
  · obtain ⟨hours, hour, minutes, minute, same⟩ := exists_of_ok_digitPairs field
    rw [text, text', same]
    exact present (.offset (.inl rfl) hour minute)
  rcases of_ok_introduced ok with ⟨r, field, text''⟩ | ⟨ok, text''⟩
  · obtain ⟨hours, hour, minutes, minute, same⟩ := exists_of_ok_digitPairs field
    rw [text, text', text'', same]
    exact present (.offset (.inr rfl) hour minute)
  · exact ⟨none, forall_mem_none, by rw [text, text', text'']; rfl⟩

/-- A time that comes out whole is one that is written. -/
theorem exists_of_ok_clock (ok : (clock t).ok = true) (day : Option (Nat × Nat × Nat))
    (dated : ∀ f ∈ day, f.1 ≤ 9999 ∧ f.2.1 ≤ 99 ∧ f.2.2 ≤ 99) :
    ∃ (d : DateTime) (shown : Bool), d.date = day ∧ d.Proper ∧ d.Admits shown ∧
      (clock t).cut.text = writtenTime shown d := by
  obtain ⟨timed, zoned, text⟩ := of_ok_andThen ok
  obtain ⟨clocked, rest, timedText⟩ := of_ok_andThen timed
  obtain ⟨letter, pairs, clockedText⟩ := of_ok_andThen clocked
  obtain ⟨hour, hourLe, minute, minuteLe, pairText⟩ := exists_of_ok_digitPairs pairs
  obtain ⟨shown, second, part, secondLe, digits, omitted, secondsText⟩ := exists_of_ok_seconds rest
  obtain ⟨place, fits, zoneText⟩ := exists_of_ok_zone zoned
  refine ⟨⟨day, some (hour, minute, second), part, place⟩, shown, rfl, ?_, ?_, ?_⟩
  · exact
      { present := .inr rfl
        date := dated
        time := fun f mem => Option.mem_some_iff.mp mem ▸ ⟨hourLe, minuteLe, secondLe⟩
        fraction := digits
        zone := fits
        timed := fun untimed => absurd untimed (Option.some_ne_none _) }
  · exact fun hidden =>
      ⟨(omitted hidden).1, fun f mem => Option.mem_some_iff.mp mem ▸ (omitted hidden).2⟩
  · change (clock t).cut.text = _ at text
    rw [text, timedText, clockedText, text_of_ok_exactly letter, pairText, secondsText, zoneText]
    simp [writtenTime]

/-- A date that comes out whole is one that is written. -/
theorem exists_of_ok_date (ok : (date t).ok = true) :
    ∃ day : Option (Nat × Nat × Nat), (∀ f ∈ day, f.1 ≤ 9999 ∧ f.2.1 ≤ 99 ∧ f.2.2 ≤ 99) ∧
      (date t).cut.text = writtenDate day ∧ (digitNext t = true → day.isSome = true) ∧
      (digitNext t = false → (date t).cut.rest = t) := by
  by_cases next : digitNext t = true
  · have here : date t = ((digits 4 t).andThen (exactly '-')).andThen (digitPairs '-') :=
      if_pos next
    rw [here] at ok ⊢
    obtain ⟨front, pairs, text⟩ := of_ok_andThen ok
    obtain ⟨first, mark, frontText⟩ := of_ok_andThen front
    obtain ⟨year, yearLe, yearText⟩ := exists_of_ok_digits first
    obtain ⟨month, monthLe, day, dayLe, pairText⟩ := exists_of_ok_digitPairs pairs
    refine ⟨some (year, month, day),
      fun f mem => Option.mem_some_iff.mp mem ▸ ⟨yearLe, monthLe, dayLe⟩, ?_, fun _ => rfl,
      fun none => absurd next (Bool.eq_false_iff.mp none)⟩
    rw [text, frontText, yearText, text_of_ok_exactly mark, pairText, List.append_assoc]
    rfl
  · have here : date t = Attempt.done t := if_neg next
    rw [here]
    exact ⟨none, forall_mem_none, rfl, fun digit => absurd digit next, fun _ => rfl⟩

/-- Fields that come out whole are those of a date and time. -/
theorem exists_of_ok_fields (next : dateTimeNext t = true) (ok : (fields t).ok = true) :
    ∃ (d : DateTime) (shown : Bool), d.Proper ∧ d.Admits shown ∧
      (fields t).cut.text = writtenDate d.date ++ writtenTime shown d := by
  obtain ⟨dated, timed, text⟩ := of_ok_andThen ok
  obtain ⟨day, fits, dayText, present, absent⟩ := exists_of_ok_date dated
  change (fields t).cut.text = _ at text
  rw [text, dayText]
  by_cases clockNext : timeNext (date t).cut.rest = true
  · have here : time (date t).cut.rest = clock (date t).cut.rest := if_pos clockNext
    rw [here] at timed ⊢
    obtain ⟨d, shown, rfl, proper, admits, clockText⟩ := exists_of_ok_clock timed day fits
    exact ⟨d, shown, proper, admits, by rw [clockText]⟩
  · have here : time (date t).cut.rest = Attempt.done (date t).cut.rest := if_neg clockNext
    -- No time follows, so a date has been announced: it takes nothing where a time is.
    have digit : digitNext t = true := by
      refine (Bool.or_eq_true_iff.mp next).resolve_right fun time => ?_
      obtain ⟨c, r, rfl, -⟩ := exists_of_timeNext time
      exact clockNext ((absent rfl).symm ▸ time)
    rw [here]
    refine ⟨⟨day, none, none, none⟩, true, ?_, fun hidden => Bool.noConfusion hidden, rfl⟩
    exact
      { present := .inl (present digit)
        date := fits
        time := forall_mem_none
        fraction := forall_mem_none
        zone := forall_mem_none
        timed := fun _ => ⟨rfl, rfl⟩ }

theorem text_dateTimeClosing {ok : Bool} (closed : (dateTimeClosing ok t).text ≠ []) :
    (dateTimeClosing ok t).text = ['$'] := by
  cases ok with
  | false => exact absurd rfl closed
  | true =>
    cases t with
    | nil => exact absurd rfl closed
    | cons c t =>
      by_cases dollar : (c == '$') = true
      · have here : dateTimeClosing true (c :: t) = ⟨[c], t⟩ := if_pos dollar
        rw [here, eq_of_beq dollar]
      · have here : dateTimeClosing true (c :: t) = Cut.nothing (c :: t) := if_neg dollar
        rw [here] at closed
        exact absurd rfl closed

/-- What is recognized as a date and time is written as one. -/
theorem exists_of_dateTime? (found : dateTime? t = some x) (kind : x.kind = .literal .dateTime) :
    ∃ (d : DateTime) (shown : Bool), d.Proper ∧ d.Admits shown ∧ x.text = d.written shown := by
  rw [dateTime?_eq] at found
  split at found
  · rename_i next
    cases found
    change dateTimeKind _ _ = _ at kind
    unfold dateTimeKind at kind
    split at kind
    · rename_i ok
      split at kind
      · cases kind
      · rename_i closed
        obtain ⟨d, shown, proper, admits, text⟩ := exists_of_ok_fields next ok
        refine ⟨d, shown, proper, admits, ?_⟩
        change '$' :: ((fields t).cut.text ++ (dateTimeClosing _ _).text) = _
        rw [text_dateTimeClosing closed, text, List.append_assoc]
        rfl
    · cases kind
  · cases found

theorem exists_of_read_dateTime (h : (read t).kind = .literal .dateTime) :
    ∃ (d : DateTime) (shown : Bool), d.Proper ∧ d.Admits shown ∧
      (read t).text = d.written shown := by
  cases markedAs_of_literal (marked?_eq_read h rfl) h with
  | dateTime r here found => exact exists_of_dateTime? found h

end Read

end Lexeme

end TagLang
