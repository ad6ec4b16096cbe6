import TagLang.Proofs.Lexeme.Separated

/-!
# Lexemes with another text behind them

A comment or a literal that is closed ends with its terminator, so nothing behind it is
looked at and any text may stand there instead. A text literal that breaks off has seen the
end of its line or of the whole text; it breaks off in the same way in front of any other
such place.
-/

namespace TagLang

namespace Cut

variable {p : Char → Bool} {w s t : List Char}

/-- The cut with another text behind it. -/
def before (x : Cut) (s : List Char) : Cut := ⟨x.text, s⟩

@[simp] theorem text_before (x : Cut) (s : List Char) : (x.before s).text = x.text := rfl

@[simp] theorem rest_before (x : Cut) (s : List Char) : (x.before s).rest = s := rfl

@[simp] theorem before_after (x : Cut) (taken s : List Char) :
    (x.after taken).before s = (x.before s).after taken := rfl

/-- A longer text is what was taken with a longer rest behind it. -/
theorem Of.append {x : Cut} (of : x.Of t) : t ++ s = x.text ++ (x.rest ++ s) := by
  rw [← of, List.append_assoc]

theorem all_run (p : Char → Bool) (t : List Char) : (run p t).text.all p = true :=
  List.all_takeWhile

theorem stops_run (p : Char → Bool) (t : List Char) : (run p t).rest.head?.any p = false := by
  have head := List.head?_dropWhile_not p t
  unfold run
  cases h : (t.dropWhile p).head? with
  | none => rfl
  | some c =>
      rw [h] at head
      simpa using head

/-- A run ends where the next character does not satisfy `p`. -/
theorem run_append (all : w.all p = true) (stop : s.head?.any p = false) :
    run p (w ++ s) = ⟨w, s⟩ := by
  induction w with
  | nil =>
      cases s with
      | nil => rfl
      | cons c s =>
          have apart : p c = false := stop
          simp [run, apart]
  | cons c w ih =>
      rw [List.all_cons, Bool.and_eq_true] at all
      have tail := ih all.2
      simp only [run, Cut.mk.injEq] at tail
      simp [run, all.1, tail]

theorem run_before (t : List Char) (stop : s.head?.any p = false) :
    run p ((run p t).text ++ s) = (run p t).before s :=
  run_append (all_run p t) stop

end Cut

namespace Lexeme

section Delimited

variable {terminator s t : List Char}

theorem isPrefixOf_append_of_length_le {l w : List Char} (le : l.length ≤ w.length)
    (s : List Char) : l.isPrefixOf (w ++ s) = l.isPrefixOf w := by
  rw [Bool.eq_iff_iff, List.isPrefixOf_iff_prefix, List.isPrefixOf_iff_prefix]
  exact ⟨fun h => List.prefix_of_prefix_length_le h (List.prefix_append w s) le,
    fun h => h.trans (List.prefix_append w s)⟩

theorem length_le_of_through? {x : Cut} (h : through? terminator t = some x) :
    terminator.length ≤ x.text.length := by
  induction t generalizing x with
  | nil =>
      unfold through? at h
      split at h
      · rename_i empty
        rw [List.prefix_nil.mp (List.isPrefixOf_iff_prefix.mp empty)]
        exact Nat.zero_le _
      · cases h
  | cons c t ih =>
      unfold through? at h
      split at h
      · cases h
        exact Nat.le_refl _
      · obtain ⟨y, hy, rfl⟩ := Option.map_eq_some_iff.mp h
        rw [Cut.text_after, List.length_append]
        exact Nat.le_trans (ih hy) (Nat.le_add_left _ _)

/-- What a text begins with is told by as much of it as that is long. -/
theorem isPrefixOf_congr {l : List Char} {x : Cut} (of : x.Of t)
    (le : l.length ≤ x.text.length) (s : List Char) :
    l.isPrefixOf (x.text ++ s) = l.isPrefixOf t := by
  rw [← of, isPrefixOf_append_of_length_le le, isPrefixOf_append_of_length_le le]

theorem through?_terminator (terminator s : List Char) :
    through? terminator (terminator ++ s) = some ⟨terminator, s⟩ := by
  cases terminator with
  | nil => cases s <;> rfl
  | cons d l =>
      have found : (d :: l).isPrefixOf (d :: (l ++ s)) = true :=
        List.isPrefixOf_iff_prefix.mpr (List.prefix_append (d :: l) s)
      rw [List.cons_append, through?, if_pos found, ← List.cons_append, List.drop_left]

/-- What ends with its terminator ends there in front of any text. -/
theorem through?_before {x : Cut} (h : through? terminator t = some x) (s : List Char) :
    through? terminator (x.text ++ s) = some (x.before s) := by
  induction t generalizing x with
  | nil =>
      unfold through? at h
      split at h
      · rename_i empty
        obtain rfl := List.prefix_nil.mp (List.isPrefixOf_iff_prefix.mp empty)
        cases h
        exact through?_terminator [] s
      · cases h
  | cons c t ih =>
      have of := of_through? h
      have same := isPrefixOf_congr of (length_le_of_through? h) s
      unfold through? at h
      split at h
      · cases h
        exact through?_terminator terminator s
      · rename_i other
        obtain ⟨y, hy, rfl⟩ := Option.map_eq_some_iff.mp h
        rw [Cut.text_after, List.singleton_append, List.cons_append] at same ⊢
        rw [through?, ih hy, if_neg (mt same.symm.trans other)]
        rfl

end Delimited

section Texts

variable {style : TextStyle} {r s t : List Char}

namespace TextStyle

/-- An unfinished literal does not tell the texts apart: they begin alike, or it can go on
in neither of them. -/
def Alike (style : TextStyle) (r s : List Char) : Prop :=
  r.head? = s.head? ∨ style.stops r = true ∧ style.stops s = true

theorem seams_of_stops (h : style.stops s = true) : Seams s := by
  cases s with
  | nil => rintro _ ⟨⟩
  | cons c s =>
      refine Seams.cons ?_ s
      have line : (c == '\n' || c == '\r') = true := (Bool.and_eq_true_iff.mp h).2
      rcases Bool.or_eq_true_iff.mp line with feed | feed <;> simp [isSeam, isBlank, feed]

theorem stops_congr (h : r.head? = s.head?) : style.stops r = style.stops s := by
  cases r <;> cases s <;> simp_all [stops]

theorem Alike.stops_eq (h : style.Alike r s) : style.stops s = style.stops r := by
  rcases h with same | ⟨hr, hs⟩
  · exact (stops_congr same).symm
  · rw [hr, hs]

theorem Alike.any_eq (h : style.Alike r s) {p : Char → Bool} (hp : Seamless p) :
    s.head?.any p = r.head?.any p := by
  rcases h with same | ⟨hr, hs⟩
  · rw [same]
  · rw [(seams_of_stops hr).any_eq_false hp, (seams_of_stops hs).any_eq_false hp]

theorem alike_append {q : List Char} (ne : q ≠ []) (r s : List Char) :
    style.Alike (q ++ r) (q ++ s) := by
  cases q with
  | nil => exact absurd rfl ne
  | cons c q => exact .inl rfl

/-- Texts are alike if they are alike behind a common beginning. -/
theorem Alike.under {x : Cut} (of : x.Of t) (same : style.Alike x.rest s) :
    style.Alike t (x.text ++ s) := by
  subst of
  cases x.text with
  | nil => exact same
  | cons c text => exact .inl rfl

end TextStyle

theorem brokenOff_eq (h : style.Alike r s) : brokenOff style s = brokenOff style r := by
  rw [brokenOff, brokenOff, h.stops_eq]

theorem hexDigits_of_apart (h : s.head?.any isHexDigit = false) (n : Nat) :
    hexDigits n s = Cut.nothing s := by
  cases n with
  | zero => rfl
  | succ n =>
      cases s with
      | nil => rfl
      | cons c s =>
          have apart : isHexDigit c = false := h
          simp [hexDigits, apart]

theorem hexDigits_before {n : Nat}
    (same : s.head?.any isHexDigit = (hexDigits n t).rest.head?.any isHexDigit) :
    hexDigits n ((hexDigits n t).text ++ s) = (hexDigits n t).before s := by
  induction n generalizing t with
  | zero => rfl
  | succ n ih =>
      by_cases digit : t.head?.any isHexDigit = true
      · cases t with
        | nil => cases digit
        | cons c t =>
            have digit : isHexDigit c = true := digit
            simp only [hexDigits, if_pos digit, Cut.rest_after, Cut.text_after, List.cons_append,
              List.nil_append] at same ⊢
            rw [ih same]
            rfl
      · have apart : t.head?.any isHexDigit = false := by simpa using digit
        rw [hexDigits_of_apart apart (n + 1)] at same ⊢
        exact hexDigits_of_apart (same.trans apart) _

theorem bracedPoint_before
    (same : style.Alike (bracedPoint style (Cut.run Unicode.isAlphanumeric t)).2.rest s) :
    bracedPoint style (Cut.run Unicode.isAlphanumeric
        ((bracedPoint style (Cut.run Unicode.isAlphanumeric t)).2.text ++ s)) =
      ((bracedPoint style (Cut.run Unicode.isAlphanumeric t)).1,
        (bracedPoint style (Cut.run Unicode.isAlphanumeric t)).2.before s) := by
  have all := Cut.all_run Unicode.isAlphanumeric t
  have stop := Cut.stops_run Unicode.isAlphanumeric t
  generalize Cut.run Unicode.isAlphanumeric t = name at same all stop ⊢
  obtain ⟨text, rest⟩ := name
  dsimp only at all stop
  by_cases closed : text ≠ [] ∧ rest.head?.any (· == '}') = true
  · obtain ⟨a, text, rfl⟩ := List.exists_cons_of_ne_nil closed.1
    obtain ⟨rest, rfl⟩ := exists_eq_cons closed.2
    rw [bracedPoint_of_closed, List.append_assoc, Cut.run_append all rfl]
    rfl
  · have unclosed (ne : text ≠ []) : rest.head?.any (· == '}') = false :=
      Bool.eq_false_iff.mpr fun brace => closed ⟨ne, brace⟩
    rw [@bracedPoint_of_open style ⟨text, rest⟩ unclosed] at same ⊢
    have apart := same.any_eq seamless_isAlphanumeric
    have brace := same.any_eq (p := (· == '}')) (by decide)
    have longer : Cut.run Unicode.isAlphanumeric (text ++ s) = ⟨text, s⟩ :=
      Cut.run_append all (apart.trans stop)
    dsimp only
    rw [longer, bracedPoint_of_open fun ne => brace.trans (unclosed ne), brokenOff_eq same]
    rfl

theorem codedPoint_before (same : style.Alike (codedPoint style t).2.rest s) :
    codedPoint style ((codedPoint style t).2.text ++ s) =
      ((codedPoint style t).1, (codedPoint style t).2.before s) := by
  have digits := hexDigits_before (same.any_eq seamless_isHexDigit)
  unfold codedPoint at same ⊢
  dsimp only at same digits ⊢
  simp only [digits, Cut.text_before, Cut.rest_before, brokenOff_eq same]

theorem point_before (same : style.Alike (point style t).2.rest s) :
    point style ((point style t).2.text ++ s) =
      ((point style t).1, (point style t).2.before s) := by
  by_cases brace : t.head?.any (· == '{') = true
  · obtain ⟨t, rfl⟩ := exists_eq_cons brace
    rw [point_brace] at same ⊢
    rw [Cut.text_after, List.append_assoc, List.singleton_append, point_brace,
      bracedPoint_before same]
    rfl
  · have apart := Bool.eq_false_iff.mpr brace
    rw [point_of_apart apart] at same ⊢
    have whole : (codedPoint style t).2.Of t := of_hexDigits 4 t
    have alike := same.under whole
    rw [point_of_apart ((alike.any_eq (by decide)).trans apart), codedPoint_before same]

/-- An escape sees no more of what follows than whether its literal can go on there. -/
theorem escape_before (same : style.Alike (escape style t).2.rest s) :
    escape style ((escape style t).2.text ++ s) =
      ((escape style t).1, (escape style t).2.before s) := by
  by_cases stopped : style.stops t = true
  · rw [escape_of_stops stopped] at same ⊢
    exact escape_of_stops (same.stops_eq.trans stopped)
  · cases t with
    | nil => exact absurd rfl stopped
    | cons c t =>
        by_cases announced : c = 'u'
        · subst announced
          rw [escape_point] at same ⊢
          rw [Cut.text_after, List.append_assoc, List.singleton_append, escape_point,
            point_before same]
          rfl
        · rw [escape_simple stopped announced]
          exact escape_simple (t := s) stopped announced

theorem stops_of_brokenOff {t : List Char} (h : brokenOff style t = .unclosed) :
    style.stops t = true := by
  unfold brokenOff at h
  split at h
  · assumption
  · cases h

theorem stops_of_codedPoint {t : List Char} (h : (codedPoint style t).1 = .unclosed) :
    style.stops (codedPoint style t).2.rest = true := by
  unfold codedPoint at h ⊢
  dsimp only at h ⊢
  split at h
  · cases h
  · exact stops_of_brokenOff h

theorem stops_of_bracedPoint {name : Cut} (h : (bracedPoint style name).1 = .unclosed) :
    style.stops (bracedPoint style name).2.rest = true := by
  unfold bracedPoint at h ⊢
  split at h
  · cases h
  · exact stops_of_brokenOff h

/-- An escape that runs into the end of its literal stops there. -/
theorem stops_of_escape {t : List Char} (h : (escape style t).1 = .unclosed) :
    style.stops (escape style t).2.rest = true := by
  by_cases stopped : style.stops t = true
  · rw [escape_of_stops stopped]
    exact stopped
  · cases t with
    | nil => exact absurd rfl stopped
    | cons c t =>
        by_cases announced : c = 'u'
        · subst announced
          rw [escape_point] at h ⊢
          unfold point at h ⊢
          split at h
          · exact stops_of_bracedPoint h
          · exact stops_of_codedPoint h
        · rw [escape_simple stopped announced] at h
          dsimp only at h
          split at h <;> cases h

theorem stops_of_textBody (h : (textBody style t).1 = .unclosed) :
    style.stops (textBody style t).2.rest = true := by
  fun_induction textBody style t with
  | case1 t stopped => exact stopped
  | case2 => cases h
  | case3 => rfl
  | case4 c r slash spelled unclosed => exact stops_of_escape unclosed
  | case5 c r slash spelled valid tail goes opened ih => exact ih h
  | case6 c r slash spelled faulty tail goes opened ih =>
      refine ih ?_
      cases verdict : tail.1 <;> simp [verdict, TextVerdict.spoil] at h ⊢
  | case7 c r plain tail goes opened ih => exact ih h

/-- A literal that is closed has taken its closing delimiter. -/
theorem closing_le_textBody (h : (textBody style t).1 ≠ .unclosed) :
    style.closing.length ≤ (textBody style t).2.text.length := by
  fun_induction textBody style t with
  | case1 => exact absurd rfl h
  | case2 => exact Nat.le_refl _
  | case3 => exact absurd rfl h
  | case4 => exact absurd rfl h
  | case5 c r slash spelled valid tail goes opened ih =>
      rw [Cut.text_after, List.length_append]
      exact Nat.le_trans (ih h) (Nat.le_add_left _ _)
  | case6 c r slash spelled faulty tail goes opened ih =>
      have closed : tail.1 ≠ .unclosed := fun unclosed => h (by rw [unclosed]; rfl)
      rw [Cut.text_after, List.length_append]
      exact Nat.le_trans (ih closed) (Nat.le_add_left _ _)
  | case7 c r plain tail goes opened ih =>
      rw [Cut.text_after, List.length_append]
      exact Nat.le_trans (ih h) (Nat.le_add_left _ _)

theorem textBody_of_stops (h : style.stops t = true) :
    textBody style t = (.unclosed, Cut.nothing t) := by
  rw [textBody.eq_def, if_pos h]

theorem textBody_of_closing (goes : ¬ style.stops (style.closing ++ t) = true) :
    textBody style (style.closing ++ t) = (.proper, ⟨style.closing, t⟩) := by
  have found : style.closing.isPrefixOf (style.closing ++ t) = true :=
    List.isPrefixOf_iff_prefix.mpr (List.prefix_append _ _)
  rw [textBody.eq_def, if_neg goes, if_pos found, List.drop_left]

/-- The body of a text literal where it goes on. -/
theorem textBody_cons {c : Char} (goes : ¬ style.stops (c :: t) = true)
    (opened : ¬ style.closing.isPrefixOf (c :: t) = true) :
    textBody style (c :: t) =
      if c == '\\' then
        match (escape style t).1 with
        | .unclosed => (.unclosed, (escape style t).2.after [c])
        | .valid =>
          ((textBody style (escape style t).2.rest).1,
            (textBody style (escape style t).2.rest).2.after (c :: (escape style t).2.text))
        | .invalid =>
          ((textBody style (escape style t).2.rest).1.spoil,
            (textBody style (escape style t).2.rest).2.after (c :: (escape style t).2.text))
      else ((textBody style t).1, (textBody style t).2.after [c]) := by
  have step := textBody.eq_def style (c :: t)
  rw [if_neg goes, if_neg opened] at step
  exact step

/-- A text literal sees no more of what follows than whether it can go on there. -/
theorem alike_of_textBody (ne : style.closing ≠ [])
    (ends : (textBody style t).1 = .unclosed → style.stops s = true) :
    style.Alike t ((textBody style t).2.text ++ s) := by
  by_cases unclosed : (textBody style t).1 = .unclosed
  · have stopped : style.Alike (textBody style t).2.rest s :=
      .inr ⟨stops_of_textBody unclosed, ends unclosed⟩
    exact stopped.under (of_textBody style t)
  · have le := closing_le_textBody unclosed
    have of : (textBody style t).2.text ++ (textBody style t).2.rest = t := of_textBody style t
    cases text : (textBody style t).2.text with
    | nil =>
        rw [text] at le
        exact absurd (List.length_eq_zero_iff.mp (Nat.le_zero.mp le)) ne
    | cons c w =>
        rw [text] at of
        rw [← of]
        exact .inl rfl

/-- Where the closing delimiter stands is told by what is taken. -/
theorem isPrefixOf_closing (bare : Unseamed style.closing)
    (ends : (textBody style t).1 = .unclosed → style.stops s = true) :
    style.closing.isPrefixOf ((textBody style t).2.text ++ s) = style.closing.isPrefixOf t := by
  have of := of_textBody style t
  by_cases unclosed : (textBody style t).1 = .unclosed
  · have stopped := TextStyle.seams_of_stops (stops_of_textBody unclosed)
    have shorter := bare.isPrefixOf_append (t := (textBody style t).2.text) stopped
    rw [of] at shorter
    rw [bare.isPrefixOf_append (TextStyle.seams_of_stops (ends unclosed)), shorter]
  · exact isPrefixOf_congr of (closing_le_textBody unclosed) s

/-- A text literal is the same in front of any text, or if it breaks off, in front of any
place where it has to. -/
theorem textBody_before (ne : style.closing ≠ []) (bare : Unseamed style.closing)
    (ends : (textBody style t).1 = .unclosed → style.stops s = true) :
    textBody style ((textBody style t).2.text ++ s) =
      ((textBody style t).1, (textBody style t).2.before s) := by
  have closing := isPrefixOf_closing bare ends
  fun_induction textBody style t with
  | case1 t stopped => exact textBody_of_stops (ends rfl)
  | case2 t goes closed =>
      have begins : style.closing ++ t.drop style.closing.length = t :=
        List.prefix_iff_eq_append.mp (List.isPrefixOf_iff_prefix.mp closed)
      have alike : style.Alike t (style.closing ++ s) := by
        rw [← begins]
        exact TextStyle.alike_append ne _ s
      exact textBody_of_closing (mt alike.stops_eq.symm.trans goes)
  | case3 goes => exact absurd rfl goes
  | case4 c t slash spelled unclosed goes =>
      rename_i opened
      have stopped : style.Alike spelled.rest s := .inr ⟨stops_of_escape unclosed, ends rfl⟩
      have inner : escape style (spelled.text ++ s) = (.unclosed, spelled.before s) := by
        rw [escape_before stopped, unclosed]
      have step := textBody_cons (t := spelled.text ++ s) goes (mt closing.symm.trans opened)
      rw [if_pos slash, inner] at step
      exact step
  | case5 c t slash spelled valid tail goes =>
      rename_i opened ih
      have inner : escape style (spelled.text ++ (tail.2.text ++ s)) =
          (.valid, spelled.before (tail.2.text ++ s)) := by
        rw [escape_before (alike_of_textBody ne ends), valid]
      simp only [Cut.text_after, List.append_assoc] at closing ⊢
      have step := textBody_cons (t := spelled.text ++ (tail.2.text ++ s)) goes
        (mt closing.symm.trans opened)
      have again : textBody style (tail.2.text ++ s) = (tail.1, tail.2.before s) :=
        ih ends (isPrefixOf_closing bare ends)
      rw [if_pos slash, inner] at step
      simp only [Cut.rest_before, again] at step
      exact step
  | case6 c t slash spelled faulty tail goes =>
      rename_i opened ih
      have ends : tail.1 = .unclosed → style.stops s = true := fun unclosed =>
        ends (by rw [unclosed]; rfl)
      have inner : escape style (spelled.text ++ (tail.2.text ++ s)) =
          (.invalid, spelled.before (tail.2.text ++ s)) := by
        rw [escape_before (alike_of_textBody ne ends), faulty]
      simp only [Cut.text_after, List.append_assoc] at closing ⊢
      have step := textBody_cons (t := spelled.text ++ (tail.2.text ++ s)) goes
        (mt closing.symm.trans opened)
      have again : textBody style (tail.2.text ++ s) = (tail.1, tail.2.before s) :=
        ih ends (isPrefixOf_closing bare ends)
      rw [if_pos slash, inner] at step
      simp only [Cut.rest_before, again] at step
      exact step
  | case7 c t plain tail goes opened =>
      rename_i ih
      have step := textBody_cons (t := tail.2.text ++ s) goes (mt closing.symm.trans opened)
      rw [if_neg plain, ih ends (isPrefixOf_closing bare ends)] at step
      exact step

end Texts

end Lexeme

end TagLang
