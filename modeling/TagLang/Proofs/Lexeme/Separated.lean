import TagLang.Lexeme.Read
import TagLang.Proofs.Lexeme.Kept.DateTime

/-!
# Lexemes in front of blanks

A lexeme does not depend on what a blank separates from it: where a text is the front of
a longer one that goes on with a blank, the first lexeme of the longer text is that of
the shorter one, and only the rest grows. The same holds of the `#` of a hash tag, which
goes on with no lexeme either: both make a seam. The recognizers of words, numbers and
dates take no seam, so all that they take stands in front of it, and there they keep it.
-/

namespace TagLang

/-- The text is empty or begins with a blank. -/
def Separates (s : List Char) : Prop := ∀ c ∈ s.head?, isBlank c = true

namespace Separates

variable {s : List Char} {c : Char}

theorem cons (r : List Char) (h : isBlank c = true) : Separates (c :: r) := by
  rintro _ ⟨rfl⟩
  exact h

instance : DecidablePred Separates
  | [] => .isTrue fun _ h => nomatch h
  | c :: r => decidable_of_iff (isBlank c = true) ⟨cons r, fun h => h c rfl⟩

end Separates

/-- The characters that no word, number, date or mark goes on with. -/
def isSeam (c : Char) : Bool := isBlank c || c == '#'

/-- The text is empty or begins with a seam. -/
def Seams (s : List Char) : Prop := ∀ c ∈ s.head?, isSeam c = true

theorem Separates.seams {s : List Char} (h : Separates s) : Seams s :=
  fun c mem => by rw [isSeam, h c mem, Bool.true_or]

theorem Seams.cons {c : Char} (h : isSeam c = true) (r : List Char) : Seams (c :: r) := by
  rintro _ ⟨rfl⟩
  exact h

/-- The predicate holds of no seam. -/
def Seamless (p : Char → Bool) : Prop :=
  p ' ' = false ∧ p '\t' = false ∧ p '\r' = false ∧ p '\n' = false ∧ p '#' = false

instance (p : Char → Bool) : Decidable (Seamless p) := inferInstanceAs (Decidable (_ ∧ _))

theorem Seamless.eq_false {p : Char → Bool} (h : Seamless p) {c : Char}
    (seam : isSeam c = true) : p c = false := by
  simp only [isSeam, isBlank, Bool.or_eq_true, beq_iff_eq] at seam
  rcases seam with (((rfl | rfl) | rfl) | rfl) | rfl
  · exact h.1
  · exact h.2.1
  · exact h.2.2.1
  · exact h.2.2.2.1
  · exact h.2.2.2.2

theorem Seams.any_eq_false {s : List Char} (h : Seams s) {p : Char → Bool}
    (hp : Seamless p) : s.head?.any p = false := by
  cases s with
  | nil => rfl
  | cons c s => exact hp.eq_false (h c rfl)

theorem Seams.ne {c d : Char} {s : List Char} (h : Seams (c :: s)) (apart : isSeam d = false) :
    c ≠ d := by
  rintro rfl
  exact Bool.false_ne_true (apart.symm.trans (h c rfl))

theorem seamless_isWordBody : Seamless isWordBody := by decide

theorem seamless_isDigit : Seamless Char.isDigit := by decide

theorem seamless_isAlphabetic : Seamless Unicode.isAlphabetic := by decide

theorem seamless_isAlphanumeric : Seamless Unicode.isAlphanumeric := by decide

theorem seamless_isHexDigit : Seamless isHexDigit := by decide

/-- There is no seam in the text. -/
def Unseamed (t : List Char) : Prop := ∀ c ∈ t, isSeam c = false

namespace Unseamed

variable {l t s : List Char} {p : Char → Bool}

theorem nil : Unseamed [] := fun _ h => nomatch h

theorem append (h : Unseamed t) (hs : Unseamed s) : Unseamed (t ++ s) :=
  List.forall_mem_append.mpr ⟨h, hs⟩

theorem singleton (hp : Seamless p) {c : Char} (h : p c = true) : Unseamed [c] := by
  refine List.forall_mem_singleton.mpr (Bool.eq_false_iff.mpr fun seam => ?_)
  rw [hp.eq_false seam] at h
  cases h

theorem takeWhile (h : Seamless p) (t : List Char) : Unseamed (t.takeWhile p) := by
  intro c mem
  refine Bool.eq_false_iff.mpr fun seam => ?_
  have taken := List.all_takeWhile (p := p) (l := t)
  rw [List.all_eq_true] at taken
  have held := taken c mem
  rw [h.eq_false seam] at held
  cases held

/-- A text without seams that begins a text with a seam in it begins what stands before
the seam. -/
theorem prefix_of_append (bare : Unseamed l) (sep : Seams s) (h : l <+: t ++ s) : l <+: t := by
  rcases List.prefix_or_prefix_of_prefix h (List.prefix_append t s) with inside | ⟨u, rfl⟩
  · exact inside
  · cases u with
    | nil => simp
    | cons c u =>
        obtain ⟨r, rfl⟩ := (List.prefix_append_right_inj t).mp h
        have seam : isSeam c = true := sep c rfl
        rw [bare c (by simp)] at seam
        cases seam

theorem isPrefixOf_append (bare : Unseamed l) (sep : Seams s) :
    l.isPrefixOf (t ++ s) = l.isPrefixOf t := by
  rw [Bool.eq_iff_iff, List.isPrefixOf_iff_prefix, List.isPrefixOf_iff_prefix]
  exact ⟨bare.prefix_of_append sep, fun h => h.trans (List.prefix_append t s)⟩

end Unseamed

namespace Cut

/-- What the recognizer cuts does not depend on what a seam parts from it. -/
def Extends (f : List Char → Cut) : Prop := ∀ t s, Seams s → f (t ++ s) = (f t).extend s

/-- The recognizer takes no seam. -/
def Bare (f : List Char → Cut) : Prop := ∀ t, Unseamed (f t).text

/-- The same of a recognizer that may refuse a text. -/
def BareSome (f : List Char → Option Cut) : Prop := ∀ t, ∀ x ∈ f t, Unseamed x.text

variable {p : Char → Bool} {f g : List Char → Cut} {s t : List Char}

/-- What holds no seam and begins a text stands before its first seam. -/
theorem Of.size_le {x : Cut} (of : x.Of (t ++ s)) (bare : Unseamed x.text) (sep : Seams s) :
    x.size ≤ t.length :=
  (bare.prefix_of_append sep ⟨x.rest, of⟩).length_le

theorem Keeps.extends (hf : Keeps f) (of : ∀ t, (f t).Of t) (bare : Bare f) : Extends f :=
  fun t s sep => hf t s ((of _).size_le (bare _) sep)

theorem Bare.run (h : Seamless p) : Bare (run p) := Unseamed.takeWhile h

theorem Bare.one (h : Seamless p) : Bare (one p) := by
  intro t
  cases t with
  | nil => exact .nil
  | cons c t =>
      by_cases hc : p c = true
      · simpa [Cut.one, hc] using Unseamed.singleton h hc
      · simpa [Cut.one, hc, nothing] using Unseamed.nil

theorem Bare.then (hf : Bare f) (hg : Bare g) : Bare fun t => (f t).andThen g :=
  fun t => (hf t).append (hg _)

theorem BareSome.guarded (hf : Bare f) : BareSome (guarded p f) := by
  intro t x h
  unfold Cut.guarded at h
  split at h
  · cases h
    exact hf t
  · cases h

theorem BareSome.behind {f : List Char → Option Cut} (h : Seamless p) (hf : BareSome f) :
    BareSome (behind p f) := by
  intro t x found
  match t with
  | [] => cases found
  | c :: t =>
      by_cases hc : p c = true
      · simp only [Cut.behind, if_pos hc] at found
        obtain ⟨y, hy, rfl⟩ := Option.map_eq_some_iff.mp found
        exact (Unseamed.singleton h hc).append (hf t y hy)
      · simp [Cut.behind, hc] at found

theorem BareSome.either {f g : List Char → Option Cut} (hf : BareSome f) (hg : BareSome g) :
    BareSome (either f g) := by
  intro t x h
  rcases Option.or_eq_some_iff.mp h with first | ⟨-, second⟩
  · exact hf t x first
  · exact hg t x second

theorem BareSome.getD {f : List Char → Option Cut} (hf : BareSome f) :
    Bare fun t => (f t).getD (nothing t) := by
  intro t
  dsimp only
  cases h : f t with
  | none => exact .nil
  | some x => exact hf t x h

theorem extends_run (h : Seamless p) : Extends (run p) :=
  (keeps_run p).extends (of_run p) (.run h)

end Cut

namespace Lexeme

/-- What the recognizer takes does not depend on what a seam parts from it. -/
def Extends (f : List Char → Lexeme) : Prop := ∀ t s, Seams s → f (t ++ s) = (f t).extend s

/-- The recognizer takes no seam. -/
def Bare (f : List Char → Lexeme) : Prop := ∀ t, Unseamed (f t).text

variable {s t : List Char}

theorem size_le_of_splits {x : Lexeme} (splits : x.Splits (t ++ s)) (bare : Unseamed x.text)
    (sep : Seams s) : x.size ≤ t.length :=
  (bare.prefix_of_append sep ⟨x.rest, splits.1⟩).length_le

theorem Bare.ofCut {f : List Char → Cut} (hf : Cut.Bare f) (kind : TokenKind) :
    Bare fun t => ofCut kind (f t) := hf

theorem Bare.branch {f : List Char → Option Cut} {found other : List Char → Lexeme}
    (hf : Cut.BareSome f) (hfound : Bare found) (hother : Bare other) :
    Bare (branch f found other) := by
  intro t
  unfold Lexeme.branch
  split
  · exact (hf t _ ‹_›).append (hfound _)
  · exact hother t

section Words

theorem bare_wordSpan : Cut.Bare wordSpan :=
  Cut.Bare.then (.run seamless_isWordBody) (.one (by decide))

theorem bare_word : Bare word := by
  intro t
  unfold word
  dsimp only
  split
  · exact Cut.Bare.run seamless_isWordBody t
  · exact bare_wordSpan t

theorem of_word (t : List Char) : (word t).text ++ (word t).rest = t := by
  unfold word
  dsimp only
  split
  · exact Cut.of_run _ t
  · exact of_wordSpan t

theorem extends_word : Extends word := fun t s sep =>
  keeps_word t s ((bare_word _).prefix_of_append sep ⟨_, of_word _⟩).length_le

/-- The `#` of a hash tag is a seam, but what stands behind it holds none. -/
theorem hashTag?_append (sep : Seams s) :
    hashTag? (t ++ s) = (hashTag? t).map (extend · s) := by
  refine hashTag?_keeps fun x h => ?_
  have span : x = ofCut .tag ((wordSpan (t ++ s)).after ['#']) := by
    unfold hashTag? at h
    split at h
    · cases h
    · split at h <;> cases h
      simp_all
  have le := (of_wordSpan (t ++ s)).size_le (bare_wordSpan _) sep
  rw [span, size_ofCut, Cut.size_after, List.length_singleton, Nat.add_comm]
  exact Nat.succ_le_succ le

end Words

section Numbers

theorem bareSome_someDigits : Cut.BareSome someDigits := .guarded (.run seamless_isDigit)

theorem bareSome_dotDigits? : Cut.BareSome dotDigits? := by
  rw [dotDigits?_eq]
  exact .behind (by decide) (.guarded (.run (by decide)))

theorem bareSome_exponent? : Cut.BareSome exponent? := by
  rw [exponent?_eq]
  exact .behind (by decide)
    (.either bareSome_someDigits (.behind (by decide) bareSome_someDigits))

theorem bare_label {introducer : Char} (h : Seamless (· == introducer)) :
    Cut.Bare (label introducer) := by
  rw [label_eq]
  exact Cut.BareSome.getD
    (.behind h (.either (.guarded (.run seamless_isWordBody)) bareSome_someDigits))

theorem bareSome_radixDigits (letter digit : Char → Bool) (hl : Seamless letter)
    (hd : Seamless fun c => digit c || c == '_') : Cut.BareSome (radixDigits letter digit) :=
  .behind (by decide) (.behind hl (.guarded (.run hd)))

theorem bare_decimalTail : Bare decimalTail := by
  have suffix : Bare suffixed := .ofCut (.one (by decide)) _
  have labels : Bare labelled := .ofCut (.then (bare_label (by decide)) (bare_label (by decide))) _
  have integer : Bare integral := .ofCut (.then (.one (by decide)) (.one (by decide))) _
  have scaled : Bare (branch exponent? suffixed suffixed) :=
    .branch bareSome_exponent? suffix suffix
  exact .branch bareSome_dotDigits? (.branch bareSome_dotDigits? labels scaled)
    (.branch bareSome_exponent? suffix integer)

theorem bare_number : Bare number := by
  intro t
  have binary := bareSome_radixDigits (fun c => c == 'b' || c == 'B') isBit (by decide)
    (by decide) t
  have hex := bareSome_radixDigits (fun c => c == 'x' || c == 'X') isHexDigit (by decide)
    (by decide) t
  unfold number
  cases found : radixInteger? t with
  | some x =>
      rw [radixInteger?_eq, Option.or_eq_some_iff] at found
      rcases found with found | ⟨-, found⟩
      · obtain ⟨y, hy, rfl⟩ := Option.map_eq_some_iff.mp found
        exact binary y hy
      · obtain ⟨y, hy, rfl⟩ := Option.map_eq_some_iff.mp found
        exact hex y hy
  | none =>
      rw [Option.getD_none, decimal_eq]
      exact Unseamed.append (Cut.Bare.run (by decide) t) (bare_decimalTail _)

theorem number_append {c : Char} (digit : c.isDigit = true) (t : List Char)
    (sep : Seams s) : number (c :: t ++ s) = (number (c :: t)).extend s :=
  keeps_number (c :: t) s (size_le_of_splits (splits_number digit) (bare_number _) sep)

end Numbers

section DateTimes

/-- The attempt takes no seam. -/
def Attempt.Bare (f : List Char → Attempt) : Prop := ∀ t, Unseamed (f t).cut.text

theorem Attempt.Bare.andThen {f g : List Char → Attempt} (hf : Bare f) (hg : Bare g) :
    Bare fun t => (f t).andThen g := by
  intro t
  dsimp only
  by_cases ok : (f t).ok = true
  · rw [Attempt.andThen_of_ok ok]
    exact (hf t).append (hg _)
  · simpa [Attempt.andThen, ok] using hf t

theorem Attempt.bare_done : Bare done := fun _ => .nil

theorem bare_digits (n : Nat) : Attempt.Bare (digits n) := by
  intro t
  induction n generalizing t with
  | zero => exact .nil
  | succ n ih =>
      cases t with
      | nil => exact .nil
      | cons c t =>
          by_cases digit : c.isDigit = true
          · simpa [digits, digit] using (Unseamed.singleton seamless_isDigit digit).append (ih t)
          · simpa [digits, digit, Cut.nothing] using Unseamed.nil

theorem bare_exactly {ch : Char} (h : Seamless (· == ch)) : Attempt.Bare (exactly ch) := by
  intro t
  cases t with
  | nil => exact .nil
  | cons c t =>
      by_cases same : (c == ch) = true
      · simpa [exactly, same] using Unseamed.singleton h same
      · simpa [exactly, same, Cut.nothing] using Unseamed.nil

theorem bare_digitPairs {separator : Char} (h : Seamless (· == separator)) :
    Attempt.Bare (digitPairs separator) :=
  ((bare_digits 2).andThen (bare_exactly h)).andThen (bare_digits 2)

theorem bare_introduced {ch : Char} (h : Seamless (· == ch)) {field other : List Char → Attempt}
    (hf : Attempt.Bare field) (ho : Attempt.Bare other) :
    Attempt.Bare (introduced ch field other) := by
  intro t
  unfold introduced
  split
  · exact (bare_exactly h).andThen hf t
  · exact ho t

theorem bare_fields : Attempt.Bare fields := by
  have pairs : Attempt.Bare (digitPairs ':') := bare_digitPairs (by decide)
  have date : Attempt.Bare date := by
    intro t
    unfold Lexeme.date
    split
    · exact ((bare_digits 4).andThen (bare_exactly (by decide))).andThen
        (bare_digitPairs (by decide)) t
    · exact .nil
  have fraction : Attempt.Bare fraction := by
    rw [fraction_eq]
    exact bare_introduced (by decide) (Cut.Bare.run seamless_isDigit) Attempt.bare_done
  have seconds : Attempt.Bare seconds := by
    rw [seconds_eq]
    exact bare_introduced (by decide) ((bare_digits 2).andThen fraction) Attempt.bare_done
  have zone : Attempt.Bare zone := by
    rw [zone_eq]
    exact bare_introduced (by decide) Attempt.bare_done (bare_introduced (by decide) pairs
      (bare_introduced (by decide) pairs Attempt.bare_done))
  have time : Attempt.Bare time := by
    intro t
    unfold Lexeme.time
    split
    · exact (((bare_exactly (by decide)).andThen pairs).andThen seconds).andThen zone t
    · exact .nil
  exact date.andThen time

theorem bare_dateTimeBody : Bare dateTimeBody := by
  intro t
  refine (bare_fields t).append ?_
  unfold dateTimeClosing
  split
  · exact Cut.Bare.one (by decide) _
  · exact .nil

theorem dateTime?_append (sep : Seams s) :
    dateTime? (t ++ s) = (dateTime? t).map (extend · s) := by
  refine dateTime?_keeps fun x h => ?_
  have bare : Unseamed x.text := by
    rw [dateTime?_eq] at h
    split at h
    · cases h
      exact (Unseamed.singleton (p := (· == '$')) (by decide) rfl).append (bare_dateTimeBody _)
    · cases h
  exact size_le_of_splits (t := '$' :: t) (splits_of_dateTime? h) bare sep

end DateTimes

end Lexeme

end TagLang
