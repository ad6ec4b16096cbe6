import TagLang.Lexeme.Basic

/-!
# Lexemes cut short behind them

What is recognized at the head of a text is settled by the characters that it takes: where
they stand in a shorter text, the same is recognized there, and only the rest shrinks. A
decision that looks past what is kept so far takes what it has seen, or else has seen
nothing that it wants, and finds nothing either where the text ends earlier.
-/

namespace TagLang

namespace Cut

/-- The cut with more text behind it. -/
def extend (x : Cut) (s : List Char) : Cut := ⟨x.text, x.rest ++ s⟩

@[simp] theorem extend_nil (x : Cut) : x.extend [] = x := by
  simp [extend]

@[simp] theorem extend_after (x : Cut) (taken s : List Char) :
    (x.after taken).extend s = (x.extend s).after taken := rfl

@[simp] theorem text_extend (x : Cut) (s : List Char) : (x.extend s).text = x.text := rfl

@[simp] theorem rest_extend (x : Cut) (s : List Char) : (x.extend s).rest = x.rest ++ s := rfl

@[simp] theorem extend_nothing (t s : List Char) : (nothing t).extend s = nothing (t ++ s) := rfl

/-- How much a cut takes. -/
def size (x : Cut) : Nat := x.text.length

@[simp] theorem size_after (taken : List Char) (x : Cut) :
    (x.after taken).size = taken.length + x.size := by
  simp [size]

theorem size_andThen (x : Cut) (f : List Char → Cut) :
    (x.andThen f).size = x.size + (f x.rest).size := by
  simp [size, Cut.andThen]

theorem Of.length_eq {x : Cut} {t : List Char} (h : x.Of t) : t.length = x.size + x.rest.length := by
  rw [← h, List.length_append, size]

/-- What the recognizer cuts is cut in any text that holds all of it. -/
def Keeps (f : List Char → Cut) : Prop :=
  ∀ t s, (f (t ++ s)).size ≤ t.length → f (t ++ s) = (f t).extend s

/-- The same of a recognizer that may refuse a text. -/
def KeepsSome (f : List Char → Option Cut) : Prop :=
  ∀ t s, (∀ x ∈ f (t ++ s), x.size ≤ t.length) → f (t ++ s) = (f t).map (extend · s)

variable {p : Char → Bool} {s t : List Char}

theorem size_run_cons (p : Char → Bool) {c : Char} (h : p c = true) (r : List Char) :
    (run p (c :: r)).size = (run p r).size + 1 := by
  simp [run, size, h]

theorem keeps_run (p : Char → Bool) : Keeps (run p) := by
  intro t s h
  induction t with
  | nil =>
      cases s with
      | nil => rfl
      | cons c s =>
          cases hc : p c with
          | false => simp [run, extend, hc]
          | true =>
              rw [List.nil_append, size_run_cons p hc] at h
              cases h
  | cons c t ih =>
      cases hc : p c with
      | false => simp [run, extend, hc]
      | true =>
          rw [List.cons_append, size_run_cons p hc] at h
          simpa [run, extend, hc] using ih (Nat.le_of_succ_le_succ h)

theorem keeps_one (p : Char → Bool) : Keeps (one p) := by
  intro t s h
  cases t with
  | nil =>
      cases s with
      | nil => rfl
      | cons c s =>
          cases hc : p c with
          | false => simp [one, extend, nothing, hc]
          | true => simp [one, size, hc] at h
  | cons c t =>
      simp only [List.cons_append, one]
      split <;> rfl

/-- Where the first recognizer has ended in the shorter text, the second goes on. -/
theorem Keeps.andThen {f : List Char → Cut} (hf : Keeps f) {x : Cut} (of : x.Of t)
    (h : ((x.extend s).andThen f).size ≤ t.length) :
    (x.extend s).andThen f = (x.andThen f).extend s := by
  rw [size_andThen, of.length_eq] at h
  have short : (f (x.rest ++ s)).size ≤ x.rest.length := by
    have same : (x.extend s).size = x.size := rfl
    rw [same] at h
    exact Nat.le_of_add_le_add_left h
  simp only [Cut.andThen, extend_after, text_extend, rest_extend, hf _ _ short]

theorem Keeps.then {f g : List Char → Cut} (hf : Keeps f) (of : ∀ t, (f t).Of t) (hg : Keeps g) :
    Keeps fun t => (f t).andThen g := by
  intro t s h
  have first : (f (t ++ s)).size ≤ t.length := by
    rw [size_andThen] at h
    exact Nat.le_trans (Nat.le_add_right _ _) h
  dsimp only at h ⊢
  rw [hf t s first] at h ⊢
  exact hg.andThen (of t) h

theorem KeepsSome.exists_eq {f : List Char → Option Cut} (hf : KeepsSome f) {x : Cut}
    (found : f (t ++ s) = some x) (le : x.size ≤ t.length) :
    ∃ y, f t = some y ∧ x = y.extend s := by
  have kept := hf t s (by simpa [found] using le)
  rw [found] at kept
  obtain ⟨y, hy, same⟩ := Option.map_eq_some_iff.mp kept.symm
  exact ⟨y, hy, same.symm⟩

theorem KeepsSome.eq_none {f : List Char → Option Cut} (hf : KeepsSome f)
    (found : f (t ++ s) = none) : f t = none := by
  have kept := hf t s (by simp [found])
  rw [found] at kept
  exact Option.map_eq_none_iff.mp kept.symm

/-- Cut where the first character satisfies `p`. -/
def guarded (p : Char → Bool) (f : List Char → Cut) (s : List Char) : Option Cut :=
  if s.head?.any p then some (f s) else none

/-- Take a first character that satisfies `p` and what is cut behind it. -/
def behind (p : Char → Bool) (f : List Char → Option Cut) : List Char → Option Cut
  | [] => none
  | c :: r => if p c then (f r).map (after [c]) else none

/-- Cut by the first of two recognizers that does not refuse. -/
def either (f g : List Char → Option Cut) (s : List Char) : Option Cut := (f s).or (g s)

theorem KeepsSome.guarded {f : List Char → Cut} (hf : Keeps f)
    (takes : ∀ c r, p c = true → 0 < (f (c :: r)).size) : KeepsSome (guarded p f) := by
  intro t s h
  cases t with
  | nil =>
      cases s with
      | nil => rfl
      | cons c r =>
          by_cases begins : p c = true
          · have taken := h _ (if_pos begins)
            exact absurd (takes c r begins) (Nat.not_lt_of_le taken)
          · simp [Cut.guarded, begins]
  | cons c t =>
      by_cases begins : p c = true
      · have taken := h _ (if_pos begins)
        simpa [Cut.guarded, begins] using hf (c :: t) s taken
      · simp [Cut.guarded, begins]

theorem KeepsSome.behind {f : List Char → Option Cut} (hf : KeepsSome f) :
    KeepsSome (behind p f) := by
  intro t s h
  cases t with
  | nil =>
      cases s with
      | nil => rfl
      | cons c r =>
          by_cases begins : p c = true
          · cases found : f r with
            | none => simp [Cut.behind, begins, found]
            | some x =>
                have taken := h (x.after [c]) (by simp [Cut.behind, begins, found])
                rw [size_after] at taken
                simp at taken
          · simp [Cut.behind, begins]
  | cons c t =>
      by_cases begins : p c = true
      · have kept := hf t s fun x found => by
          have taken := h (x.after [c]) (by simpa [Cut.behind, begins] using ⟨x, found, rfl⟩)
          rw [size_after, List.length_singleton, List.length_cons, Nat.add_comm] at taken
          exact Nat.le_of_succ_le_succ taken
        simp only [List.cons_append, Cut.behind, begins, if_true, kept, Option.map_map]
        rfl
      · simp [Cut.behind, begins]

theorem KeepsSome.either {f g : List Char → Option Cut} (hf : KeepsSome f) (hg : KeepsSome g) :
    KeepsSome (either f g) := by
  intro t s h
  cases found : f (t ++ s) with
  | some x =>
      obtain ⟨y, first, rfl⟩ := hf.exists_eq found (h x (by simp [Cut.either, found]))
      simp [Cut.either, found, first]
  | none =>
      have second := hg t s fun x other => h x (by simpa [Cut.either, found] using other)
      simp [Cut.either, found, hf.eq_none found, second]

/-- What is cut, or nothing. -/
theorem KeepsSome.getD {f : List Char → Option Cut} (hf : KeepsSome f) :
    Keeps fun t => (f t).getD (nothing t) := by
  intro t s h
  dsimp only at h ⊢
  cases found : f (t ++ s) with
  | some x =>
      rw [found] at h
      obtain ⟨y, first, rfl⟩ := hf.exists_eq found h
      rw [first, Option.getD_some, Option.getD_some]
  | none =>
      rw [hf.eq_none found, Option.getD_none, Option.getD_none, extend_nothing]

end Cut

namespace Lexeme

/-- The lexeme with more text behind it. -/
def extend (x : Lexeme) (s : List Char) : Lexeme := ⟨x.kind, x.text, x.rest ++ s⟩

@[simp] theorem extend_nil (x : Lexeme) : x.extend [] = x := by
  simp [extend]

@[simp] theorem ofCut_extend (kind : TokenKind) (x : Cut) (s : List Char) :
    ofCut kind (x.extend s) = (ofCut kind x).extend s := rfl

/-- How much a lexeme takes. -/
def size (x : Lexeme) : Nat := x.text.length

@[simp] theorem size_ofCut (kind : TokenKind) (x : Cut) : (ofCut kind x).size = x.size := rfl

/-- The lexeme with characters in front of it. -/
def after (taken : List Char) (x : Lexeme) : Lexeme := ⟨x.kind, taken ++ x.text, x.rest⟩

@[simp] theorem size_after (taken : List Char) (x : Lexeme) :
    (x.after taken).size = taken.length + x.size := by
  simp [size, after]

/-- What is recognized is recognized in any text that holds all of it. -/
def Keeps (f : List Char → Lexeme) : Prop :=
  ∀ t s, (f (t ++ s)).size ≤ t.length → f (t ++ s) = (f t).extend s

/-- Where a first cut has ended in the shorter text, the recognizer goes on. -/
theorem Keeps.behind {f : List Char → Lexeme} (hf : Keeps f) {t s : List Char} {x : Cut}
    (of : x.Of t) (h : ((f (x.rest ++ s)).after x.text).size ≤ t.length) :
    (f (x.rest ++ s)).after x.text = ((f x.rest).after x.text).extend s := by
  rw [size_after, of.length_eq, Cut.size] at h
  rw [hf _ _ (Nat.le_of_add_le_add_left h)]
  rfl

theorem Keeps.ofCut {f : List Char → Cut} (hf : Cut.Keeps f) (kind : TokenKind) :
    Keeps fun t => ofCut kind (f t) := by
  intro t s h
  exact congrArg (Lexeme.ofCut kind) (hf t s h)

/-- Go on behind what the first recognizer cuts, or else from the start. -/
def branch (f : List Char → Option Cut) (found other : List Char → Lexeme) (s : List Char) :
    Lexeme :=
  match f s with
  | some x => (found x.rest).after x.text
  | none => other s

theorem Keeps.branch {f : List Char → Option Cut} {found other : List Char → Lexeme}
    (hf : Cut.KeepsSome f) (of : ∀ {t x}, f t = some x → x.Of t) (hfound : Keeps found)
    (hother : Keeps other) : Keeps (branch f found other) := by
  intro t s h
  unfold Lexeme.branch at h ⊢
  cases first : f (t ++ s) with
  | some x =>
    rw [first] at h
    have le : x.size ≤ t.length := by
      dsimp only at h
      rw [size_after] at h
      exact Nat.le_trans (Nat.le_add_right _ _) h
    obtain ⟨y, shorter, rfl⟩ := hf.exists_eq first le
    rw [shorter]
    exact hfound.behind (of shorter) h
  | none =>
    rw [first] at h
    rw [hf.eq_none first]
    exact hother t s h

end Lexeme

end TagLang
