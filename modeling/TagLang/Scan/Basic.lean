import TagLang.Cursor
import TagLang.Lexeme.Basic

/-!
# Scans

A scan moves a cursor forward and comes to a value. Over characters that are known to
stand on the line it moves by their number alone, which counts columns only. A scan that
would move over a line feed in this way comes to nothing, and so does one that goes
round without moving on. `Takes` says that a scan comes to its value and which part of the
unread text it has moved over.
-/

namespace TagLang

namespace Cursor

/-- Move over what a cut of the unread text takes. -/
def pass (c : Cursor) (x : Cut) : Cursor := c.skip x.text.length

theorem skip_skip (m n : Nat) (c : Cursor) : (c.skip m).skip n = c.skip (m + n) := by
  induction m generalizing c with
  | zero => rw [Nat.zero_add]; rfl
  | succ m ih => rw [Nat.succ_add, skip, skip, ih]

theorem advanceSameLine_eq_skip {n : Nat} {c : Cursor} (h : '\n' ∉ c.rest.take n) :
    c.advanceSameLine n = c.skip n := by
  induction n generalizing c with
  | zero => simp [advanceSameLine, skip]
  | succ n ih =>
      obtain ⟨taken, rest, start, stop⟩ := c
      cases rest with
      | nil =>
          have unmoved := @ih ⟨taken, [], start, stop⟩ (by simp)
          rw [skip, scan, ← unmoved]
          simp [advanceSameLine]
      | cons ch rest =>
          have apart : ch ≠ '\n' ∧ '\n' ∉ rest.take n := by simpa [eq_comm] using h
          rw [skip, scan, ← ih apart.2]
          simp [advanceSameLine, Place.next, apart.1, Nat.add_assoc, Nat.add_comm 1]

@[simp] theorem pass_nothing (c : Cursor) (s : List Char) : c.pass (.nothing s) = c := rfl

@[simp] theorem start_pass (c : Cursor) (x : Cut) : (c.pass x).start = c.start := by
  rw [pass, start_skip]

theorem pass_after (c : Cursor) (x y : Cut) : c.pass (y.after x.text) = (c.pass x).pass y := by
  rw [pass, pass, pass, skip_skip, Cut.text_after, List.length_append]

variable {c : Cursor} {x : Cut}

theorem rest_pass (h : x.Of c.rest) : (c.pass x).rest = x.rest := by
  rw [pass, rest_skip, ← h, List.drop_left]

theorem span_pass (h : x.Of c.rest) : (c.pass x).span = c.span ++ x.text := by
  rw [pass, span_skip, ← h, List.take_left]

end Cursor

theorem Cut.run_cons {p : Char → Bool} {c : Char} (h : p c = true) (r : List Char) :
    Cut.run p (c :: r) = (Cut.run p r).after [c] := by
  simp [Cut.run, Cut.after, h]

theorem Cut.after_append (t u : List Char) (x : Cut) : x.after (t ++ u) = (x.after u).after t := by
  simp [Cut.after, List.append_assoc]

/-- A movement of a cursor to a value. -/
def Scan (α : Type) : Type := Cursor → Option (α × Cursor)

namespace Scan

variable {α β σ : Type}

instance : Monad Scan where
  pure a := fun c => some (a, c)
  bind p f := fun c => (p c).bind fun r => f r.1 r.2

/-- The answer to a question about the cursor. -/
def ask (question : Cursor → α) : Scan α := fun c => some (question c, c)

/-- The `k`-th unread character, counted from one. -/
def look (k : Nat) : Scan (Option Char) := ask (·.look k)

/-- Whether the `k`-th unread character is `ch`. -/
def has (k : Nat) (ch : Char) : Scan Bool := ask (·.has k ch)

/-- Whether the unread characters begin with `text`. -/
def hasText (text : List Char) : Scan Bool := ask (·.hasText text)

/-- The characters of the pending span. -/
def pending : Scan (List Char) := ask Cursor.span

/-- Read one character. -/
def char : Scan (Option Char) := fun c => some c.scan

/-- Read one character if it satisfies `p`, and say whether it did. -/
def advanceIf (p : Char → Bool) : Scan Bool := fun c => some (c.advanceIf p)

/-- Read one character if it is `ch`, and say whether it was. -/
def advanceOver (ch : Char) : Scan Bool := fun c => some (c.advanceOver ch)

/-- Read characters as long as they satisfy `p`. -/
def advanceWhile (p : Char → Bool) : Scan Unit := fun c => some ((), c.advanceWhile p)

/-- Read characters as long as they satisfy `p`, and count them. -/
def count (p : Char → Bool) : Scan Nat := fun c =>
  some ((c.rest.takeWhile p).length, c.advanceWhile p)

/-- Move over `n` characters that hold no line feed. -/
def sameLine (n : Nat) : Scan Unit := fun c =>
  if '\n' ∈ c.rest.take n then none else some ((), c.advanceSameLine n)

/-- Read `n` characters that satisfy `p`, and say whether there were as many. -/
def times (p : Char → Bool) : Nat → Scan Bool
  | 0 => return true
  | n + 1 => advanceIf p <&&> times p n

/-- Choose between two values by the next character, which is read if it is `next`. -/
def either (next : Char) (long short : α) : Scan α := do
  if ← advanceOver next then return long else return short

/-- Go round until a round comes to a value. Each round has to move on. -/
def rounds (round : σ → Scan (σ ⊕ α)) (s : σ) (c : Cursor) : Option (α × Cursor) :=
  match round s c with
  | none => none
  | some (.inr a, c') => some (a, c')
  | some (.inl s', c') => if c'.rest.length < c.rest.length then rounds round s' c' else none
termination_by c.rest.length

/-- Between a pending span and an unread text, the scan comes to a value and moves over
what the cut takes of the text. -/
structure Takes (p : Scan α) (t s : List Char) (a : α) (x : Cut) : Prop where
  of : x.Of s
  eq : ∀ c : Cursor, c.span = t → c.rest = s → p c = some (a, c.pass x)

/-- Behind the characters of a pending span, the scan goes on to the end of a lexeme. -/
def Completes (p : Scan TokenKind) (t s : List Char) (x : Lexeme) : Prop :=
  ∃ kind y, p.Takes t s kind y ∧ Lexeme.ofCut kind (y.after t) = x

section Rules

variable {t s : List Char} {p : Scan α} {f : α → Scan β} {a : α} {b : β} {x y : Cut}

/-- Moving by the number of characters alone fails exactly over a line feed. -/
theorem sameLine_eq_none_iff {n : Nat} {c : Cursor} :
    sameLine n c = none ↔ '\n' ∈ c.rest.take n := by
  rw [sameLine]
  split <;> simp_all

theorem takes_pure (a : α) : (pure a : Scan α).Takes t s a (.nothing s) :=
  ⟨Cut.of_nothing s, fun _ _ _ => rfl⟩

/-- What comes to a value without a further move. -/
theorem Takes.bind_pure (h : p.Takes t s a x) {f : α → Scan β} (hf : f a = pure b) :
    (p >>= f).Takes t s b x := by
  refine ⟨h.of, fun c span rest => ?_⟩
  change (p c).bind _ = _
  rw [h.eq c span rest, Option.bind_some, hf]
  rfl

theorem Takes.bind (h : p.Takes t s a x) (hf : (f a).Takes (t ++ x.text) x.rest b y) :
    (p >>= f).Takes t s b (y.after x.text) := by
  refine ⟨h.of.under hf.of, fun c span rest => ?_⟩
  have moved : x.Of c.rest := by rw [rest]; exact h.of
  have second := hf.eq (c.pass x) (by rw [Cursor.span_pass moved, span]) (Cursor.rest_pass moved)
  change (p c).bind _ = _
  rw [h.eq c span rest, Option.bind_some, second, Cursor.pass_after]

/-- What comes to its value where the first scan has ended. -/
theorem Takes.bind_still (h : p.Takes t s a x)
    (hf : (f a).Takes (t ++ x.text) x.rest b (.nothing x.rest)) : (p >>= f).Takes t s b x := by
  have whole := h.bind hf
  simpa [Cut.after, Cut.nothing] using whole

theorem Takes.bind_nothing (h : p.Takes t s a (.nothing s)) (hf : (f a).Takes t s b y) :
    (p >>= f).Takes t s b y := by
  have second : (f a).Takes (t ++ (Cut.nothing s).text) (Cut.nothing s).rest b y := by
    simpa [Cut.nothing] using hf
  exact h.bind second

/-- A question whose answer lies in the unread text. -/
theorem takes_ask_bind {question : Cursor → α} (answer : ∀ c : Cursor, c.rest = s → question c = a)
    (hf : (f a).Takes t s b y) : (ask question >>= f).Takes t s b y := by
  refine ⟨hf.of, fun c span rest => ?_⟩
  rw [← hf.eq c span rest, ← answer c rest]
  rfl

theorem takes_look_bind (k : Nat) {f : Option Char → Scan β} (hf : (f s[k]?).Takes t s b y) :
    (look (k + 1) >>= f).Takes t s b y :=
  takes_ask_bind (fun c rest => by simp [Cursor.look, rest]) hf

theorem takes_has_bind (k : Nat) (ch : Char) {f : Bool → Scan β}
    (hf : (f (s[k]? == some ch)).Takes t s b y) : (has (k + 1) ch >>= f).Takes t s b y :=
  takes_ask_bind (fun c rest => by simp [Cursor.has, Cursor.look, rest]) hf

theorem takes_hasText_bind (text : List Char) {f : Bool → Scan β}
    (hf : (f (text.isPrefixOf s)).Takes t s b y) : (hasText text >>= f).Takes t s b y :=
  takes_ask_bind (fun c rest => by rw [Cursor.hasText, rest]) hf

theorem takes_pending_bind {f : List Char → Scan β} (hf : (f t).Takes t s b y) :
    (pending >>= f).Takes t s b y := by
  refine ⟨hf.of, fun c span rest => ?_⟩
  rw [← hf.eq c span rest, ← span]
  rfl

theorem takes_then {P : Prop} [Decidable P] {q : Scan α} (h : P) (hp : p.Takes t s a x) :
    (if P then p else q).Takes t s a x := by
  rwa [if_pos h]

theorem takes_else {P : Prop} [Decidable P] {q : Scan α} (h : ¬ P) (hq : q.Takes t s a x) :
    (if P then p else q).Takes t s a x := by
  rwa [if_neg h]

theorem Takes.and {p q : Scan Bool} {b : Bool} (h : p.Takes t s true x)
    (hq : q.Takes (t ++ x.text) x.rest b y) : (p <&&> q).Takes t s b (y.after x.text) :=
  h.bind hq

theorem Takes.and_of_not {p : Scan Bool} (h : p.Takes t s false x) (q : Scan Bool) :
    (p <&&> q).Takes t s false x :=
  h.bind_pure rfl

theorem takes_char_nil : char.Takes t [] none (.nothing []) :=
  ⟨rfl, fun c _ rest => by simp [char, Cursor.scan, rest]⟩

theorem takes_char_cons {ch : Char} {r : List Char} : char.Takes t (ch :: r) (some ch) ⟨[ch], r⟩ :=
  ⟨rfl, fun c _ rest => by simp [char, Cursor.pass, Cursor.skip, Cursor.scan, rest]⟩

theorem takes_advanceIf (p : Char → Bool) (s : List Char) :
    (advanceIf p).Takes t s (s.head?.any p) (.one p s) := by
  refine ⟨Cut.of_one p s, fun c _ rest => ?_⟩
  cases s with
  | nil => simp [advanceIf, Cursor.advanceIf, Cursor.look, rest, Cut.one]
  | cons ch r =>
      by_cases h : p ch = true
      · simp [advanceIf, Cursor.advanceIf, Cursor.look, rest, Cut.one, h, Cursor.pass, Cursor.skip]
      · simp [advanceIf, Cursor.advanceIf, Cursor.look, rest, Cut.one, h]

theorem takes_advanceOver_cons {ch : Char} {r : List Char} :
    (advanceOver ch).Takes t (ch :: r) true ⟨[ch], r⟩ := by
  have taken := takes_advanceIf (t := t) (· == ch) (ch :: r)
  simp only [List.head?_cons, Option.any_some, beq_self_eq_true, Cut.one, if_true] at taken
  exact taken

theorem takes_advanceOver (ch : Char) (s : List Char) :
    (advanceOver ch).Takes t s (s.head?.any (· == ch)) (.one (· == ch) s) :=
  takes_advanceIf (· == ch) s

theorem takes_advanceIf_bind {p : Char → Bool} {ch : Char} {r : List Char} {f : Bool → Scan β}
    (h : p ch = true) (hf : (f true).Takes (t ++ [ch]) r b y) :
    (advanceIf p >>= f).Takes t (ch :: r) b (y.after [ch]) := by
  have taken := takes_advanceIf (t := t) p (ch :: r)
  simp only [List.head?_cons, Option.any_some, h, Cut.one, if_true] at taken
  exact taken.bind hf

theorem takes_advanceIf_bind_of_not {p : Char → Bool} {f : Bool → Scan β}
    (h : s.head?.any p = false) (hf : (f false).Takes t s b y) :
    (advanceIf p >>= f).Takes t s b y := by
  have kept := takes_advanceIf (t := t) p s
  have same : Cut.one p s = .nothing s := by
    cases s with
    | nil => rfl
    | cons ch r => simp_all [Cut.one]
  rw [h, same] at kept
  exact kept.bind_nothing hf

theorem takes_times_cons {p : Char → Bool} {n : Nat} {ch : Char} {r : List Char} {b : Bool}
    (h : p ch = true) (ht : (times p n).Takes (t ++ [ch]) r b y) :
    (times p (n + 1)).Takes t (ch :: r) b (y.after [ch]) :=
  takes_advanceIf_bind h ht

theorem takes_times_of_not {p : Char → Bool} (n : Nat) (h : s.head?.any p = false) :
    (times p (n + 1)).Takes t s false (.nothing s) :=
  takes_advanceIf_bind_of_not h (takes_pure false)

theorem takes_advanceWhile (p : Char → Bool) (s : List Char) :
    (advanceWhile p).Takes t s () (.run p s) :=
  ⟨Cut.of_run p s, fun c _ rest => by
    rw [advanceWhile, Cursor.advanceWhile, rest, Cursor.pass, Cut.run]⟩

theorem takes_count (p : Char → Bool) (s : List Char) :
    (count p).Takes t s (Cut.run p s).text.length (.run p s) :=
  ⟨Cut.of_run p s, fun c _ rest => by
    rw [count, Cursor.advanceWhile, rest, Cursor.pass, Cut.run]⟩

/-- The characters moved over by their number hold no line feed. -/
theorem takes_sameLine {w r : List Char} (line : '\n' ∉ w) :
    (sameLine w.length).Takes t (w ++ r) () ⟨w, r⟩ := by
  refine ⟨rfl, fun c _ rest => ?_⟩
  have free : '\n' ∉ c.rest.take w.length := by rwa [rest, List.take_left]
  rw [sameLine, if_neg free, Cursor.advanceSameLine_eq_skip free, Cursor.pass]

/-- A character of a class without the line feed is moved over by its number. -/
theorem takes_sameLine_one {q : Char → Bool} {ch : Char} {r : List Char} (h : q ch = true)
    (line : q '\n' = false) : (sameLine 1).Takes t (ch :: r) () ⟨[ch], r⟩ := by
  refine takes_sameLine (w := [ch]) ?_
  rw [List.mem_singleton]
  rintro rfl
  rw [line] at h
  cases h

theorem takes_rounds_done {round : σ → Scan (σ ⊕ α)} {i : σ}
    (h : (round i).Takes t s (.inr a) x) : Takes (rounds round i) t s a x := by
  refine ⟨h.of, fun c span rest => ?_⟩
  rw [rounds, h.eq c span rest]

theorem takes_rounds_more {round : σ → Scan (σ ⊕ α)} {i j : σ}
    (h : (round i).Takes t s (.inl j) x) (ne : x.text ≠ [])
    (hr : Takes (rounds round j) (t ++ x.text) x.rest a y) :
    Takes (rounds round i) t s a (y.after x.text) := by
  refine ⟨h.of.under hr.of, fun c span rest => ?_⟩
  have moved : x.Of c.rest := by rw [rest]; exact h.of
  have shorter : (c.pass x).rest.length < c.rest.length := by
    rw [Cursor.rest_pass moved, ← moved, List.length_append]
    have := List.length_pos_iff.mpr ne
    omega
  have others := hr.eq (c.pass x) (by rw [Cursor.span_pass moved, span]) (Cursor.rest_pass moved)
  rw [rounds, h.eq c span rest]
  simp only [shorter, if_true]
  rw [others, Cursor.pass_after]

end Rules

end Scan

end TagLang
