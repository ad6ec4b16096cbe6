import Mathlib.Data.Stream.Init
import TagLang.Parse

/-!
# Contracts of parses

`Parse.on` answers the requests of a parse from a plain infinite sequence of
tokens, so what a parse means does not depend on how tokens are buffered.
`Ensures` says what holds whenever a parse comes to a value; `Yields` says that
it comes to one. Both pass a postcondition backwards through `bind`, so the
contract of a parse is put together from the contracts of its parts.
-/

namespace TagLang

/-- A result that is no error is a value. -/
theorem Except.exists_eq_ok {ε α : Type} {r : Except ε α} (h : r.isOk = true) :
    ∃ a, r = .ok a := by
  cases r with
  | ok a => exact ⟨a, rfl⟩
  | error e => cases h

/-- A result that is no value is an error. -/
theorem Except.exists_eq_error {ε α : Type} {r : Except ε α} (h : r.isOk = false) :
    ∃ e, r = .error e := by
  cases r with
  | ok a => cases h
  | error e => exact ⟨e, rfl⟩

namespace Parse

open Stream'

variable {α β : Type}

/-- Answer the requests of a parse from a sequence of tokens. What is left of the
sequence is returned, also when the parse failed. -/
def on : Parse α → Stream' Token → Except SyntaxError α × Stream' Token
  | .done a, s => (.ok a, s)
  | .fail e, s => (.error e, s)
  | .peek k, s => (k s.head).on s
  | .peekSecond k, s => (k s.tail.head).on s
  | .take k, s => (k s.head).on s.tail

/-- A parse that goes on reads on where the first part ended. -/
theorem on_bind (p : Parse α) (f : α → Parse β) (s : Stream' Token) :
    (p.bind f).on s =
      match p.on s with
      | (.ok a, t) => (f a).on t
      | (.error e, t) => (.error e, t) := by
  induction p generalizing s with
  | done a => rfl
  | fail e => rfl
  | peek k ih => exact ih _ _
  | peekSecond k ih => exact ih _ _
  | take k ih => exact ih _ _

theorem on_look_bind (f : Token → Parse β) (s : Stream' Token) :
    (look.bind f).on s = (f s.head).on s := rfl

theorem on_next_bind (f : Token → Parse β) (s : Stream' Token) :
    (next.bind f).on s = (f s.head).on s.tail := rfl

theorem on_nextIs_bind (kind : TokenKind) (f : Bool → Parse β) (s : Stream' Token) :
    ((nextIs kind).bind f).on s = (f (s.head.kind == kind)).on s := rfl

/-- A parse leaves what it has not taken. -/
theorem exists_drop_eq_on (p : Parse α) (s : Stream' Token) : ∃ k, (p.on s).2 = s.drop k := by
  induction p generalizing s with
  | done a => exact ⟨0, rfl⟩
  | fail e => exact ⟨0, rfl⟩
  | peek k ih => exact ih _ _
  | peekSecond k ih => exact ih _ _
  | take k ih =>
      obtain ⟨n, left⟩ := ih s.head s.tail
      exact ⟨n + 1, left⟩

/-- If the parse comes to a value, the postcondition holds of it and of what is left. -/
def Ensures (p : Parse α) (s : Stream' Token) (post : α → Stream' Token → Prop) : Prop :=
  ∀ a t, p.on s = (.ok a, t) → post a t

/-- The parse comes to a value, and the postcondition holds of it and of what is left. -/
def Yields (p : Parse α) (s : Stream' Token) (post : α → Stream' Token → Prop) : Prop :=
  ∃ a t, p.on s = (.ok a, t) ∧ post a t

section Ensures

variable {s : Stream' Token} {post post' : α → Stream' Token → Prop}

theorem Ensures.mono {p : Parse α} (h : p.Ensures s post)
    (imp : ∀ a t, post a t → post' a t) : p.Ensures s post' :=
  fun a t ht => imp a t (h a t ht)

@[simp] theorem ensures_done {a : α} : (done a).Ensures s post ↔ post a s := by
  constructor
  · intro h
    exact h a s rfl
  · intro h b t ht
    cases ht
    exact h

@[simp] theorem ensures_fail {e : SyntaxError} : (fail e).Ensures s post := by
  intro a t ht
  cases ht

@[simp] theorem ensures_bind {p : Parse α} {f : α → Parse β} {post : β → Stream' Token → Prop} :
    (p.bind f).Ensures s post ↔ p.Ensures s fun a t => (f a).Ensures t post := by
  constructor
  · intro h a t ht b u hu
    refine h b u ?_
    rw [on_bind, ht]
    exact hu
  · intro h b u hu
    rw [on_bind] at hu
    cases hp : p.on s with
    | mk r t =>
        cases r with
        | ok a =>
            rw [hp] at hu
            exact h a t hp b u hu
        | error e =>
            rw [hp] at hu
            cases hu

theorem ensures_look {post : Token → Stream' Token → Prop} :
    look.Ensures s post ↔ post s.head s :=
  ensures_done

theorem ensures_lookSecond {post : Token → Stream' Token → Prop} :
    lookSecond.Ensures s post ↔ post s.tail.head s :=
  ensures_done

theorem ensures_next {post : Token → Stream' Token → Prop} :
    next.Ensures s post ↔ post s.head s.tail :=
  ensures_done (s := s.tail)

theorem ensures_accept {kind : TokenKind} {post : Bool → Stream' Token → Prop} :
    (accept kind).Ensures s post ↔
      if s.head.kind = kind then post true s.tail else post false s := by
  simp only [accept, bind_eq, ensures_bind, ensures_look, pure_eq]
  split <;> simp [ensures_next]

theorem ensures_expect {kind : TokenKind} {post : Token → Stream' Token → Prop} :
    (expect kind).Ensures s post ↔ (s.head.kind = kind → post s.head s.tail) := by
  simp only [expect, bind_eq, ensures_bind, ensures_look]
  split <;> simp_all [ensures_next, failAt]

theorem ensures_expectText {kind : TokenKind} {text : String}
    {post : Token → Stream' Token → Prop} :
    (expectText kind text).Ensures s post ↔
      (s.head.kind = kind → s.head.text = text → post s.head s.tail) := by
  simp only [expectText, bind_eq, ensures_bind, ensures_look]
  split <;> simp_all [ensures_next, failAt]

theorem ensures_refuse : (refuse : Parse α).Ensures s post := by
  simp [refuse, bind_eq, ensures_next, failAt]

/-- A loop keeps its invariant: each round extends what is gathered or ends the loop. -/
theorem ensures_gather {p : Parse (Option α)} {post : List α → Stream' Token → Prop}
    (invariant : List α → Stream' Token → Prop)
    (round : ∀ gathered t, invariant gathered t → p.Ensures t fun o u =>
      match o with
      | none => post gathered.reverse u
      | some a => invariant (a :: gathered) u)
    (n : Nat) {gathered : List α} (h : invariant gathered s) :
    (gather p n gathered).Ensures s post := by
  induction n generalizing gathered s with
  | zero => exact ensures_refuse
  | succ n ih =>
      rw [gather, bind_eq, ensures_bind]
      refine (round gathered s h).mono ?_
      intro o t ht
      cases o with
      | none => exact ensures_done.mpr ht
      | some a => exact ih ht

end Ensures

section Yields

variable {s : Stream' Token} {post post' : α → Stream' Token → Prop}

theorem Yields.mono {p : Parse α} (h : p.Yields s post)
    (imp : ∀ a t, post a t → post' a t) : p.Yields s post' := by
  obtain ⟨a, t, ht, hp⟩ := h
  exact ⟨a, t, ht, imp a t hp⟩

@[simp] theorem yields_done {a : α} : (done a).Yields s post ↔ post a s := by
  constructor
  · rintro ⟨b, t, ht, hp⟩
    cases ht
    exact hp
  · intro h
    exact ⟨a, s, rfl, h⟩

@[simp] theorem yields_bind {p : Parse α} {f : α → Parse β} {post : β → Stream' Token → Prop} :
    (p.bind f).Yields s post ↔ p.Yields s fun a t => (f a).Yields t post := by
  constructor
  · rintro ⟨b, u, hu, hp⟩
    rw [on_bind] at hu
    cases hr : p.on s with
    | mk r t =>
        cases r with
        | ok a =>
            rw [hr] at hu
            exact ⟨a, t, hr, b, u, hu, hp⟩
        | error e =>
            rw [hr] at hu
            cases hu
  · rintro ⟨a, t, ht, b, u, hu, hp⟩
    refine ⟨b, u, ?_, hp⟩
    rw [on_bind, ht]
    exact hu

/-- Two parses in a row yield what the second one yields after the first. -/
theorem Yields.bind {p : Parse α} {f : α → Parse β} {post' : β → Stream' Token → Prop}
    (h : p.Yields s post) (next : ∀ a t, post a t → (f a).Yields t post') :
    (p.bind f).Yields s post' :=
  yields_bind.mpr (h.mono next)

theorem yields_look {post : Token → Stream' Token → Prop} :
    look.Yields s post ↔ post s.head s :=
  yields_done

theorem yields_lookSecond {post : Token → Stream' Token → Prop} :
    lookSecond.Yields s post ↔ post s.tail.head s :=
  yields_done

theorem yields_next {post : Token → Stream' Token → Prop} :
    next.Yields s post ↔ post s.head s.tail :=
  yields_done (s := s.tail)

theorem yields_accept {kind : TokenKind} {post : Bool → Stream' Token → Prop} :
    (accept kind).Yields s post ↔
      if s.head.kind = kind then post true s.tail else post false s := by
  simp only [accept, bind_eq, yields_bind, yields_look, pure_eq]
  split <;> simp [yields_next]

theorem yields_expect {kind : TokenKind} {post : Token → Stream' Token → Prop}
    (hk : s.head.kind = kind) (h : post s.head s.tail) : (expect kind).Yields s post := by
  simp only [expect, bind_eq, yields_bind, yields_look, if_pos hk, yields_next]
  exact h

theorem yields_expectText {kind : TokenKind} {text : String}
    {post : Token → Stream' Token → Prop} (hk : s.head.kind = kind) (ht : s.head.text = text)
    (h : post s.head s.tail) : (expectText kind text).Yields s post := by
  simp only [expectText, bind_eq, yields_bind, yields_look, if_pos (And.intro hk ht), yields_next]
  exact h

/-- A loop that finds nothing more ends with what it has gathered. -/
theorem yields_gather_none {p : Parse (Option α)} {post : List α → Stream' Token → Prop}
    {n : Nat} {gathered : List α}
    (h : p.Yields s fun o t => o = none ∧ post gathered.reverse t) :
    (gather p (n + 1) gathered).Yields s post := by
  rw [gather, bind_eq]
  refine h.bind ?_
  rintro o t ⟨rfl, hp⟩
  exact yields_done.mpr hp

/-- A loop that finds one more goes on behind it. -/
theorem yields_gather_some {p : Parse (Option α)} {post : List α → Stream' Token → Prop}
    {n : Nat} {gathered : List α}
    (h : p.Yields s fun o t => ∃ a, o = some a ∧ (gather p n (a :: gathered)).Yields t post) :
    (gather p (n + 1) gathered).Yields s post := by
  rw [gather, bind_eq]
  refine h.bind ?_
  rintro o t ⟨a, rfl, hp⟩
  exact hp

end Yields

end Parse

end TagLang
