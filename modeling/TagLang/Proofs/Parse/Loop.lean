import TagLang.Proofs.Parse.Advances

/-!
# Loops without a bound

A loop repeats a round that either goes on with a new state or ends with a value. The parses
bound their loops; `Repeats` is the run of a loop that nothing bounds, as far as it goes. If
every round that the loop goes on after advances, there is such a run, it has no more rounds
than tokens are left, and a bounded loop comes to the same with any bound above the rounds.
-/

namespace TagLang.Parse

open Stream'

variable {α β σ : Type}

/-- Repeat a round until it ends with a value. After `n` times it is refused. -/
def loop (round : σ → Parse (σ ⊕ β)) : Nat → σ → Parse β
  | 0, _ => refuse
  | n + 1, x => do
    match ← round x with
    | .inl y => loop round n y
    | .inr b => return b

/-- What a loop comes to that nothing bounds, with the number of rounds after which it went
on. -/
inductive Repeats (round : σ → Parse (σ ⊕ β)) :
    σ → Stream' Token → Nat → Except SyntaxError β × Stream' Token → Prop
  | ends {x : σ} {s t : Stream' Token} {b : β} (h : (round x).on s = (.ok (.inr b), t)) :
    Repeats round x s 0 (.ok b, t)
  | fails {x : σ} {s t : Stream' Token} {e : SyntaxError}
    (h : (round x).on s = (.error e, t)) : Repeats round x s 0 (.error e, t)
  | goes {x y : σ} {s t : Stream' Token} {m : Nat}
    {result : Except SyntaxError β × Stream' Token} (h : (round x).on s = (.ok (.inl y), t))
    (next : Repeats round y t m result) : Repeats round x s (m + 1) result

section Bounds

variable {round : σ → Parse (σ ⊕ β)} {x : σ} {s : Stream' Token} {k m n : Nat}
  {result : Except SyntaxError β × Stream' Token}

/-- A bound above the rounds of a loop bounds nothing. -/
theorem Repeats.loop_eq (h : Repeats round x s m result) (lt : m < n) :
    (loop round n x).on s = result := by
  induction h generalizing n with
  | ends h =>
    obtain ⟨n, rfl⟩ := Nat.exists_eq_add_one_of_ne_zero (Nat.ne_of_gt lt)
    rw [loop, bind_eq, on_bind, h]
    rfl
  | fails h =>
    obtain ⟨n, rfl⟩ := Nat.exists_eq_add_one_of_ne_zero (Nat.ne_of_gt lt)
    rw [loop, bind_eq, on_bind, h]
  | goes h _ ih =>
    obtain ⟨n, rfl⟩ := Nat.exists_eq_add_one_of_ne_zero (Nat.ne_zero_of_lt lt)
    rw [loop, bind_eq, on_bind, h]
    exact ih (Nat.lt_of_succ_lt_succ lt)

/-- A loop whose rounds advance comes to its end, after no more rounds than tokens are left. -/
theorem exists_repeats (advances : ∀ x, (round x).Advances fun o => o.isLeft = true)
    (unread : Unread k s) : ∃ m ≤ k, ∃ result, Repeats round x s m result := by
  induction k using Nat.strongRecOn generalizing x s with
  | ind k ih =>
    cases run : (round x).on s with
    | mk r t =>
      cases r with
      | error e => exact ⟨0, Nat.zero_le k, _, .fails run⟩
      | ok o =>
        cases o with
        | inr b => exact ⟨0, Nat.zero_le k, _, .ends run⟩
        | inl y =>
          obtain ⟨moved, few, -, behind⟩ := (advances x).unread run rfl unread
          obtain ⟨m, le, result, next⟩ := ih _ (by omega) behind
          exact ⟨m + 1, by omega, result, .goes run next⟩

end Bounds

section Gather

variable {p : Parse (Option α)}

/-- A round that gathers one more value, or else puts what is gathered in order. -/
def gatherRound (p : Parse (Option α)) (gathered : List α) : Parse (List α ⊕ List α) := do
  match ← p with
  | none => return .inr gathered.reverse
  | some a => return .inl (a :: gathered)

theorem gather_eq_loop (n : Nat) (gathered : List α) :
    gather p n gathered = loop (gatherRound p) n gathered := by
  induction n generalizing gathered with
  | zero => rfl
  | succ n ih =>
    show p.bind _ = (p.bind _).bind _
    rw [bind_assoc]
    refine congrArg p.bind (funext fun o => ?_)
    cases o with
    | none => rfl
    | some a => exact ih (a :: gathered)

/-- A round that gathers advances if what finds the value does. -/
theorem advances_gatherRound (h : p.Advances fun o => o.isSome = true) (gathered : List α) :
    (gatherRound p gathered).Advances fun o => o.isLeft = true := by
  intro s o u ok goes
  obtain ⟨found, t, run, last⟩ := exists_of_bind_eq_ok ok
  rw [gatherRound, bind_eq, taken_bind_of_ok run]
  cases found with
  | none =>
    cases last
    cases goes
  | some a =>
    cases last
    exact h s _ _ run rfl

end Gather

end TagLang.Parse
