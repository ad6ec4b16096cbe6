import TagLang.Proofs.Parse.Contract

/-!
# Parses with looser bounds

Loops and nesting are bounded, and where a bound is exhausted a parse fails. So with looser
bounds a parse comes to at least the values that it comes to with tighter ones. This passes
through `bind` and through loops.
-/

namespace TagLang

namespace Parse

variable {α β : Type} {p q : Parse α} {f g : α → Parse β}

/-- Whatever the first parse comes to, the second one comes to, and leaves the same tokens. -/
def Within (p q : Parse α) : Prop := ∀ s a t, p.on s = (.ok a, t) → q.on s = (.ok a, t)

theorem Within.refl (p : Parse α) : p.Within p := fun _ _ _ h => h

theorem within_refuse : (refuse : Parse α).Within q := by
  intro s a t h
  cases h

theorem Within.bind (h : p.Within q) (next : ∀ a, (f a).Within (g a)) :
    (p.bind f).Within (q.bind g) := by
  intro s b u run
  rw [on_bind] at run ⊢
  cases first : p.on s with
  | mk o t =>
      rw [first] at run
      cases o with
      | error e => cases run
      | ok a =>
          rw [h s a t first]
          exact next a t b u run

/-- A parse whose value is put to use. -/
theorem Within.map {g : α → β} (h : p.Within q) :
    (p.bind fun a => done (g a)).Within (q.bind fun a => done (g a)) :=
  h.bind fun _ => .refl _

/-- What is done behind the same parse. -/
theorem within_bind (next : ∀ a, (f a).Within (g a)) : (p.bind f).Within (p.bind g) :=
  (Within.refl p).bind next

theorem within_gather {p q : Parse (Option α)} {n n' : Nat} {gathered : List α} (h : p.Within q)
    (le : n ≤ n') : (gather p n gathered).Within (gather q n' gathered) := by
  induction n generalizing n' gathered with
  | zero => exact within_refuse
  | succ n ih =>
      obtain ⟨m, rfl⟩ : ∃ m, n' = m + 1 := ⟨n' - 1, by omega⟩
      apply h.bind
      intro o
      cases o with
      | none => exact .refl _
      | some a => exact ih (by omega)

theorem Within.yields {s : Stream' Token} {post : α → Stream' Token → Prop} (h : p.Within q)
    (yields : p.Yields s post) : q.Yields s post := by
  obtain ⟨a, t, run, holds⟩ := yields
  exact ⟨a, t, h s a t run, holds⟩

end Parse

end TagLang
