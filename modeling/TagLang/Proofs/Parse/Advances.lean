import TagLang.Proofs.Parse.Orderly

/-!
# Parses that advance

The progress of a parse is measured by the tokens that are left before the end of the
source, whose token then comes for ever. A parse advances if it comes to a value only by
taking at least one of them, and never the end itself. Of a round of a loop this is asked
only for the values that the loop goes on with.
-/

namespace TagLang

open Stream'

/-- Exactly `k` tokens are left before the end of the source, whose token comes from then
on. -/
structure Unread (k : Nat) (s : Stream' Token) : Prop where
  inner : ∀ i < k, (s.get i).kind ≠ .eof
  ends : ∀ i, k ≤ i → (s.get i).kind = .eof

namespace Unread

variable {j k : Nat} {s : Stream' Token} {t : Token} {ts : List Token}

theorem drop (h : Unread k s) (j : Nat) : Unread (k - j) (s.drop j) := by
  refine ⟨fun i hi => ?_, fun i hi => ?_⟩
  · rw [get_drop]
    exact h.inner _ (by omega)
  · rw [get_drop]
    exact h.ends _ (by omega)

theorem append_const {e : Token} (inner : ∀ t ∈ ts, t.kind ≠ .eof) (ended : e.kind = .eof) :
    Unread ts.length (ts ++ₛ const e) := by
  refine ⟨fun i hi => ?_, fun i hi => ?_⟩
  · rw [get_append_left _ _ _ hi]
    exact inner _ (List.getElem_mem hi)
  · obtain ⟨m, rfl⟩ := Nat.exists_eq_add_of_le hi
    rw [get_append_right]
    exact ended

/-- Tokens in front add at most as many as they are. -/
theorem le_length_add (h : Unread k (ts ++ₛ s)) (behind : Unread j s) : k ≤ ts.length + j := by
  by_contra more
  have ended := behind.ends j (Nat.le_refl j)
  rw [← get_append_right] at ended
  exact h.inner _ (by omega) ended

/-- A token before the end is one more. -/
theorem cons (h : Unread k s) (ne : t.kind ≠ .eof) : Unread (k + 1) (t :: s) := by
  refine ⟨fun i hi => ?_, fun i hi => ?_⟩
  · cases i with
    | zero => exact ne
    | succ i => exact h.inner i (by omega)
  · obtain ⟨m, rfl⟩ := Nat.exists_eq_add_of_le' hi
    exact h.ends (m + k) (by omega)

end Unread

namespace Parse

variable {α β : Type} {p : Parse α} {f : α → Parse β} {good : α → Prop} {good' : β → Prop}

/-- A value of this sort is come to only by taking a token. -/
def Moves (good : α → Prop) (p : Parse α) : Prop :=
  ∀ s a t, p.on s = (.ok a, t) → good a → 0 < p.taken s

/-- A value of this sort is come to only by taking a token, and no end of the source is
taken for it. -/
def Advances (good : α → Prop) (p : Parse α) : Prop :=
  ∀ s a t, p.on s = (.ok a, t) → good a →
    0 < p.taken s ∧ ∀ j < p.taken s, (s.get j).kind ≠ .eof

/-- What comes to a value comes to one in each of its parts. -/
theorem exists_of_bind_eq_ok {s u : Stream' Token} {b : β} (h : (p.bind f).on s = (.ok b, u)) :
    ∃ a t, p.on s = (.ok a, t) ∧ (f a).on t = (.ok b, u) := by
  rw [on_bind] at h
  cases run : p.on s with
  | mk r t =>
    rw [run] at h
    cases r with
    | ok a => exact ⟨a, t, rfl, h⟩
    | error e => cases h

theorem moves_done {a : α} (h : ¬ good a) : (done a).Moves good := by
  rintro s b t ⟨⟩ is
  exact absurd is h

theorem moves_failAt {t : Token} {cause : SyntaxCause} : (failAt t cause).Moves good := by
  rintro s a u ⟨⟩

theorem moves_next {good : Token → Prop} : next.Moves good := fun _ _ _ _ _ => Nat.zero_lt_one

/-- Behind a parse that moves, nothing more has to. -/
theorem Moves.bind (h : p.Moves fun _ => True) : (p.bind f).Moves good' := by
  intro s b u ok _
  obtain ⟨a, t, run, -⟩ := exists_of_bind_eq_ok ok
  rw [taken_bind_of_ok run]
  exact Nat.add_pos_left (h s a t run trivial) _

theorem moves_bind (h : ∀ a, (f a).Moves good') : (p.bind f).Moves good' := by
  intro s b u ok is
  obtain ⟨a, t, run, behind⟩ := exists_of_bind_eq_ok ok
  rw [taken_bind_of_ok run]
  exact Nat.add_pos_right _ (h a t b u behind is)

theorem moves_refuse : (refuse : Parse α).Moves good := moves_next.bind

theorem moves_expect {kind : TokenKind} : (expect kind).Moves fun _ => True := by
  refine moves_bind fun t => ?_
  split
  · exact moves_next
  · exact moves_failAt

/-- An orderly parse takes no end of the source. -/
theorem Moves.advances {r : Registry} (h : p.Moves good) (orderly : ∀ s, p.Orderly r s)
    (regular : ∀ t, r.Consumes t → t.kind ≠ .eof) : p.Advances good :=
  fun s a t ok is =>
    ⟨h s a t ok is, fun j hj => regular _ ((orderly s).consumes a t ok j hj)⟩

/-- A parse that advances leaves fewer tokens, by as many as it takes. -/
theorem Advances.unread {s t : Stream' Token} {a : α} {k : Nat} (h : p.Advances good)
    (ok : p.on s = (.ok a, t)) (is : good a) (unread : Unread k s) :
    0 < p.taken s ∧ p.taken s ≤ k ∧ t = s.drop (p.taken s) ∧ Unread (k - p.taken s) t := by
  obtain ⟨moved, inner⟩ := h s a t ok is
  have left : t = s.drop (p.taken s) := by rw [← left_eq_drop_taken, ok]
  refine ⟨moved, ?_, left, left ▸ unread.drop _⟩
  by_contra more
  exact inner k (by omega) (unread.ends k (Nat.le_refl k))

end Parse

end TagLang
