import TagLang.Proofs.Parse.Loop

/-!
# Parses that are the same on some tokens

Two parses that differ in their bounds, in what they look up or in what is below them may
still do the same on tokens of a certain sort (`Scene`). Tokens of that sort may be taken in
front, and a token before the end leaves fewer of them, so what is nested may be asked to be
the same on fewer tokens only. Loops whose rounds take a token are the same for any two bounds
above the number of tokens that are left.
-/

namespace TagLang

open Stream'

/-- Every token is free, and at most `k` of them are left before the end of the source. -/
structure Scene (free : Token → Prop) (k : Nat) (s : Stream' Token) : Prop where
  free : ∀ i, free (s.get i)
  unread : ∃ j ≤ k, Unread j s

namespace Scene

variable {free : Token → Prop} {j k : Nat} {s : Stream' Token}

theorem mono (h : Scene free j s) (le : j ≤ k) : Scene free k s := by
  obtain ⟨i, few, unread⟩ := h.unread
  exact ⟨h.free, i, Nat.le_trans few le, unread⟩

theorem drop (h : Scene free k s) (j : Nat) : Scene free (k - j) (s.drop j) := by
  obtain ⟨i, few, unread⟩ := h.unread
  refine ⟨fun m => ?_, i - j, Nat.sub_le_sub_right few j, unread.drop j⟩
  rw [get_drop]
  exact h.free _

/-- A token before the end is one of those before the end. -/
theorem pos_of_ne_eof (h : Scene free k s) (ne : s.head.kind ≠ .eof) : 0 < k := by
  obtain ⟨i, few, unread⟩ := h.unread
  by_contra none
  exact ne (unread.ends 0 (by omega))

theorem exists_lt_drop (h : Scene free k s) (ne : s.head.kind ≠ .eof) (pos : 0 < j) :
    ∃ i < k, Scene free i (s.drop j) :=
  ⟨k - j, Nat.sub_lt (h.pos_of_ne_eof ne) pos, h.drop j⟩

end Scene

namespace Parse

variable {α β σ : Type} {free : Token → Prop} {j k n n' : Nat} {p q : Parse α}
  {f g : α → Parse β}

/-- Two parses come to the same on scenes with at most `k` tokens. -/
def SameOn (free : Token → Prop) (k : Nat) (p q : Parse α) : Prop :=
  ∀ s, Scene free k s → p.on s = q.on s

theorem SameOn.refl (p : Parse α) : SameOn free k p p := fun _ _ => rfl

theorem SameOn.mono (h : SameOn free k p q) (le : j ≤ k) : SameOn free j p q :=
  fun s scene => h s (scene.mono le)

/-- Two parses in a row are the same if they are behind the same values. -/
theorem SameOn.bind (h : SameOn free k p q) (next : ∀ a, SameOn free k (f a) (g a)) :
    SameOn free k (p.bind f) (q.bind g) := by
  intro s scene
  obtain ⟨m, left⟩ := q.exists_drop_eq_on s
  rw [on_bind, on_bind, h s scene]
  cases run : q.on s with
  | mk r t =>
    cases r with
    | error e => rfl
    | ok a =>
      rw [run] at left
      refine next a t ?_
      rw [show t = s.drop m from left]
      exact (scene.drop m).mono (Nat.sub_le k m)

/-- The values of parses that are the same may be put to use. -/
theorem SameOn.map (h : SameOn free k p q) (g : α → β) :
    SameOn free k (p.bind fun a => done (g a)) (q.bind fun a => done (g a)) :=
  h.bind fun _ => .refl _

/-- Behind one and the same parse. -/
theorem sameOn_bind (p : Parse α) (next : ∀ a, SameOn free k (f a) (g a)) :
    SameOn free k (p.bind f) (p.bind g) :=
  (SameOn.refl p).bind next

theorem sameOn_look_bind {f g : Token → Parse β}
    (next : ∀ s, Scene free k s → (f s.head).on s = (g s.head).on s) :
    SameOn free k (look.bind f) (look.bind g) := next

/-- Behind a token that is taken and stands before the end, fewer are left. -/
theorem on_next_bind_congr {f g : Token → Parse β} {s : Stream' Token} (scene : Scene free k s)
    (ne : s.head.kind ≠ .eof) (next : ∀ j < k, SameOn free j (f s.head) (g s.head)) :
    (Parse.next.bind f).on s = (Parse.next.bind g).on s := by
  obtain ⟨j, lt, behind⟩ := scene.exists_lt_drop ne Nat.zero_lt_one
  exact next j lt s.tail behind

/-- Loops are the same if their rounds are and take a token to go on. No bound above the
number of tokens is reached. -/
theorem sameOn_loop {round round' : σ → Parse (σ ⊕ β)}
    (moves : ∀ x s y t, (round x).on s = (.ok (.inl y), t) →
      s.head.kind ≠ .eof ∧ 0 < (round x).taken s)
    (same : ∀ x, SameOn free k (round x) (round' x)) (lt : k < n) (lt' : k < n') (x : σ) :
    SameOn free k (loop round n x) (loop round' n' x) := by
  induction n generalizing k n' x with
  | zero => exact absurd lt (Nat.not_lt_zero k)
  | succ n ih =>
    obtain ⟨n', rfl⟩ := Nat.exists_eq_add_one_of_ne_zero (Nat.ne_zero_of_lt lt')
    intro s scene
    rw [loop, loop, bind_eq, bind_eq, on_bind, on_bind, ← same x s scene]
    cases run : (round x).on s with
    | mk r t =>
      cases r with
      | error e => rfl
      | ok o =>
        cases o with
        | inr b => rfl
        | inl y =>
          obtain ⟨ne, moved⟩ := moves x s y t run
          obtain ⟨j, less, behind⟩ := scene.exists_lt_drop ne moved
          rw [← left_eq_drop_taken, run] at behind
          exact ih (fun x => (same x).mono (Nat.le_of_lt less)) (by omega) (by omega) y t behind

/-- What advances stands before the end and takes a token. -/
theorem Advances.moves {round : σ → Parse (σ ⊕ β)}
    (h : ∀ x, (round x).Advances fun o => o.isLeft = true) (x : σ) (s : Stream' Token) (y : σ)
    (t : Stream' Token) (ok : (round x).on s = (.ok (.inl y), t)) :
    s.head.kind ≠ .eof ∧ 0 < (round x).taken s := by
  obtain ⟨moved, inner⟩ := h x s _ t ok rfl
  exact ⟨inner 0 moved, moved⟩

theorem sameOn_gather {p q : Parse (Option α)} (advances : p.Advances fun o => o.isSome = true)
    (same : SameOn free k p q) (lt : k < n) (lt' : k < n') (gathered : List α) :
    SameOn free k (gather p n gathered) (gather q n' gathered) := by
  rw [gather_eq_loop, gather_eq_loop]
  refine sameOn_loop (Advances.moves (advances_gatherRound advances)) (fun x => ?_) lt lt' gathered
  refine same.bind fun o => ?_
  exact .refl _

end Parse

end TagLang
