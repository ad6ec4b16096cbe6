import TagLang.Parser
import TagLang.Proofs.Parse.Contract

/-!
# The tokens a stream will give

`upcoming` is the infinite sequence of tokens that taking one after another
gives. A stream whose ring is in order (`Holds`) answers every request of a parse
as that sequence does, and is in order again afterwards: `run_eq_on` lets all
further reasoning forget the ring.
-/

namespace TagLang

open Stream'

namespace TaggedLexer

/-- The tokens that are read from now on. -/
def upcoming (l : TaggedLexer) : Stream' Token :=
  corec (fun l => l.readSignificant.1) (fun l => l.readSignificant.2) l

theorem upcoming_eq (l : TaggedLexer) :
    l.upcoming = l.readSignificant.1 :: l.readSignificant.2.upcoming :=
  corec_eq _ _ _

end TaggedLexer

namespace TokenStream

/-- The tokens that are taken from now on. -/
def upcoming (s : TokenStream) : Stream' Token := corec (fun s => s.take.1) (fun s => s.take.2) s

theorem upcoming_eq (s : TokenStream) : s.upcoming = s.take.1 :: s.take.2.upcoming :=
  corec_eq _ _ _

/-- The ring holds exactly these tokens, the next one first. No lookahead ever needs
more than two. -/
inductive Holds (s : TokenStream) : List Token → Prop
  | nothing (last : s.last = s.next) : Holds s []
  | one {a : Token} (last : s.last = s.next + 1) (first : s.held? 0 = some a) : Holds s [a]
  | two {a b : Token} (last : s.last = s.next + 2) (first : s.held? 0 = some a)
      (second : s.held? 1 = some b) : Holds s [a, b]

/-- The ring is in order. -/
def InOrder (s : TokenStream) : Prop := ∃ ts, s.Holds ts

private theorem add_one_ne (i : Fin 5) : i + 1 ≠ i := by
  revert i
  decide

private theorem add_two_ne (i : Fin 5) : i + 2 ≠ i := by
  revert i
  decide

private theorem add_one_add_one (i : Fin 5) : i + 1 + 1 = i + 2 := by
  revert i
  decide

private theorem add_one_sub (i : Fin 5) : (i + 1 - i).val = 1 := by
  revert i
  decide

private theorem add_two_sub (i : Fin 5) : (i + 2 - i).val = 2 := by
  revert i
  decide

variable {s : TokenStream} {ts : List Token}

theorem Holds.buffered_eq (h : s.Holds ts) : s.buffered = ts.length := by
  cases h with
  | nothing last => simp [buffered, last]
  | one last => rw [buffered, last, add_one_sub]; rfl
  | two last => rw [buffered, last, add_two_sub]; rfl

theorem Holds.isEmpty_eq (h : s.Holds ts) : s.isEmpty = ts.isEmpty := by
  cases h with
  | nothing last => simp [isEmpty, last]
  | one last =>
      rw [isEmpty, last]
      exact beq_false_of_ne (add_one_ne s.next).symm
  | two last =>
      rw [isEmpty, last]
      exact beq_false_of_ne (add_two_ne s.next).symm

theorem Holds.register (h : s.Holds ts) (tag : String) : (s.register tag).Holds ts := by
  cases h with
  | nothing last => exact .nothing last
  | one last first => exact .one last first
  | two last first second => exact .two last first second

/-- A token that is read joins the ring behind the others. -/
theorem Holds.push (h : s.Holds ts) (room : ts.length ≤ 1) :
    s.push.Holds (ts ++ [s.lexer.readSignificant.1]) := by
  cases h with
  | nothing last =>
      refine .one ?_ ?_
      · simp [TokenStream.push, last]
      · simp [TokenStream.push, held?, last]
  | one last first =>
      have apart : s.next + 1 ≠ s.next := add_one_ne s.next
      refine .two ?_ ?_ ?_
      · simp [TokenStream.push, last, add_one_add_one]
      · have free : (s.next + 1).val ≠ s.next.val := fun h => apart (Fin.ext h)
        simpa [TokenStream.push, held?, last, Vector.getElem_set_ne, free] using first
      · simp [TokenStream.push, held?, last]
  | two => simp at room

theorem Holds.slot_zero {a : Token} (h : s.Holds (a :: ts)) : s.slot 0 = a := by
  cases h with
  | one last first => simp [slot, first]
  | two last first second => simp [slot, first]

theorem Holds.slot_one {a b : Token} (h : s.Holds (a :: b :: ts)) : s.slot 1 = b := by
  cases h with
  | two last first second => simp [slot, second]

/-- Whether a first token has to be read. -/
theorem Holds.look_of_nil (h : s.Holds []) : s.look = (s.lexer.readSignificant.1, s.push) := by
  have filled : s.fill 1 = s.push := by
    rw [fill, h.buffered_eq]
    rfl
  rw [TokenStream.look, filled]
  exact Prod.ext (h.push (Nat.zero_le _)).slot_zero rfl

theorem Holds.look_of_cons {a : Token} (h : s.Holds (a :: ts)) : s.look = (a, s) := by
  have filled : s.fill 1 = s := by
    rw [fill, h.buffered_eq]
    simp [pushes]
  rw [TokenStream.look, filled]
  exact Prod.ext h.slot_zero rfl

/-- Whether two tokens have to be read, one, or none. -/
theorem Holds.lookSecond_of_nil (h : s.Holds []) :
    s.lookSecond = (s.push.lexer.readSignificant.1, s.push.push) := by
  have filled : s.fill 2 = s.push.push := by
    rw [fill, h.buffered_eq]
    rfl
  rw [TokenStream.lookSecond, filled]
  exact Prod.ext ((h.push (Nat.zero_le _)).push (by simp)).slot_one rfl

theorem Holds.lookSecond_of_singleton {a : Token} (h : s.Holds [a]) :
    s.lookSecond = (s.lexer.readSignificant.1, s.push) := by
  have filled : s.fill 2 = s.push := by
    rw [fill, h.buffered_eq]
    rfl
  rw [TokenStream.lookSecond, filled]
  exact Prod.ext (h.push (by simp)).slot_one rfl

theorem Holds.lookSecond_of_cons_cons {a b : Token} (h : s.Holds (a :: b :: ts)) :
    s.lookSecond = (b, s) := by
  have filled : s.fill 2 = s := by
    rw [fill, h.buffered_eq]
    simp [pushes]
  rw [TokenStream.lookSecond, filled]
  exact Prod.ext h.slot_one rfl

/-- Whether the token taken has to be read. -/
theorem Holds.take_of_nil (h : s.Holds []) :
    s.take = (s.lexer.readSignificant.1, { s with lexer := s.lexer.readSignificant.2 }) := by
  rw [TokenStream.take, h.isEmpty_eq]
  rfl

theorem Holds.take_of_cons {a : Token} (h : s.Holds (a :: ts)) : s.take = (a, s.vacate) := by
  have first : s.held? 0 = some a := by
    cases h <;> assumption
  rw [TokenStream.take, h.isEmpty_eq]
  simp [first]

theorem Holds.vacate {a : Token} (h : s.Holds (a :: ts)) : s.vacate.Holds ts := by
  cases h with
  | one last first => exact .nothing last
  | two last first second =>
      refine .one ?_ ?_
      · simp [TokenStream.vacate, last, add_one_add_one]
      · have free : s.next.val ≠ (s.next + 1).val := fun h => add_one_ne s.next (Fin.ext h.symm)
        simpa [TokenStream.vacate, held?, Vector.getElem_set_ne, free] using second

/-- Reading a token into the ring changes nothing about what comes. -/
theorem append_push (ts : List Token) :
    ts ++ [s.lexer.readSignificant.1] ++ₛ s.push.lexer.upcoming = ts ++ₛ s.lexer.upcoming := by
  rw [append_append_stream, s.lexer.upcoming_eq]
  rfl

theorem Holds.look (h : s.Holds ts) :
    ∃ us, s.look.2.Holds us ∧ us ++ₛ s.look.2.lexer.upcoming = ts ++ₛ s.lexer.upcoming ∧
      s.look.1 = (ts ++ₛ s.lexer.upcoming).head := by
  cases ts with
  | nil =>
      rw [h.look_of_nil]
      refine ⟨_, h.push (Nat.zero_le _), append_push [], ?_⟩
      rw [nil_append_stream, s.lexer.upcoming_eq, head_cons]
  | cons a ts =>
      rw [h.look_of_cons]
      exact ⟨_, h, rfl, rfl⟩

theorem Holds.lookSecond (h : s.Holds ts) :
    ∃ us, s.lookSecond.2.Holds us ∧
      us ++ₛ s.lookSecond.2.lexer.upcoming = ts ++ₛ s.lexer.upcoming ∧
      s.lookSecond.1 = (ts ++ₛ s.lexer.upcoming).tail.head := by
  cases ts with
  | nil =>
      rw [h.lookSecond_of_nil]
      refine ⟨_, (h.push (Nat.zero_le _)).push (by simp),
        (append_push _).trans (append_push []), ?_⟩
      rw [nil_append_stream, s.lexer.upcoming_eq, tail_cons, TaggedLexer.upcoming_eq, head_cons]
      rfl
  | cons a ts =>
      cases ts with
      | nil =>
          rw [h.lookSecond_of_singleton]
          refine ⟨_, h.push (by simp), append_push [a], ?_⟩
          rw [cons_append_stream, tail_cons, nil_append_stream, s.lexer.upcoming_eq, head_cons]
      | cons b ts =>
          rw [h.lookSecond_of_cons_cons]
          exact ⟨_, h, rfl, rfl⟩

theorem Holds.take (h : s.Holds ts) :
    ∃ us, s.take.2.Holds us ∧
      us ++ₛ s.take.2.lexer.upcoming = (ts ++ₛ s.lexer.upcoming).tail ∧
      s.take.1 = (ts ++ₛ s.lexer.upcoming).head := by
  cases ts with
  | nil =>
      have last : s.last = s.next := by
        cases h
        assumption
      rw [h.take_of_nil]
      refine ⟨[], .nothing last, ?_, ?_⟩
      · rw [nil_append_stream, nil_append_stream, s.lexer.upcoming_eq, tail_cons]
      · rw [nil_append_stream, s.lexer.upcoming_eq, head_cons]
  | cons a ts =>
      rw [h.take_of_cons]
      exact ⟨_, h.vacate, rfl, rfl⟩

/-- What is taken from now on is what the ring holds and then what the lexer reads. -/
theorem Holds.upcoming_eq (h : s.Holds ts) : s.upcoming = ts ++ₛ s.lexer.upcoming := by
  refine Stream'.ext fun n => ?_
  induction n generalizing s ts with
  | zero =>
      obtain ⟨us, -, -, first⟩ := h.take
      rw [TokenStream.upcoming_eq]
      exact first
  | succ n ih =>
      obtain ⟨us, held, rest, -⟩ := h.take
      rw [TokenStream.upcoming_eq, get_succ_cons, ih held, rest, get_tail]

theorem inOrder_ofLexer (l : TaggedLexer) : (ofLexer l).InOrder := ⟨[], .nothing rfl⟩

theorem upcoming_ofLexer (l : TaggedLexer) : (ofLexer l).upcoming = l.upcoming :=
  (Holds.nothing rfl : (ofLexer l).Holds []).upcoming_eq

theorem InOrder.upcoming_look (h : s.InOrder) :
    s.look.2.InOrder ∧ s.look.2.upcoming = s.upcoming ∧ s.look.1 = s.upcoming.head := by
  obtain ⟨ts, held⟩ := h
  obtain ⟨us, holds, rest, first⟩ := held.look
  refine ⟨⟨us, holds⟩, ?_, ?_⟩
  · rw [holds.upcoming_eq, rest, held.upcoming_eq]
  · rw [first, held.upcoming_eq]

theorem InOrder.upcoming_lookSecond (h : s.InOrder) :
    s.lookSecond.2.InOrder ∧ s.lookSecond.2.upcoming = s.upcoming ∧
      s.lookSecond.1 = s.upcoming.tail.head := by
  obtain ⟨ts, held⟩ := h
  obtain ⟨us, holds, rest, first⟩ := held.lookSecond
  refine ⟨⟨us, holds⟩, ?_, ?_⟩
  · rw [holds.upcoming_eq, rest, held.upcoming_eq]
  · rw [first, held.upcoming_eq]

theorem InOrder.take (h : s.InOrder) : s.take.2.InOrder := by
  obtain ⟨ts, held⟩ := h
  obtain ⟨us, holds, -, -⟩ := held.take
  exact ⟨us, holds⟩

/-- A stream whose ring is in order answers a parse as the sequence of its upcoming
tokens does. -/
theorem run_eq_on {α : Type} (p : Parse α) (h : s.InOrder) :
    (s.run p).1 = (p.on s.upcoming).1 ∧ (s.run p).2.upcoming = (p.on s.upcoming).2 ∧
      (s.run p).2.InOrder := by
  induction p generalizing s with
  | done a => exact ⟨rfl, rfl, h⟩
  | fail e => exact ⟨rfl, rfl, h⟩
  | peek k ih =>
      obtain ⟨held, same, first⟩ := h.upcoming_look
      simp only [run, Parse.on]
      rw [first, ← same]
      exact ih _ held
  | peekSecond k ih =>
      obtain ⟨held, same, first⟩ := h.upcoming_lookSecond
      simp only [run, Parse.on]
      rw [first, ← same]
      exact ih _ held
  | take k ih =>
      have unfolded := s.upcoming_eq
      simp only [run, Parse.on, unfolded, head_cons, tail_cons]
      exact ih _ h.take

end TokenStream

namespace Parser

variable {α κ : Type} {p : Parser κ}

theorem ask_eq_on (parse : Parse α) (h : p.stream.InOrder) :
    (p.ask parse).1 = (parse.on p.stream.upcoming).1 ∧
      (p.ask parse).2.stream.upcoming = (parse.on p.stream.upcoming).2 ∧
      (p.ask parse).2.stream.InOrder :=
  TokenStream.run_eq_on parse h

/-- What a parse ensures of the upcoming tokens holds of the parser's answer. -/
theorem ask_of_ensures {parse : Parse α} {post : α → Stream' Token → Prop} {a : α}
    (h : p.stream.InOrder) (ensures : parse.Ensures p.stream.upcoming post)
    (ok : (p.ask parse).1 = .ok a) : post a (p.ask parse).2.stream.upcoming := by
  obtain ⟨value, left, -⟩ := ask_eq_on parse h
  rw [left]
  exact ensures a _ (Prod.ext (value.symm.trans ok) rfl)

/-- What a parse yields from the upcoming tokens is the parser's answer. -/
theorem ask_of_yields {parse : Parse α} {post : α → Stream' Token → Prop}
    (h : p.stream.InOrder) (yields : parse.Yields p.stream.upcoming post) :
    ∃ a, (p.ask parse).1 = .ok a ∧ post a (p.ask parse).2.stream.upcoming := by
  obtain ⟨value, left, -⟩ := ask_eq_on parse h
  obtain ⟨a, t, ht, holds⟩ := yields
  refine ⟨a, ?_, ?_⟩
  · rw [value, ht]
  · rw [left, ht]
    exact holds

end Parser

end TagLang
