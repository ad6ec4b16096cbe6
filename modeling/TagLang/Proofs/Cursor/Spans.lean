import Mathlib.Logic.Function.Iterate
import TagLang.Proofs.Lexer.Positions

/-!
# The spans of a cursor

A cursor may be asked and moved in any order. Each operation reads some of the unread
characters, none among them, or commits the pending span (`reads_or_commits`). So whatever was
asked before, the spans committed so far, the pending span and the unread characters are the
source, and the places at both ends of the pending span are those that the text in front of
them comes to.
-/

namespace TagLang

namespace Cursor

/-- What can be asked of a cursor. -/
inductive Operation
  /-- The `k`-th unread character, counted from one. -/
  | look (k : Nat)
  /-- Whether the `k`-th unread character is `ch`. -/
  | has (k : Nat) (ch : Char)
  /-- Whether the unread characters begin with `text`. -/
  | hasText (text : List Char)
  /-- Whether every character has been read. -/
  | atEnd
  /-- Read one character. -/
  | scan
  /-- Read one character if it satisfies `p`, and say whether it did. -/
  | advanceIf (p : Char → Bool)
  /-- Read one character if it is `ch`, and say whether it was. -/
  | advanceOver (ch : Char)
  /-- Read characters as long as they satisfy `p`. -/
  | advanceWhile (p : Char → Bool)
  /-- Move over `n` characters by their number alone. -/
  | advanceSameLine (n : Nat)
  /-- Begin the next span where the pending one ends. -/
  | commit

/-- What an operation is answered with. -/
inductive Reply
  | char (ch : Option Char)
  | flag (b : Bool)
  | done
deriving DecidableEq, Repr

/-- Perform one operation. -/
def perform (c : Cursor) : Operation → Reply × Cursor
  | .look k => (.char (c.look k), c)
  | .has k ch => (.flag (c.has k ch), c)
  | .hasText text => (.flag (c.hasText text), c)
  | .atEnd => (.flag c.atEnd, c)
  | .scan => (.char c.scan.1, c.scan.2)
  | .advanceIf p => (.flag (c.advanceIf p).1, (c.advanceIf p).2)
  | .advanceOver ch => (.flag (c.advanceOver ch).1, (c.advanceOver ch).2)
  | .advanceWhile p => (.done, c.advanceWhile p)
  | .advanceSameLine n => (.done, c.advanceSameLine n)
  | .commit => (.done, c.commit)

namespace Operation

/-- Only characters that are no line feeds are moved over by their number alone. There may be
fewer of them than asked for. -/
def Stays (c : Cursor) : Operation → Prop
  | .advanceSameLine n => '\n' ∉ c.rest.take n
  | _ => True

/-- The spans that an operation commits. -/
def commits (c : Cursor) : Operation → List (List Char)
  | .commit => [c.span]
  | _ => []

end Operation

/-- A cursor over the source, moved by any operations in any order, and the spans that were
committed on the way, the first one first. -/
inductive Reached (source : List Char) : List (List Char) → Cursor → Prop
  | start : Reached source [] (ofText source)
  | perform {spans : List (List Char)} {c : Cursor} (h : Reached source spans c) (o : Operation)
    (stays : o.Stays c) : Reached source (spans ++ o.commits c) (c.perform o).2

variable {source : List Char} {spans : List (List Char)} {c : Cursor} {o : Operation}

theorem skip_eq_iterate_scan (n : Nat) (c : Cursor) : c.skip n = (fun c => c.scan.2)^[n] c := by
  induction n generalizing c with
  | zero => rfl
  | succ n ih => rw [skip, ih, Function.iterate_succ_apply]

theorem fst_scan (c : Cursor) : c.scan.1 = c.rest.head? := by
  unfold scan
  split <;> simp_all

/-- To look ahead is to see what reading would come to. -/
theorem look_succ (k : Nat) (c : Cursor) : c.look (k + 1) = (c.skip k).scan.1 := by
  rw [fst_scan, rest_skip, List.head?_drop]
  rfl

theorem exists_skip_advanceIf (p : Char → Bool) (c : Cursor) :
    ∃ n, (c.advanceIf p).2 = c.skip n := by
  unfold advanceIf
  split
  · split
    · exact ⟨1, rfl⟩
    · exact ⟨0, rfl⟩
  · exact ⟨0, rfl⟩

/-- An operation that does not commit the pending span reads some characters, or none. -/
theorem reads_or_commits (stays : o.Stays c) :
    o = .commit ∨ o.commits c = [] ∧ ∃ n, (c.perform o).2 = c.skip n := by
  cases o with
  | look k => exact .inr ⟨rfl, 0, rfl⟩
  | has k ch => exact .inr ⟨rfl, 0, rfl⟩
  | hasText text => exact .inr ⟨rfl, 0, rfl⟩
  | atEnd => exact .inr ⟨rfl, 0, rfl⟩
  | scan => exact .inr ⟨rfl, 1, rfl⟩
  | advanceIf p => exact .inr ⟨rfl, exists_skip_advanceIf p c⟩
  | advanceOver ch => exact .inr ⟨rfl, exists_skip_advanceIf _ c⟩
  | advanceWhile p => exact .inr ⟨rfl, _, rfl⟩
  | advanceSameLine n => exact .inr ⟨rfl, n, advanceSameLine_eq_skip stays⟩
  | commit => exact .inl rfl

/-- The spans behind the cursor and what it holds are the source, and it keeps the places at
both ends of the pending span. -/
structure Tracks (source : List Char) (spans : List (List Char)) (c : Cursor) : Prop where
  text : spans.flatten ++ c.span ++ c.rest = source
  start : c.start = Place.start.after spans.flatten
  stop : c.stop = Place.start.after (spans.flatten ++ c.span)

namespace Tracks

theorem ofText (source : List Char) : Tracks source [] (ofText source) := ⟨rfl, rfl, rfl⟩

theorem skip (h : Tracks source spans c) (n : Nat) : Tracks source spans (c.skip n) where
  text := by
    rw [span_skip, rest_skip, ← h.text]
    simp
  start := by rw [start_skip, h.start]
  stop := by rw [stop_skip, span_skip, h.stop, ← Place.after_append, List.append_assoc]

theorem commit (h : Tracks source spans c) : Tracks source (spans ++ [c.span]) c.commit where
  text := by
    rw [rest_commit, span_commit, ← h.text]
    simp
  start := h.stop.trans (by simp)
  stop := h.stop.trans (by simp)

/-- Every operation is kept track of. -/
theorem perform (h : Tracks source spans c) (stays : o.Stays c) :
    Tracks source (spans ++ o.commits c) (c.perform o).2 := by
  obtain rfl | ⟨nothing, n, reads⟩ := reads_or_commits stays
  · exact h.commit
  · rw [nothing, List.append_nil, reads]
    exact h.skip n

end Tracks

theorem Reached.tracks (h : Reached source spans c) : Tracks source spans c := by
  induction h with
  | start => exact Tracks.ofText source
  | perform _ o stays ih => exact ih.perform stays

/-- Whatever a cursor over a source was asked before, in any order: the spans committed so far,
the pending span and the unread characters are the source; the places at the ends of the pending
span count the line feeds in front of them and the characters since the last one; to move over
characters by their number alone, as far as there are any, is to read them one by one; and to
look at the `k`-th character ahead, counted from one, gives what reading would come to at the
`k`-th time, and changes nothing. -/
theorem Reached.bookkeeping (h : Reached source spans c) :
    spans.flatten ++ c.span ++ c.rest = source ∧
    c.start = ⟨1 + spans.flatten.count '\n',
      1 + (spans.flatten.reverse.takeWhile (· ≠ '\n')).length⟩ ∧
    c.stop = ⟨1 + (spans.flatten ++ c.span).count '\n',
      1 + ((spans.flatten ++ c.span).reverse.takeWhile (· ≠ '\n')).length⟩ ∧
    (∀ n, (Operation.advanceSameLine n).Stays c →
      c.advanceSameLine n = (fun c => c.scan.2)^[n] c) ∧
    ∀ k, c.perform (.look (k + 1)) = (.char ((fun c => c.scan.2)^[k] c).scan.1, c) := by
  have tracks := h.tracks
  refine ⟨tracks.text, ?_, ?_, fun n stays => ?_, fun k => ?_⟩
  · rw [tracks.start, Place.after_start]
  · rw [tracks.stop, Place.after_start]
  · exact (advanceSameLine_eq_skip stays).trans (skip_eq_iterate_scan n c)
  · rw [Cursor.perform, look_succ, skip_eq_iterate_scan]

/-- Behind a span that ends with a line feed, a move beyond the end of the source. -/
theorem Reached.bookkeeping_beyond :
    let c := ((((ofText ['é', '\n', 'ü', 'x']).perform (.advanceWhile (· ≠ 'ü'))).2.perform
      .commit).2.perform (.advanceSameLine 3)).2
    Reached ['é', '\n', 'ü', 'x'] [['é', '\n']] c ∧ c.span = ['ü', 'x'] ∧ c.start = ⟨2, 1⟩ ∧
      c.stop = ⟨2, 3⟩ := by
  intro c
  have new : Reached ['é', '\n', 'ü', 'x'] [] (ofText ['é', '\n', 'ü', 'x']) := .start
  have committed := (new.perform (.advanceWhile (· ≠ 'ü')) trivial).perform .commit trivial
  have stays : '\n' ∉ ['ü', 'x'].take 3 := by decide
  have reached : Reached ['é', '\n', 'ü', 'x'] [['é', '\n']] c :=
    committed.perform (.advanceSameLine 3) stays
  obtain ⟨-, start, stop, -⟩ := reached.bookkeeping
  exact ⟨reached, rfl, start.trans (by decide), stop.trans (by decide)⟩

end Cursor

end TagLang
