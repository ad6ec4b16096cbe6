import TagLang.Proofs.Parser.Unread
import TagLang.Proofs.Unit.Same

/-!
# A parser always makes progress

The tokens that are left before the end of the source are a measure that everything a parser
does again and again lowers: elements and expressions that have to be there, the rounds of all
loops, and the handlers that a level dispatches to. So the bounds that the grammar puts on its
loops and on its nesting are never reached, also where a source ends in the middle of a
construct and its end is given for ever.
-/

namespace TagLang

open Parse Stream'

namespace Parser

variable {α : Type} {source : String} {file : Option String} {options : LexerOptions}
  {p q : Parser}

/-- Between the two parsers, a token is taken at least, and no end of the source. -/
def Precedes (p q : Parser) : Prop :=
  ∃ taken : List Token, taken ≠ [] ∧ (∀ t ∈ taken, t.kind ≠ .eof) ∧
    p.stream.upcoming = taken ++ₛ q.stream.upcoming

/-- A parser that answers a parse that advances gets ahead. -/
theorem precedes_ask {parse : Parse α} {a : α} (inOrder : p.stream.InOrder)
    (advances : parse.Advances fun _ => True) (ok : (p.ask parse).1 = .ok a) :
    p.Precedes (p.ask parse).2 := by
  obtain ⟨outcome, left, -⟩ := ask_eq_on parse inOrder
  have come : (parse.on p.stream.upcoming).1 = .ok a := outcome.symm.trans ok
  obtain ⟨moved, inner⟩ := advances p.stream.upcoming a _ (Prod.ext come rfl) trivial
  refine ⟨p.stream.upcoming.take (parse.taken p.stream.upcoming), ?_, ?_, ?_⟩
  · rw [Ne, ← List.length_eq_zero_iff, length_take]
    omega
  · intro t mem
    obtain ⟨j, lt, rfl⟩ := List.getElem_of_mem mem
    rw [take_get]
    exact inner j (by rwa [length_take] at lt)
  · rw [left, left_eq_drop_taken, append_take_drop]

/-- With more levels than tokens are left, the bounds on loops and on nesting do not matter. -/
theorem unit_eq_nested {k n d : Nat} (inOrder : p.stream.InOrder)
    (standard : p.registry = .standard) (unread : Unread k p.stream.upcoming)
    (enough : k + 2 ≤ p.depth) (lt : k < n) (deep : k ≤ d) (h : Grammar.Handlers) :
    p.unit.1 =
        ((Grammar.unitOf (Grammar.nested n (h.level n) d) n).on p.stream.upcoming).1 ∧
      p.script.1 =
        ((Grammar.scriptOf (Grammar.nested n (h.level n) d) n).on p.stream.upcoming).1 := by
  have scene : Scene (fun _ => True) k p.stream.upcoming :=
    ⟨fun _ => trivial, k, Nat.le_refl k, unread⟩
  have same : (Grammar.level .standard p.depth).SameOn (fun _ => True) k
      (Grammar.nested n (h.level n) d) :=
    Grammar.sameOn_nested h (by omega) lt deep
  have unit : Parse.SameOn (fun _ => True) k (Grammar.compilationUnit .standard p.depth)
      (Grammar.unitOf (Grammar.nested n (h.level n) d) n) :=
    Grammar.sameOn_unitOf same (by omega) lt
  have script : Parse.SameOn (fun _ => True) k (Grammar.scriptUnit .standard p.depth)
      (Grammar.scriptOf (Grammar.nested n (h.level n) d) n) :=
    Grammar.sameOn_scriptOf (Grammar.advancing_level _) same (by omega) lt
  rw [← unit _ scene, ← script _ scene, ← standard]
  exact ⟨(ask_eq_on _ inOrder).1, (ask_eq_on _ inOrder).1⟩

/-- What it means for a parser with `k` tokens left before the end of its source to make
progress. -/
structure MakesProgress (p : Parser) (k : Nat) : Prop where
  /-- An element takes a token at least, and not the end. -/
  element : ∀ e, (p.ask p.level.element).1 = .ok e → p.Precedes (p.ask p.level.element).2
  /-- So does an expression that has to be there, which an argument is. -/
  required : ∀ power e, (p.ask (p.level.required power)).1 = .ok e →
    p.Precedes (p.ask (p.level.required power)).2
  /-- So does a parameter. -/
  parameter : ∀ n x, (p.ask (Grammar.parameter n)).1 = .ok x →
    p.Precedes (p.ask (Grammar.parameter n)).2
  /-- So does every round, of any loop over any level, that the loop goes on after. -/
  rounds : ∀ {σ β : Type} (l : Grammar.Loop σ β) (m n : Nat) (x : σ),
    (l.round n (Grammar.level .standard m) x).Advances fun o => o.isLeft = true
  /-- A loop that nothing bounds comes to its end after no more rounds than tokens are left, and
  the loop of the grammar comes to the same with any bound above its rounds. -/
  loops : ∀ {σ β : Type} (l : Grammar.Loop σ β) (m n : Nat) (x : σ) (j : Nat) (s : Stream' Token),
    Unread j s → ∃ rounds ≤ j, ∃ result,
      Repeats (l.round n (Grammar.level .standard m)) x s rounds result ∧
      ∀ bound > rounds, (l.bounded n (Grammar.level .standard m) bound x).on s = result
  /-- What an element or an expression does with `j` tokens left is what it does with any other
  handlers that do the same with fewer left: whatever is dispatched to, behind a tag, behind the
  token that begins an expression or behind an operator, runs with fewer. -/
  handlers : ∀ (j n : Nat) (s : Stream' Token), Unread j s → j < n → ∀ h : Grammar.Handlers,
    (Grammar.Handlers.above n (Grammar.level .standard n)).AgreeBelow j h →
    (Grammar.level .standard (n + 1)).element.on s = (h.level n).element.on s ∧
    ∀ power, ((Grammar.level .standard (n + 1)).expr power).on s = ((h.level n).expr power).on s
  /-- Units and scripts are what they are with the handlers of the language nested `k` deep and
  loops of at most `k` rounds before the last one: neither what is handled below that depth
  matters, nor any looser bound. -/
  nesting : ∀ n > k, ∀ d ≥ k, ∀ h : Grammar.Handlers,
    p.unit.1 = ((Grammar.unitOf (Grammar.nested n (h.level n) d) n).on p.stream.upcoming).1 ∧
    p.script.1 = ((Grammar.scriptOf (Grammar.nested n (h.level n) d) n).on p.stream.upcoming).1

/-- Every parser of a source makes progress, whatever it was asked before: all that it does again
and again lowers the number of tokens left before the end of the source. So units and scripts
are parsed without reaching a bound, in every state and for every source. -/
theorem Reached.exists_makesProgress (reached : p.Reached source file options) :
    ∃ k, Unread k p.stream.upcoming ∧ p.MakesProgress k := by
  obtain ⟨k, unread, enough⟩ := reached.exists_unread
  have inOrder := reached.inOrder
  have standard := reached.registry_eq
  have level : p.level.Advancing := by
    rw [Parser.level, standard]
    exact Grammar.advancing_level _
  refine ⟨k, unread, ?_⟩
  constructor
  case element => exact fun e => precedes_ask inOrder level.advances_element
  case required => exact fun power e => precedes_ask inOrder (level.advances_required power)
  case parameter =>
    exact fun n x => precedes_ask inOrder
      (Grammar.moves_parameter.advances_standard fun _ => Grammar.orderly_parameter)
  case rounds => exact fun l m n x => l.advances_round (Grammar.advancing_level m) x
  case loops =>
    exact fun l m n x j s left => l.exists_repeats_round (Grammar.advancing_level m) left x
  case handlers =>
    intro j n s left lt h agree
    have scene : Scene (fun _ => True) j s := ⟨fun _ => trivial, j, Nat.le_refl j, left⟩
    have same : (Grammar.level .standard (n + 1)).SameOn (fun _ => True) j (h.level n) := by
      rw [Grammar.Handlers.level_succ]
      exact agree.sameOn lt lt
    exact ⟨same.element s scene, fun power => same.expr power s scene⟩
  case nesting =>
    exact fun n lt d deep h => unit_eq_nested inOrder standard unread enough lt deep h

/-- A parser that has failed on a use, in front of a branch that is not finished. -/
theorem Reached.exists_makesProgress_unfinished :
    ∃ p k, ((ofSource "use if (a" none .standard).ask (Grammar.uses 1)).2 = p ∧
      Unread k p.stream.upcoming ∧ ∀ h : Grammar.Handlers,
        p.script.1 = ((Grammar.scriptOf (Grammar.nested (k + 1) (h.level (k + 1)) k) (k + 1)).on
          p.stream.upcoming).1 := by
  obtain ⟨k, unread, progress⟩ := exists_makesProgress
    (.ask (Grammar.uses 1) (.start : Reached "use if (a" none .standard _))
  exact ⟨_, k, rfl, unread, fun h => (progress.nesting (k + 1) k.lt_add_one k (Nat.le_refl k) h).2⟩

end Parser

end TagLang
