import TagLang.Proofs.Element.Advances
import TagLang.Proofs.Unit.Orderly

/-!
# The loops of the grammar

Every level of nesting advances. The loops of the grammar are listed with what one round of
each does over the level below, and with the loop as the grammar bounds it: each is the bounded
loop of its rounds, and its rounds advance.
-/

namespace TagLang

open Parse Stream'

namespace Grammar

variable {σ β : Type} {below : Level} {n : Nat}

theorem moves_use : (use n).Moves fun o => o.isSome = true := by
  refine moves_bind fun next => ?_
  split
  · exact moves_next.bind
  · exact moves_done nofun

/-- Each use takes the word that introduces it and a path. -/
theorem advances_use : (use n).Advances fun o => o.isSome = true :=
  moves_use.advances_standard fun _ => orderly_use

theorem moves_furtherTopLevel (h : below.Advancing) :
    (furtherTopLevel below).Moves fun o => o.isSome = true := by
  refine moves_bind fun ends => ?_
  split
  · exact moves_done nofun
  · exact h.element.bind

/-- Each element of a script takes a token. -/
theorem advances_furtherTopLevel (h : below.Advancing) :
    (furtherTopLevel below).Advances fun o => o.isSome = true :=
  (moves_furtherTopLevel h).advances_standard fun _ => orderly_furtherTopLevel h.orderly

/-- Every level of nesting advances. -/
theorem advancing_level (n : Nat) : (level .standard n).Advancing := by
  refine ⟨orderly_level n, ?_, ?_⟩
  · cases n with
    | zero => exact moves_refuse
    | succ n => exact moves_elementBy _ .standard n
  · intro power
    cases n with
    | zero => exact moves_bind fun _ => moves_refuse.bind
    | succ n => exact moves_required .standard n _ _ power

/-- The loops of the grammar. A round goes on with a state of the first type, and the loop ends
with a value of the second one. -/
inductive Loop : Type → Type → Type 1
  | leading : Loop (List Annotation) (List Annotation)
  | trailing : Loop (List Annotation) (List Annotation)
  | path : Loop (List Token) (List Token)
  | parameters : Loop (List Parameter) (List Parameter)
  | arguments : Loop (List Expr) (List Expr)
  | operators (power : BindingPower) : Loop Expr Expr
  | elements : Loop (List Element) (List Element)
  | branches : Loop (List Guarded) (List Guarded × Option (List Element))
  | cases : Loop (List Guarded) (List Guarded)
  | detections : Loop (List Detection) (List Detection)
  | uses : Loop (List Use) (List Use)
  | topLevel : Loop (List Element) (List Element)

namespace Loop

/-- One round of a loop over the level below, whose own loops have the bound `n`. -/
def round (n : Nat) (below : Level) : Loop σ β → σ → Parse (σ ⊕ β)
  | .leading => gatherRound leadingOne
  | .trailing => gatherRound trailingOne
  | .path => gatherRound furtherEntry
  | .parameters => gatherRound (furtherItem (parameter n))
  | .arguments => gatherRound (furtherItem below.expression)
  | .operators power => operatorRound (continued n below) .standard power
  | .elements => gatherRound (furtherElement .standard below)
  | .branches => branchRound .standard n below
  | .cases => gatherRound (selectionCase .standard n below)
  | .detections => gatherRound (detection .standard n below)
  | .uses => gatherRound (use n)
  | .topLevel => gatherRound (furtherTopLevel below)

/-- The loop as the grammar has it, with a bound on its rounds. -/
def bounded (n : Nat) (below : Level) : Loop σ β → Nat → σ → Parse β
  | .leading => gather leadingOne
  | .trailing => gather trailingOne
  | .path => gather furtherEntry
  | .parameters => gather (furtherItem (parameter n))
  | .arguments => gather (furtherItem below.expression)
  | .operators power => extended .standard n below power
  | .elements => gather (furtherElement .standard below)
  | .branches => otherBranches .standard n below
  | .cases => gather (selectionCase .standard n below)
  | .detections => gather (detection .standard n below)
  | .uses => gather (use n)
  | .topLevel => gather (furtherTopLevel below)

theorem bounded_eq_loop (l : Loop σ β) (k : Nat) (x : σ) :
    l.bounded n below k x = loop (l.round n below) k x := by
  cases l with
  | operators power => exact extended_eq_loop .standard n below power k x
  | branches => exact otherBranches_eq_loop .standard n below k x
  | _ => exact gather_eq_loop k x

/-- Every round that a loop goes on after takes a token, and no end of the source. -/
theorem advances_round (h : below.Advancing) (l : Loop σ β) (x : σ) :
    (l.round n below x).Advances fun o => o.isLeft = true := by
  cases l with
  | leading => exact advances_gatherRound advances_leadingOne x
  | trailing => exact advances_gatherRound advances_trailingOne x
  | path => exact advances_gatherRound advances_furtherEntry x
  | parameters =>
    exact advances_gatherRound (advances_furtherItem moves_parameter fun _ => orderly_parameter) x
  | arguments =>
    exact advances_gatherRound (advances_furtherItem h.expression fun _ => h.orderly.expression) x
  | operators power => exact advances_operatorRound h power x
  | elements => exact advances_gatherRound (advances_furtherElement h) x
  | branches => exact advances_branchRound h x
  | cases => exact advances_gatherRound (advances_selectionCase h) x
  | detections => exact advances_gatherRound (advances_detection h) x
  | uses => exact advances_gatherRound advances_use x
  | topLevel => exact advances_gatherRound (advances_furtherTopLevel h) x

/-- Nothing is lost by the bound of a loop: without one it comes to an end, after no more
rounds than tokens are left, and with any bound above those rounds it comes to the same. -/
theorem exists_repeats_round (h : below.Advancing) (l : Loop σ β) {k : Nat} {s : Stream' Token}
    (unread : Unread k s) (x : σ) :
    ∃ m ≤ k, ∃ result, Repeats (l.round n below) x s m result ∧
      ∀ bound > m, (l.bounded n below bound x).on s = result := by
  obtain ⟨m, le, result, run⟩ := exists_repeats (l.advances_round h (n := n)) unread (x := x)
  refine ⟨m, le, result, run, fun bound lt => ?_⟩
  rw [bounded_eq_loop]
  exact run.loop_eq lt

end Loop

end Grammar

end TagLang
