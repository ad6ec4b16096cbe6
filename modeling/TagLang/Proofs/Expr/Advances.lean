import TagLang.Proofs.Expr.Orderly
import TagLang.Proofs.Parse.Loop
import TagLang.Proofs.Registry.Operators

/-!
# Expressions advance

An expression that has to be there takes a token, and every round of the loops inside an
expression takes one: the comma in front of a further item, the operator that continues an
operand. What follows an operator is parsed by the rule of the operator, which is left open
here: the round takes the operator whatever the rule does.
-/

namespace TagLang

open Parse

/-- The language has no use for faults and for the end of a source. -/
theorem Registry.regular_of_consumes {t : Token} (h : standard.Consumes t) :
    t.kind ≠ .eof ∧ t.kind.isFault = false := by
  rcases h with regular | begins | continues
  · exact regular
  · obtain ⟨rule, found⟩ := Option.isSome_iff_exists.mp begins
    have table : ∀ x ∈ standardStarts, x.1 ≠ .eof ∧ x.1.isFault = false := by decide
    exact table _ (mem_of_start? found)
  · obtain ⟨⟨power, rule⟩, found⟩ := Option.isSome_iff_exists.mp continues
    obtain ⟨m, mark⟩ := exists_mark_of_continuation? found
    simp [mark, TokenKind.isFault]

variable {α : Type} {below : Level} {n : Nat}

/-- What is orderly takes no end of the source, so it advances if it moves. -/
theorem Parse.Moves.advances_standard {p : Parse α} {good : α → Prop} (h : p.Moves good)
    (orderly : ∀ s, p.Orderly .standard s) : p.Advances good :=
  h.advances orderly fun _ use => (Registry.regular_of_consumes use).1

/-- Elements, and expressions that have to be there, take a token at least, and no end of the
source. -/
structure Level.Advancing (l : Level) : Prop where
  orderly : l.Orderly .standard
  element : l.element.Moves fun _ => True
  required : ∀ power, (l.required power).Moves fun _ => True

namespace Level.Advancing

theorem expression (h : below.Advancing) : below.expression.Moves fun _ => True :=
  h.required .loosest

theorem advances_element (h : below.Advancing) : below.element.Advances fun _ => True :=
  h.element.advances_standard h.orderly.element

theorem advances_required (h : below.Advancing) (power : BindingPower) :
    (below.required power).Advances fun _ => True :=
  (h.required power).advances_standard (h.orderly.required power)

end Level.Advancing

namespace Grammar

theorem moves_furtherItem {item : Parse α} (h : item.Moves fun _ => True) :
    (furtherItem item).Moves fun o => o.isSome = true := by
  refine moves_bind fun more => ?_
  cases more with
  | true => exact h.bind
  | false => exact moves_done nofun

/-- Each further item of a list takes a token. -/
theorem advances_furtherItem {item : Parse α} (h : item.Moves fun _ => True)
    (orderly : ∀ s, item.Orderly .standard s) :
    (furtherItem item).Advances fun o => o.isSome = true :=
  (moves_furtherItem h).advances_standard fun _ => orderly_furtherItem orderly

/-- A round of an expression that goes on as the rules of its operators have it. -/
def operatorRound {κ : Type} (go : ExprContinuation → Expr → Token → BindingPower → Parse Expr)
    (r : Registry κ) (power : BindingPower) (left : Expr) : Parse (Expr ⊕ Expr) := do
  match r.continuation? (← look).kind with
  | none => return .inr left
  | some (tighter, rule) =>
    if tighter ≤ power then return .inr left
    else
      let t ← next
      return .inl (← go rule left t tighter)

theorem extended_eq_loop {κ : Type} (r : Registry κ) (n : Nat) (below : Level)
    (power : BindingPower) (k : Nat) (left : Expr) :
    extended r n below power k left = loop (operatorRound (continued n below) r power) k left := by
  induction k generalizing left with
  | zero => rfl
  | succ k ih =>
    show look.bind _ = (look.bind _).bind _
    rw [bind_assoc]
    refine congrArg look.bind (funext fun t => ?_)
    cases r.continuation? t.kind with
    | none => rfl
    | some found =>
      obtain ⟨tighter, rule⟩ := found
      by_cases loose : tighter ≤ power
      · simp only [if_pos loose]
        rfl
      · simp only [if_neg loose]
        show next.bind _ = (next.bind _).bind _
        rw [bind_assoc]
        refine congrArg next.bind (funext fun u => ?_)
        show _ = ((continued n below rule left u tighter).bind _).bind _
        rw [bind_assoc]
        exact congrArg _ (funext ih)

section Operators

variable {r : Registry} {go : ExprContinuation → Expr → Token → BindingPower → Parse Expr}
  {power : BindingPower} {left : Expr}

theorem moves_operatorRound : (operatorRound go r power left).Moves fun o => o.isLeft = true := by
  refine moves_bind fun t => ?_
  cases r.continuation? t.kind with
  | none => exact moves_done nofun
  | some found =>
    dsimp only
    split
    · exact moves_done nofun
    · exact moves_next.bind

/-- No operator stands at the end of the source. -/
theorem operatorRound_of_eof {s : Stream' Token} (ended : s.head.kind = .eof) :
    (operatorRound go .standard power left).on s = (.ok (.inr left), s) := by
  have nothing : Registry.standard.continuation? s.head.kind = none := by
    rw [ended]
    decide
  rw [operatorRound, bind_eq, on_look_bind, nothing]
  rfl

/-- An operator that an expression goes on with stands before the end and is taken, whatever
its rule does then. -/
theorem ne_eof_of_operatorRound {s t : Stream' Token} {longer : Expr}
    (ok : (operatorRound go .standard power left).on s = (.ok (.inl longer), t)) :
    s.head.kind ≠ .eof ∧ 0 < (operatorRound go .standard power left).taken s := by
  refine ⟨fun ended => ?_, moves_operatorRound s _ t ok rfl⟩
  rw [operatorRound_of_eof ended] at ok
  cases ok

theorem orderly_operatorRound (h : below.Orderly r) (s : Stream' Token) :
    (operatorRound (continued n below) r power left).Orderly r s := by
  refine orderly_look_bind ?_
  cases continues : r.continuation? s.head.kind with
  | none => exact orderly_done
  | some found =>
    obtain ⟨tighter, rule⟩ := found
    show (if tighter ≤ power then done (.inr left) else next.bind fun t =>
      (continued n below rule left t tighter).bind fun e => done (.inl e) :
      Parse (Expr ⊕ Expr)).Orderly r s
    split
    · exact orderly_done
    · refine orderly_next_bind (.inr (.inr (by rw [continues]; rfl))) ?_
      exact (orderly_continued h rule left s.head tighter).map

/-- Each operator of an expression, with what its rule parses, takes tokens before the end. -/
theorem advances_operatorRound (h : below.Advancing) (power : BindingPower) (left : Expr) :
    (operatorRound (continued n below) .standard power left).Advances fun o => o.isLeft = true :=
  moves_operatorRound.advances_standard fun s => orderly_operatorRound h.orderly s

end Operators

/-- The token that begins an expression is taken, or else the one that begins none. -/
theorem moves_required (r : Registry) (n : Nat) (below : Level) (element : Parse Element)
    (power : BindingPower) :
    (Level.required ⟨element, expr r n below⟩ power).Moves fun _ => True := by
  rw [required_expr]
  exact moves_bind fun _ => moves_next.bind

end Grammar

end TagLang
