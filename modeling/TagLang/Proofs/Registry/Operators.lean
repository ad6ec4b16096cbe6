import TagLang.Registry

/-!
# The operators of the language

What the tables of the language say about the tokens of expressions: which kinds
begin one, which kinds continue one, and how tightly. The power is the only
operator that groups to the right, and every operator between two operands is
looser than the prefix operators, which are looser than calls and members.
-/

namespace TagLang

namespace BindingPower

theorem not_le {a b : BindingPower} : ¬ a ≤ b ↔ b < a := Nat.not_le

theorem exponent_lt_unary : exponent < unary := by decide

theorem unary_lt_primary : unary < primary := by decide

theorem exponent_lt_primary : exponent < primary := by decide

end BindingPower

namespace Registry

variable {kind : TokenKind} {power : BindingPower}

private theorem mem_of_lookup {α β : Type} [BEq α] [LawfulBEq α] {l : List (α × β)} {a : α} {b : β}
    (h : l.lookup a = some b) : (a, b) ∈ l := by
  obtain ⟨l₁, l₂, rfl, -⟩ := List.lookup_eq_some_iff.mp h
  simp

theorem mem_of_start? {rule : ExprStart} (h : standard.start? kind = some rule) :
    (kind, rule) ∈ standardStarts :=
  mem_of_lookup h

theorem mem_of_continuation? {rule : ExprContinuation}
    (h : standard.continuation? kind = some (power, rule)) :
    (kind, power, rule) ∈ standardContinuations :=
  mem_of_lookup h

/-- Literals begin with the tokens that stand for a value. -/
theorem start?_eq_literal_iff : standard.start? kind = some .literal ↔ kind.isLiteral := by
  have table : ∀ x ∈ standardStarts, x.2 = .literal → x.1.isLiteral := by decide
  constructor
  · intro h
    exact table _ (mem_of_start? h) rfl
  · intro h
    cases kind with
    | literal f => cases f <;> decide
    | word w => cases w <;> first | decide | exact absurd h (by decide)
    | _ => exact absurd h Bool.false_ne_true

theorem start?_eq_identifier_iff : standard.start? kind = some .identifier ↔ kind = .identifier := by
  have table : ∀ x ∈ standardStarts, x.2 = .identifier → x.1 = .identifier := by decide
  constructor
  · intro h
    exact table _ (mem_of_start? h) rfl
  · rintro rfl
    decide

theorem start?_eq_group_iff : standard.start? kind = some .group ↔ kind = .mark .openParen := by
  have table : ∀ x ∈ standardStarts, x.2 = .group → x.1 = .mark .openParen := by decide
  constructor
  · intro h
    exact table _ (mem_of_start? h) rfl
  · rintro rfl
    decide

theorem start?_closeParen : standard.start? (.mark .closeParen) = none := by
  decide

/-- No expression begins where the source ends. -/
theorem ne_eof_of_start? {rule : ExprStart} (h : standard.start? kind = some rule) :
    kind ≠ .eof := by
  have table : ∀ x ∈ standardStarts, x.1 ≠ .eof := by decide
  exact table _ (mem_of_start? h)

/-- Only marks continue an expression. -/
theorem exists_mark_of_continuation? {rule : ExprContinuation}
    (h : standard.continuation? kind = some (power, rule)) : ∃ m, kind = .mark m := by
  have table : ∀ x ∈ standardContinuations, ∃ m ∈ Mark.all, x.1 = .mark m := by decide
  obtain ⟨m, -, hm⟩ := table _ (mem_of_continuation? h)
  exact ⟨m, hm⟩

theorem loosest_lt_of_continuation? {rule : ExprContinuation}
    (h : standard.continuation? kind = some (power, rule)) : .loosest < power := by
  have table : ∀ x ∈ standardContinuations, BindingPower.loosest < x.2.1 := by decide
  exact table _ (mem_of_continuation? h)

/-- An operator that groups to the left is looser than the power. -/
theorem lt_exponent_of_binary (h : standard.continuation? kind = some (power, .binary)) :
    power < .exponent ∧ kind ≠ .mark .caret := by
  have table : ∀ x ∈ standardContinuations, x.2.2 = .binary →
      x.2.1 < BindingPower.exponent ∧ x.1 ≠ .mark .caret := by decide
  exact table _ (mem_of_continuation? h) rfl

theorem eq_exponent_of_power (h : standard.continuation? kind = some (power, .power)) :
    power = .exponent ∧ kind = .mark .caret := by
  have table : ∀ x ∈ standardContinuations, x.2.2 = .power →
      x.2.1 = BindingPower.exponent ∧ x.1 = .mark .caret := by decide
  exact table _ (mem_of_continuation? h) rfl

theorem eq_call_of_call (h : standard.continuation? kind = some (power, .call)) :
    power = .call ∧ kind = .mark .openParen := by
  have table : ∀ x ∈ standardContinuations, x.2.2 = .call →
      x.2.1 = BindingPower.call ∧ x.1 = .mark .openParen := by decide
  exact table _ (mem_of_continuation? h) rfl

theorem eq_member_of_member (h : standard.continuation? kind = some (power, .member)) :
    power = .member := by
  have table : ∀ x ∈ standardContinuations, x.2.2 = .member → x.2.1 = BindingPower.member := by
    decide
  exact table _ (mem_of_continuation? h) rfl

theorem continuation?_openParen :
    standard.continuation? (.mark .openParen) = some (.call, .call) := by
  decide

theorem continuation?_closeParen : standard.continuation? (.mark .closeParen) = none := by
  decide

theorem continuation?_comma : standard.continuation? (.mark .comma) = none := by
  decide

/-- What is no mark continues no expression. -/
theorem continuation?_eq_none (h : ∀ m, kind ≠ .mark m) : standard.continuation? kind = none := by
  cases hc : standard.continuation? kind with
  | none => rfl
  | some x =>
      obtain ⟨m, hm⟩ := exists_mark_of_continuation? hc
      exact absurd hm (h m)

end Registry

end TagLang
