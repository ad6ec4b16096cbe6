import TagLang.Proofs.Expr.Written

/-!
# The left edge of a written expression

The operators on the left edge of an expression are met by one loop, from the innermost to
the outermost. An expression that obeys the law of precedence has only tighter operators
there than any power that it holds together more tightly than (`lt_of_mem_leftEdge`), and
what comes behind it is left alone by the operands on its other side (`admits_of_le`).
-/

namespace TagLang

namespace Written

theorem pieces_ne_nil (c : Written) : c.pieces ≠ [] := by
  cases c <;> simp [pieces]

/-- Every operator on the left edge has a piece of its own and at least one more behind it. -/
theorem two_mul_length_leftEdge_lt (c : Written) :
    2 * c.leftEdge.length < c.pieces.length := by
  cases c with
  | binary left operator right =>
      have inner := left.two_mul_length_leftEdge_lt
      have operand := List.length_pos_iff.mpr right.pieces_ne_nil
      simp only [leftEdge, pieces, List.length_cons, List.length_append]
      omega
  | call callee arguments =>
      have inner := callee.two_mul_length_leftEdge_lt
      simp only [leftEdge, pieces, List.length_cons, List.length_append, List.length_nil]
      omega
  | member object operator name =>
      have inner := object.two_mul_length_leftEdge_lt
      simp only [leftEdge, pieces, List.length_cons, List.length_append, List.length_nil]
      omega
  | _ => simp [leftEdge, pieces]

variable {power : BindingPower} {operator : Token}

/-- An expression that holds together more tightly than a power has only tighter operators on
its left edge. -/
theorem lt_of_mem_leftEdge {c : Written} (wf : c.tree.WellFormed) (ranked : c.Ranked)
    (loose : power ≤ .unary) (h : power < c.level) : ∀ q ∈ c.leftEdge, power < q := by
  cases c with
  | binary left operator right =>
      have fits : operator.power ≤ left.level := by
        have fitsLeft := ranked.1
        rw [FitsLeft] at fitsLeft
        split at fitsLeft
        · exact Nat.le_of_lt fitsLeft
        · exact fitsLeft
      have inner := lt_of_mem_leftEdge wf.2.1 ranked.2.2.1 loose (Nat.lt_of_lt_of_le h fits)
      exact List.forall_mem_cons.mpr ⟨h, inner⟩
  | call callee arguments =>
      have tight : power < .call := Nat.lt_of_le_of_lt loose (by decide)
      have inner := lt_of_mem_leftEdge wf.1 ranked.2.1 loose (Nat.lt_of_le_of_lt loose ranked.1)
      exact List.forall_mem_cons.mpr ⟨tight, inner⟩
  | member object operator name =>
      have tight : power < operator.power := by
        rw [Token.power_eq wf.1]
        exact Nat.lt_of_le_of_lt loose (by decide)
      have inner := lt_of_mem_leftEdge wf.2.2 ranked.2 loose (Nat.lt_of_le_of_lt loose ranked.1)
      exact List.forall_mem_cons.mpr ⟨tight, inner⟩
  | _ => simp [leftEdge]

theorem unary_lt_of_mem_leftEdge {c : Written} (wf : c.tree.WellFormed) (ranked : c.Ranked)
    (h : .unary ≤ c.level) : ∀ q ∈ c.leftEdge, .unary < q := by
  cases c with
  | unary => simp [leftEdge]
  | binary left operator right =>
      have looser := Nat.lt_of_le_of_lt (Token.power_le_exponent wf.1) BindingPower.exponent_lt_unary
      exact absurd h (BindingPower.not_le.mpr looser)
  | _ => exact lt_of_mem_leftEdge wf ranked (Nat.le_refl _) BindingPower.unary_lt_primary

theorem loosest_lt_of_mem_leftEdge {c : Written} (wf : c.tree.WellFormed) (ranked : c.Ranked) :
    ∀ q ∈ c.leftEdge, .loosest < q := by
  refine lt_of_mem_leftEdge wf ranked (by decide) ?_
  cases c with
  | binary left operator right =>
      rcases wf.1 with binary | power
      · exact Registry.loosest_lt_of_continuation? binary
      · exact Registry.loosest_lt_of_continuation? power
  | unary => exact (by decide : BindingPower.loosest < .unary)
  | _ => exact (by decide : BindingPower.loosest < .primary)

/-- An expression parsed at a power that the next token does not exceed keeps to itself what
is behind its operators. -/
theorem admits_of_le {c : Written} {q : BindingPower} (loose : power ≤ .unary) (stops : q ≤ power)
    (tighter : ∀ q ∈ c.leftEdge, power < q) : c.Admits q := by
  cases c with
  | unary => exact Nat.le_trans stops loose
  | binary left operator right =>
      have lt := Nat.lt_of_le_of_lt stops (tighter _ List.mem_cons_self)
      rw [Admits]
      split
      · exact lt
      · exact Nat.le_of_lt lt
  | _ => trivial

/-- An operator that an expression fits as left operand may come behind it. -/
theorem admits_of_fitsLeft {c : Written} (wf : c.tree.WellFormed)
    (h : Registry.standard.continuation? operator.kind = some (operator.power, .binary) ∨
      Registry.standard.continuation? operator.kind = some (operator.power, .power))
    (fits : FitsLeft operator c.level) : c.Admits operator.power := by
  have loose := Token.power_le_exponent h
  cases c with
  | unary => exact Nat.le_of_lt (Nat.lt_of_le_of_lt loose BindingPower.exponent_lt_unary)
  | binary left inner right =>
      rw [Admits]
      rw [FitsLeft] at fits
      rcases h with binary | power
      · rw [if_neg (Registry.lt_exponent_of_binary binary).2] at fits
        split
        · rename_i caret
          have tightest : inner.power = .exponent := by
            rcases wf.1 with binary | power
            · exact absurd caret (Registry.lt_exponent_of_binary binary).2
            · exact (Registry.eq_exponent_of_power power).1
          rw [tightest]
          exact (Registry.lt_exponent_of_binary binary).1
        · exact fits
      · obtain ⟨tightest, caret⟩ := Registry.eq_exponent_of_power power
        rw [if_pos caret, tightest] at fits
        exact absurd fits (Nat.not_lt.mpr (Token.power_le_exponent wf.1))
  | _ => trivial

/-- A call or a member may come behind what is no operator and has no prefix. -/
theorem admits_of_unary_lt {c : Written} (wf : c.tree.WellFormed) (h : .unary < c.level)
    (q : BindingPower) : c.Admits q := by
  cases c with
  | unary => exact absurd h (Nat.lt_irrefl _)
  | binary left operator right =>
      have looser := Nat.lt_of_le_of_lt (Token.power_le_exponent wf.1) BindingPower.exponent_lt_unary
      exact absurd h (Nat.lt_asymm looser)
  | _ => trivial

end Written

end TagLang
