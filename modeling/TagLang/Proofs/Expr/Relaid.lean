import TagLang.Grammar.Expression
import TagLang.Proofs.Parse.Relaid
import TagLang.Proofs.Registry.Operators

/-!
# Expressions in another layout

Expressions are parsed alike from the same tokens in another layout, whatever the bounds of
the two parsers are, if these are above the number of tokens before the end. What the parses
of the level below need of each other is `Level.Agrees`.
-/

namespace TagLang

open Parse Stream'

/-- The parses of two levels agree where there are fewer than `bound` tokens before the end. -/
structure Level.Agrees (bound : Nat) (l l' : Level) : Prop where
  element : ∀ k < bound, ∀ s s', Relaid k s s' →
    l.element.Agrees l'.element s s' (Took k Element.erase)
  expr : ∀ k < bound, ∀ power s s', Relaid k s s' →
    (l.expr power).Agrees (l'.expr power) s s' (Kept k (Option.map Expr.erase))

/-- Two levels agree, and the loops of the parsers above them are bounded no more tightly. -/
structure Level.Supports (bound n n' : Nat) (below below' : Level) : Prop where
  agrees : below.Agrees bound below'
  loop : bound ≤ n
  loop' : bound ≤ n'

variable {α γ : Type} {below below' : Level} {bound n n' k : Nat} {s s' : Stream' Token}

namespace Level

theorem Agrees.required (h : below.Agrees bound below') (lt : k < bound) (relaid : Relaid k s s')
    (power : BindingPower) :
    (below.required power).Agrees (below'.required power) s s' (Kept k Expr.erase) := by
  refine agrees_look_bind ?_
  refine (h.expr k lt power s s' relaid).bind ?_
  rintro (_ | e) (_ | e') t t' ⟨same, left⟩
  · exact agrees_fail (congrArg SyntaxCause.expressionMissing relaid.head_text)
  · cases same
  · cases same
  · exact agrees_done ⟨Option.some.inj same, left⟩

theorem Agrees.expression (h : below.Agrees bound below') (lt : k < bound)
    (relaid : Relaid k s s') :
    below.expression.Agrees below'.expression s s' (Kept k Expr.erase) :=
  h.required lt relaid .loosest

end Level

namespace Grammar

theorem agrees_items {item item' : Parse α} {view : α → γ}
    (parses : ∀ j ≤ k, ∀ t t', Relaid j t t' → item.Agrees item' t t' (Kept j view))
    (room : k < n) (room' : k < n') (relaid : Relaid k s s') :
    (items n item).Agrees (items n' item') s s' (Kept k (List.map view)) := by
  refine (relaid.agrees_accept (by decide)).bind ?_
  rintro closed _ t t' ⟨rfl, left⟩
  cases closed with
  | true =>
      obtain ⟨j, lt, left⟩ := left
      exact agrees_done ⟨rfl, left.mono (by omega)⟩
  | false =>
      refine (parses k (Nat.le_refl k) t t' left).bind ?_
      rintro first first' u u' ⟨same, left⟩
      have round : ∀ j ≤ k, ∀ v v', Relaid j v v' →
          (furtherItem item).Agrees (furtherItem item') v v' (Further j view) := by
        intro j le v v' relaid
        refine (relaid.agrees_accept (by decide)).bind ?_
        rintro more _ w w' ⟨rfl, left⟩
        cases more with
        | false => exact agrees_done (.stops left)
        | true =>
            obtain ⟨i, lt, left⟩ := left
            refine (parses i (by omega) w w' left).map ?_
            rintro a a' x x' ⟨same, left⟩
            exact .goes same lt left
      have sameFirst : [first].map view = [first'].map view := congrArg (fun c => [c]) same
      refine (agrees_gather round room room' left sameFirst).bind ?_
      rintro all all' v v' ⟨sameAll, left⟩
      refine (left.agrees_expect (by decide)).map ?_
      rintro _ _ w w' ⟨-, j, lt, left⟩
      exact ⟨sameAll, left.mono (Nat.le_of_lt lt)⟩

theorem agrees_arguments (h : Level.Supports bound n n' below below') (lt : k < bound)
    (relaid : Relaid k s s') :
    (arguments n below).Agrees (arguments n' below') s s' (Kept k (List.map Expr.erase)) := by
  refine agrees_items ?_ (Nat.lt_of_lt_of_le lt h.loop) (Nat.lt_of_lt_of_le lt h.loop') relaid
  intro j le t t' relaid
  exact h.agrees.expression (by omega) relaid

theorem agrees_begun (h : below.Agrees bound below') (lt : k < bound) (relaid : Relaid k s s')
    (rule : ExprStart) {t t' : Token} (same : t.erase = t'.erase) :
    (begun below rule t).Agrees (begun below' rule t') s s' (Kept k Expr.erase) := by
  obtain ⟨kind, text⟩ := Token.erase_eq_iff.mp same
  cases rule with
  | literal =>
      rw [begun, begun, ← kind]
      split
      · refine agrees_done ⟨?_, relaid⟩
        simp only [Expr.erase, same]
      · exact agrees_fail (congrArg SyntaxCause.expressionMissing text)
  | identifier => exact agrees_done ⟨congrArg Expr.identifier same, relaid⟩
  | group =>
      refine (h.expression lt relaid).bind ?_
      rintro e e' u u' ⟨sameInner, left⟩
      refine (left.agrees_expect (by decide)).map ?_
      rintro _ _ v v' ⟨-, j, less, left⟩
      exact ⟨sameInner, left.mono (Nat.le_of_lt less)⟩
  | unary =>
      refine (h.required lt relaid .unary).map ?_
      rintro e e' u u' ⟨sameOperand, left⟩
      refine ⟨?_, left⟩
      simp only [Expr.erase, same, sameOperand]

theorem agrees_continued (h : Level.Supports bound n n' below below') (lt : k < bound)
    (relaid : Relaid k s s') (rule : ExprContinuation) {left left' : Expr} {t t' : Token}
    (sameLeft : left.erase = left'.erase) (same : t.erase = t'.erase) (power : BindingPower) :
    (continued n below rule left t power).Agrees (continued n' below' rule left' t' power) s s'
      (Kept k Expr.erase) := by
  have binary (tighter : BindingPower) :
      ((below.required tighter).bind fun e => done (Expr.binary left t e)).Agrees
        ((below'.required tighter).bind fun e => done (Expr.binary left' t' e)) s s'
        (Kept k Expr.erase) := by
    refine (h.agrees.required lt relaid tighter).map ?_
    rintro e e' u u' ⟨sameRight, rest⟩
    refine ⟨?_, rest⟩
    simp only [Expr.erase, sameLeft, same, sameRight]
  cases rule with
  | binary => exact binary power
  | power => exact binary .multiplicative
  | call =>
      refine (agrees_arguments h lt relaid).map ?_
      rintro es es' u u' ⟨sameArguments, rest⟩
      refine ⟨?_, rest⟩
      rw [Expr.erase, Expr.erase, Expr.erases_eq_map, Expr.erases_eq_map, sameLeft, sameArguments]
  | member =>
      refine (relaid.agrees_expect (by decide)).map ?_
      rintro name name' u u' ⟨sameName, j, less, rest⟩
      refine ⟨?_, rest.mono (Nat.le_of_lt less)⟩
      simp only [Expr.erase, sameLeft, same, sameName]

/-- An operator is one of the tokens before the end. -/
theorem agrees_extended (h : Level.Supports bound n n' below below') (lt : k < bound)
    (relaid : Relaid k s s') (power : BindingPower) {i i' : Nat} (room : k < i) (room' : k < i')
    {left left' : Expr} (same : left.erase = left'.erase) :
    (extended .standard n below power i left).Agrees (extended .standard n' below' power i' left')
      s s' (Kept k Expr.erase) := by
  induction k using Nat.strongRecOn generalizing i i' left left' s s' with
  | ind k ih =>
      obtain ⟨i, rfl⟩ : ∃ m, i = m + 1 := ⟨i - 1, by omega⟩
      obtain ⟨i', rfl⟩ : ∃ m, i' = m + 1 := ⟨i' - 1, by omega⟩
      refine agrees_look_bind ?_
      rw [← relaid.head_kind]
      cases continues : Registry.standard.continuation? s.head.kind with
      | none => exact agrees_done ⟨same, relaid⟩
      | some found =>
          obtain ⟨tighter, rule⟩ := found
          show (if tighter ≤ power then _ else _ : Parse Expr).Agrees
            (if tighter ≤ power then _ else _ : Parse Expr) s s' _
          split
          · exact agrees_done ⟨same, relaid⟩
          · obtain ⟨m, operator⟩ := Registry.exists_mark_of_continuation? continues
            have ne : s.head.kind ≠ .eof := by simp [operator]
            refine (relaid.agrees_next ne).bind ?_
            rintro t t' u u' ⟨sameToken, j, less, rest⟩
            refine (agrees_continued h (by omega) rest rule same sameToken tighter).bind ?_
            rintro longer longer' v v' ⟨sameLonger, rest⟩
            refine (ih j less (by omega) rest (by omega) (by omega) sameLonger).mono ?_
            rintro e e' w w' ⟨sameWhole, rest⟩
            exact ⟨sameWhole, rest.mono (Nat.le_of_lt less)⟩

/-- A token that begins no expression is taken all the same, but only the token at the end
leaves as many tokens as before. -/
theorem agrees_expr (h : Level.Supports bound n n' below below') (room : k < n) (room' : k < n')
    (le : k ≤ bound) (relaid : Relaid k s s') (power : BindingPower) :
    (expr .standard n below power).Agrees (expr .standard n' below' power) s s'
      (Kept k (Option.map Expr.erase)) := by
  refine agrees_next_bind ?_
  rw [← relaid.head_kind]
  cases starts : Registry.standard.start? s.head.kind with
  | none => exact agrees_done ⟨rfl, relaid.tail⟩
  | some rule =>
      obtain ⟨j, less, rest⟩ := relaid.exists_lt_tail (Registry.ne_eof_of_start? starts)
      refine (agrees_begun h.agrees (by omega) rest rule (relaid.erase 0)).bind ?_
      rintro left left' u u' ⟨same, rest⟩
      refine (agrees_extended h (by omega) rest power (by omega) (by omega) same).map ?_
      rintro e e' v v' ⟨sameWhole, rest⟩
      exact ⟨congrArg some sameWhole, rest.mono (Nat.le_of_lt less)⟩

end Grammar

end TagLang
