import TagLang.Grammar.Expression
import TagLang.Proofs.Mapped
import TagLang.Proofs.Parse.Parallel

/-!
# Expressions of tokens in pairs

Expressions go in parallel where tokens come in pairs with and without the `#` of a tag: a tag
neither begins nor continues an expression, and of other tokens the kind decides.
-/

namespace TagLang

open Parse

variable {m : Token.Pairing} {α γ : Type} {below : Level}

/-- A level goes in parallel with itself on tokens in pairs. -/
structure Level.Parallel (m : Token.Pairing) (l : Level) : Prop where
  element : Parse.Parallel m (Element.map .bare) l.element l.element
  expr (power : BindingPower) :
    Parse.Parallel m (Option.map (Expr.map .bare)) (l.expr power) (l.expr power)

namespace Level

theorem parallel_bottom : bottom.Parallel m := ⟨parallel_refuse, fun _ => parallel_refuse⟩

theorem Parallel.required (h : below.Parallel m) (power : BindingPower) :
    Parse.Parallel m (Expr.map .bare) (below.required power) (below.required power) := by
  refine parallel_look_bind fun t t' pair => ?_
  exact (h.expr power).bindOption (.fail pair rfl) fun e e' same => .done same

theorem Parallel.expression (h : below.Parallel m) :
    Parse.Parallel m (Expr.map .bare) below.expression below.expression :=
  h.required .loosest

end Level

namespace Grammar

theorem parallel_items {item : Parse α} {view : α → γ} (n : Nat)
    (parses : Parse.Parallel m view item item) :
    Parse.Parallel m (List.map view) (items n item) (items n item) := by
  have round : Parse.Parallel m (Option.map view) (furtherItem item) (furtherItem item) := by
    refine (parallel_accept _).bindBool ?_ ?_
    · exact .done rfl
    · exact parses.map fun _ _ same => congrArg some same
  refine (parallel_accept _).bindBool ?_ ?_
  · refine parses.bind fun first first' same => ?_
    have sameFirst : [first].map view = [first'].map view := congrArg (fun c => [c]) same
    refine (parallel_gather round n sameFirst).bind fun all all' sameAll => ?_
    exact (parallel_expect _).map fun _ _ _ => sameAll
  · exact .done rfl

variable (h : below.Parallel m)

include h

theorem parallel_arguments (n : Nat) :
    Parse.Parallel m (List.map (Expr.map .bare)) (arguments n below) (arguments n below) :=
  parallel_items n h.expression

theorem parallel_begun (rule : ExprStart) {t t' : Token} (pair : m.joins t t') :
    Parse.Parallel m (Expr.map .bare) (begun below rule t) (begun below rule t') := by
  have same := m.bare pair
  cases rule with
  | literal =>
    rw [begun, begun, ← Token.kind_eq_of_bare same]
    split
    · refine .done ?_
      simp only [Expr.map, same]
    · exact .fail pair rfl
  | identifier => exact .done (congrArg Expr.identifier same)
  | group =>
    refine h.expression.bind fun e e' sameInner => ?_
    exact (parallel_expect _).map fun _ _ _ => sameInner
  | unary =>
    refine (h.required .unary).map fun e e' sameOperand => ?_
    simp only [Expr.map, same, sameOperand]

theorem parallel_continued (n : Nat) (rule : ExprContinuation) {left left' : Expr} {t t' : Token}
    (sameLeft : left.map .bare = left'.map .bare) (same : t.bare = t'.bare)
    (power : BindingPower) :
    Parse.Parallel m (Expr.map .bare) (continued n below rule left t power)
      (continued n below rule left' t' power) := by
  have binary (tighter : BindingPower) :
      Parse.Parallel m (Expr.map .bare)
        ((below.required tighter).bind fun e => .done (.binary left t e))
        ((below.required tighter).bind fun e => .done (.binary left' t' e)) := by
    refine (h.required tighter).map fun e e' sameRight => ?_
    simp only [Expr.map, sameLeft, same, sameRight]
  cases rule with
  | binary => exact binary power
  | power => exact binary .multiplicative
  | call =>
    refine (parallel_arguments h n).map fun es es' sameArguments => ?_
    simp only [Expr.map, Expr.mapAll_eq, sameLeft, sameArguments]
  | member =>
    refine (parallel_expect .identifier).map fun name name' sameName => ?_
    simp only [Expr.map, sameLeft, same, sameName]

theorem parallel_extended (n : Nat) (power : BindingPower) (k : Nat) {left left' : Expr}
    (sameLeft : left.map .bare = left'.map .bare) :
    Parse.Parallel m (Expr.map .bare) (extended .standard n below power k left)
      (extended .standard n below power k left') := by
  induction k generalizing left left' with
  | zero => exact parallel_refuse
  | succ k ih =>
    refine parallel_look_bind fun t t' pair => ?_
    rw [Token.kind_eq_of_bare (m.bare pair)]
    split
    · exact .done sameLeft
    · split
      · exact .done sameLeft
      · refine parallel_next.bind fun u u' same => ?_
        refine (parallel_continued h n _ sameLeft same _).bind fun longer longer' sameLonger => ?_
        exact ih sameLonger

theorem parallel_expr (n : Nat) (power : BindingPower) :
    Parse.Parallel m (Option.map (Expr.map .bare)) (expr .standard n below power)
      (expr .standard n below power) := by
  refine parallel_next_bind fun t t' pair => ?_
  rw [Token.kind_eq_of_bare (m.bare pair)]
  split
  · exact .done rfl
  · refine (parallel_begun h _ pair).bind fun left left' sameLeft => ?_
    exact (parallel_extended h n power n sameLeft).map fun _ _ same => congrArg some same

end Grammar

end TagLang
