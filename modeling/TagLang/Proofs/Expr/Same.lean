import TagLang.Proofs.Expr.Advances
import TagLang.Proofs.Parse.Same
import TagLang.Proofs.Registry.Extension

/-!
# Expressions that are the same on some tokens

The parses of expressions over two levels below are the same on scenes with `k` tokens if the
levels are the same on those with fewer, and no bound of a loop is as low as `k`. How an
expression begins and goes on behind the token that decides is left open at first
(`exprBy`), so this also says on which tokens that may depend.
-/

namespace TagLang

open Parse

variable {α κ : Type} {free : Token → Prop} {k n n' : Nat} {below below' : Level}

namespace Level

/-- Two levels are the same on scenes with at most `k` tokens. -/
structure SameOn (free : Token → Prop) (k : Nat) (l l' : Level) : Prop where
  element : Parse.SameOn free k l.element l'.element
  expr : ∀ power, Parse.SameOn free k (l.expr power) (l'.expr power)

namespace SameOn

variable {l l' : Level}

theorem required (h : l.SameOn free k l') (power : BindingPower) :
    Parse.SameOn free k (l.required power) (l'.required power) :=
  sameOn_bind look fun _ => (h.expr power).bind fun _ => .refl _

theorem expression (h : l.SameOn free k l') : Parse.SameOn free k l.expression l'.expression :=
  h.required .loosest

end SameOn

end Level

namespace Grammar

/-- Lists of items that are the same are the same. -/
theorem sameOn_items {item item' : Parse α} (moves : item.Moves fun _ => True)
    (orderly : ∀ s, item.Orderly .standard s) (same : Parse.SameOn free k item item') (lt : k < n)
    (lt' : k < n') : Parse.SameOn free k (items n item) (items n' item') := by
  refine sameOn_bind _ fun closed => ?_
  split
  · exact .refl _
  · refine same.bind fun first => ?_
    refine SameOn.bind ?_ fun all => .refl _
    refine sameOn_gather (advances_furtherItem moves orderly) ?_ lt lt' [first]
    refine sameOn_bind _ fun more => ?_
    split
    · exact same.map some
    · exact .refl _

theorem sameOn_arguments (advances : below.Advancing) (same : below.SameOn free k below')
    (lt : k < n) (lt' : k < n') :
    Parse.SameOn free k (arguments n below) (arguments n' below') :=
  sameOn_items advances.expression (fun _ => advances.orderly.expression) same.expression lt lt'

theorem sameOn_begun (same : below.SameOn free k below') (rule : ExprStart) (t : Token) :
    Parse.SameOn free k (begun below rule t) (begun below' rule t) := by
  cases rule with
  | literal => exact .refl _
  | identifier => exact .refl _
  | group => exact same.expression.bind fun e => .refl _
  | unary => exact (same.required .unary).map _

theorem sameOn_continued (advances : below.Advancing) (same : below.SameOn free k below')
    (lt : k < n) (lt' : k < n') (rule : ExprContinuation) (left : Expr) (t : Token)
    (power : BindingPower) :
    Parse.SameOn free k (continued n below rule left t power)
      (continued n' below' rule left t power) := by
  cases rule with
  | binary => exact (same.required power).map _
  | power => exact (same.required .multiplicative).map _
  | call => exact (sameOn_arguments advances same lt lt').map _
  | member => exact .refl _

/-- An expression that begins and goes on, behind the token that decides, as it is given. -/
def exprBy (begins : ExprStart → Token → Parse Expr)
    (goes : ExprContinuation → Expr → Token → BindingPower → Parse Expr) (r : Registry κ) (n : Nat)
    (power : BindingPower) : Parse (Option Expr) := do
  let t ← next
  match r.start? t.kind with
  | none => return none
  | some rule =>
    let left ← begins rule t
    return some (← loop (operatorRound goes r power) n left)

theorem expr_eq_exprBy (r : Registry κ) (n : Nat) (below : Level) (power : BindingPower) :
    expr r n below power = exprBy (begun below) (continued n below) r n power := by
  show next.bind _ = next.bind _
  refine congrArg next.bind (funext fun t => ?_)
  cases r.start? t.kind with
  | none => rfl
  | some rule =>
    refine congrArg (begun below rule t).bind (funext fun left => ?_)
    simp only [extended_eq_loop]

section Open

variable {begins begins' : ExprStart → Token → Parse Expr}
  {goes goes' : ExprContinuation → Expr → Token → BindingPower → Parse Expr} {r' : Registry κ}

/-- What is done behind an operator matters only for the tokens behind it. -/
theorem sameOn_operatorRound
    (continuation? : ∀ kind, r'.continuation? kind = Registry.standard.continuation? kind)
    (same : ∀ j < k, ∀ rule left t power,
      Parse.SameOn free j (goes rule left t power) (goes' rule left t power))
    (power : BindingPower) (left : Expr) :
    Parse.SameOn free k (operatorRound goes .standard power left)
      (operatorRound goes' r' power left) := by
  refine sameOn_look_bind fun s scene => ?_
  rw [continuation?]
  cases continues : Registry.standard.continuation? s.head.kind with
  | none => rfl
  | some found =>
    obtain ⟨tighter, rule⟩ := found
    have ne : s.head.kind ≠ .eof := by
      obtain ⟨m, mark⟩ := Registry.exists_mark_of_continuation? continues
      simp [mark]
    dsimp only
    split
    · rfl
    · exact on_next_bind_congr scene ne fun j lt => (same j lt rule left s.head tighter).map _

/-- What is done behind the token that begins an expression, and behind its operators, matters
only for the tokens behind them. -/
theorem sameOn_exprBy (start? : ∀ kind, r'.start? kind = Registry.standard.start? kind)
    (continuation? : ∀ kind, r'.continuation? kind = Registry.standard.continuation? kind)
    (begin_same : ∀ j < k, ∀ rule t, Parse.SameOn free j (begins rule t) (begins' rule t))
    (go_same : ∀ j < k, ∀ rule left t power,
      Parse.SameOn free j (goes rule left t power) (goes' rule left t power))
    (lt : k < n) (lt' : k < n') (power : BindingPower) :
    Parse.SameOn free k (exprBy begins goes .standard n power)
      (exprBy begins' goes' r' n' power) := by
  intro s scene
  rw [exprBy, exprBy, bind_eq, bind_eq]
  cases starts : Registry.standard.start? s.head.kind with
  | none => rw [on_next_bind, on_next_bind, start?, starts]
  | some rule =>
    refine on_next_bind_congr scene (Registry.ne_eof_of_start? starts) fun j less => ?_
    rw [start?, starts]
    refine (begin_same j less rule s.head).bind fun left => SameOn.map ?_ some
    refine sameOn_loop (fun left s longer t ok => ne_eof_of_operatorRound ok) (fun left => ?_)
      (by omega) (by omega) left
    exact sameOn_operatorRound continuation? (fun i lt => go_same i (by omega)) power left

end Open

/-- Expressions are the same if the levels below are the same on fewer tokens. -/
theorem sameOn_expr {r' : Registry κ}
    (start? : ∀ kind, r'.start? kind = Registry.standard.start? kind)
    (continuation? : ∀ kind, r'.continuation? kind = Registry.standard.continuation? kind)
    (advances : below.Advancing) (same : ∀ j < k, below.SameOn free j below') (lt : k < n)
    (lt' : k < n') (power : BindingPower) :
    Parse.SameOn free k (expr .standard n below power) (expr r' n' below' power) := by
  rw [expr_eq_exprBy, expr_eq_exprBy]
  refine sameOn_exprBy start? continuation? (fun j less => sameOn_begun (same j less))
    (fun j less => ?_) lt lt' power
  exact sameOn_continued advances (same j less) (by omega) (by omega)

end Grammar

end TagLang
