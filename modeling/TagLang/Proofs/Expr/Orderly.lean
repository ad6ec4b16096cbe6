import TagLang.Grammar.Expression
import TagLang.Proofs.Parse.Orderly

/-!
# Orderly parses of expressions

The parses of expressions of a level are orderly if those of the level below are. An
expression that may be absent takes a token that begins none, so what is orderly is the parse
of an expression that has to be there.
-/

namespace TagLang

open Parse Stream'

/-- Elements, and expressions that have to be there, are parsed in an orderly way. -/
structure Level.Orderly (r : Registry) (l : Level) : Prop where
  element : ∀ s, l.element.Orderly r s
  required : ∀ power s, (l.required power).Orderly r s

variable {α : Type} {r : Registry} {below : Level} {n : Nat} {s : Stream' Token}

namespace Level

theorem Orderly.expression (h : below.Orderly r) : below.expression.Orderly r s :=
  h.required .loosest s

/-- Where an expression that may be absent fails, one that has to be there fails alike. -/
theorem Orderly.blames_expr (h : below.Orderly r) (power : BindingPower) :
    (below.expr power).Blames r s := by
  intro e t failed
  have fails : (below.required power).on s = (.error e, t) := by
    show ((below.expr power).bind _).on s = (.error e, t)
    rw [on_bind, failed]
  have taken : (below.required power).taken s = (below.expr power).taken s :=
    taken_bind_of_error (p := below.expr power) failed
  rw [← taken]
  exact (h.required power s).blames e t fails

theorem orderly_bottom : bottom.Orderly r :=
  ⟨fun _ => orderly_refuse, fun _ _ => orderly_look_bind orderly_refuse⟩

end Level

namespace Grammar

theorem orderly_furtherItem {item : Parse α} (h : ∀ t, item.Orderly r t) :
    (furtherItem item).Orderly r s := by
  refine (orderly_accept (by decide) rfl).bind fun more t => ?_
  cases more with
  | true => exact (h t).map
  | false => exact orderly_done

theorem orderly_items {item : Parse α} (h : ∀ t, item.Orderly r t) :
    (items n item).Orderly r s := by
  refine (orderly_accept (by decide) rfl).bind fun closed t => ?_
  cases closed with
  | true => exact orderly_done
  | false =>
      refine (h t).bind fun first u => ?_
      refine (orderly_gather (fun v => orderly_furtherItem h) n [first]).bind fun all v => ?_
      exact (orderly_expect (by decide) rfl).map

theorem orderly_arguments (h : below.Orderly r) : (arguments n below).Orderly r s :=
  orderly_items fun _ => h.expression

/-- A token that begins an expression is taken, and what follows it is parsed by its rule. -/
theorem orderly_begun_bind (h : below.Orderly r) {rule : ExprStart} {f : Expr → Parse α}
    (starts : r.start? s.head.kind = some rule) (next : ∀ left t, (f left).Orderly r t) :
    (Parse.next.bind fun t => (begun below rule t).bind f).Orderly r s := by
  have use : r.Consumes s.head := .inr (.inl (by rw [starts]; rfl))
  cases rule with
  | literal =>
      cases literal : LiteralKind.ofTokenKind? s.head.kind with
      | none =>
          refine orderly_refuse.congr_next ?_
          simp only [begun, literal]
          rfl
      | some kind =>
          refine orderly_next_bind use ?_
          simp only [begun, literal]
          exact next _ _
  | identifier => exact orderly_next_bind use (next _ _)
  | group =>
      refine orderly_next_bind use ?_
      rw [begun, bind_eq, bind_assoc]
      refine h.expression.bind fun e t => ?_
      rw [bind_eq, bind_assoc]
      exact (orderly_expect (by decide) rfl).bind fun _ u => next e u
  | unary =>
      refine orderly_next_bind use ?_
      rw [begun, bind_eq, bind_assoc]
      exact (h.required .unary _).bind fun e t => next _ t

theorem orderly_continued (h : below.Orderly r) (rule : ExprContinuation) (left : Expr) (t : Token)
    (power : BindingPower) : (continued n below rule left t power).Orderly r s := by
  cases rule with
  | binary => exact (h.required power s).map
  | power => exact (h.required .multiplicative s).map
  | call => exact (orderly_arguments h).map
  | member => exact (orderly_expect (by decide) rfl).map

theorem orderly_extended (h : below.Orderly r) (power : BindingPower) (k : Nat) (left : Expr) :
    (extended r n below power k left).Orderly r s := by
  induction k generalizing left s with
  | zero => exact orderly_refuse
  | succ k ih =>
      refine orderly_look_bind ?_
      cases continues : r.continuation? s.head.kind with
      | none => exact orderly_done
      | some found =>
          obtain ⟨tighter, rule⟩ := found
          show (if tighter ≤ power then done left
            else next.bind fun t => (continued n below rule left t tighter).bind
              (extended r n below power k)).Orderly r s
          split
          · exact orderly_done
          · refine orderly_next_bind (.inr (.inr (by rw [continues]; rfl))) ?_
            exact (orderly_continued h rule left s.head tighter).bind fun longer t => ih longer

/-- An expression that has to be there: where none begins, the token is taken and the error
is at it. -/
theorem required_expr (element : Parse Element) (power : BindingPower) :
    Level.required ⟨element, expr r n below⟩ power =
      look.bind fun t => next.bind fun u =>
        match r.start? u.kind with
        | none => failAt t (.expressionMissing t.text)
        | some rule => (begun below rule u).bind (extended r n below power n) := by
  refine congrArg look.bind (funext fun t => ?_)
  show (next.bind _).bind _ = _
  rw [bind_assoc]
  refine congrArg next.bind (funext fun u => ?_)
  cases r.start? u.kind with
  | none => rfl
  | some rule =>
      show ((begun below rule u).bind _).bind _ = _
      rw [bind_assoc]
      refine congrArg _ (funext fun left => ?_)
      show ((extended r n below power n left).bind _).bind _ = _
      rw [bind_assoc]
      exact bind_done _

theorem orderly_required (h : below.Orderly r) {element : Parse Element} (power : BindingPower) :
    (Level.required ⟨element, expr r n below⟩ power).Orderly r s := by
  rw [required_expr]
  refine orderly_look_bind ?_
  cases starts : r.start? s.head.kind with
  | none =>
      refine orderly_refuse.congr_next ?_
      rw [starts]
  | some rule =>
      have rest (left : Expr) (t : Stream' Token) : (extended r n below power n left).Orderly r t :=
        orderly_extended h power n left
      refine (orderly_begun_bind h starts rest).congr_next ?_
      rw [starts]

end Grammar

end TagLang
