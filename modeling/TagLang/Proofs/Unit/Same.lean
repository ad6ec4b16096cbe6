import TagLang.Proofs.Element.Same
import TagLang.Proofs.Unit.Advances

/-!
# Whole sources that are the same on some tokens

A level of the language is the same as another one on the scenes that neither exhausts. The
other one may have sorts of elements besides those of the language (`levelBy`), or be nested
only as deep as tokens are left, over a level on which nothing is handled as in the language
(`nested`). Units and scripts over levels that are the same are the same.
-/

namespace TagLang

open Parse Stream'

variable {κ : Type} {free : Token → Prop} {k n n' : Nat} {top top' : Level}

namespace Grammar

theorem sameOn_use (lt : k < n) (lt' : k < n') : Parse.SameOn free k (use n) (use n') := by
  refine sameOn_bind _ fun next => ?_
  split
  · refine sameOn_bind _ fun tag => (sameOn_path lt lt').bind fun name => ?_
    exact .refl _
  · exact .refl _

theorem sameOn_uses (lt : k < n) (lt' : k < n') : Parse.SameOn free k (uses n) (uses n') :=
  sameOn_gather advances_use (sameOn_use lt lt') lt lt' []

theorem sameOn_unitOf (same : top.SameOn free k top') (lt : k < n) (lt' : k < n') :
    Parse.SameOn free k (unitOf top n) (unitOf top' n') :=
  (sameOn_uses lt lt').bind fun _ => same.element.bind fun _ => .refl _

theorem sameOn_scriptOf (advances : top.Advancing) (same : top.SameOn free k top') (lt : k < n)
    (lt' : k < n') : Parse.SameOn free k (scriptOf top n) (scriptOf top' n') := by
  refine (sameOn_uses lt lt').bind fun _ => SameOn.bind ?_ fun _ => .refl _
  refine sameOn_gather (advances_furtherTopLevel advances) ?_ lt lt' []
  refine sameOn_bind _ fun ends => ?_
  split
  · exact .refl _
  · exact same.element.map some

/-- Over a registry that extends that of the language, with the sorts of the language handled
as ever, elements are the same. -/
theorem sameOn_levelBy {lift : ElementKind → κ} {r' : Registry κ} {handle : Handling κ}
    (extends_ : Registry.Extends free lift .standard r')
    (handles : ∀ n below before tag kind,
      handle r' n below before tag (lift kind) = elementOf r' n below before tag kind)
    (lt : k + 1 < n) (lt' : k + 1 < n') :
    (level .standard n).SameOn free k (levelBy handle r' n') := by
  induction n generalizing k n' with
  | zero => exact absurd lt (Nat.not_lt_zero _)
  | succ n ih =>
    obtain ⟨n', rfl⟩ := Nat.exists_eq_add_one_of_ne_zero (Nat.ne_zero_of_lt lt')
    have below (j : Nat) (less : j < k) :
        (level .standard n).SameOn free j (levelBy handle r' n') := ih (by omega) (by omega)
    refine ⟨?_, ?_⟩
    · refine sameOn_elementBy extends_ (fun j less before tag kind => ?_) (by omega) (by omega)
      rw [handles]
      exact sameOn_elementOf extends_ (advancing_level n) (below j less) (by omega) (by omega)
        before tag kind
    · exact sameOn_expr extends_.start? extends_.continuation? (advancing_level n) below
        (by omega) (by omega)

/-- What is done behind the token that decides: behind the tag of an element, the token that
begins an expression, and the operator that continues one. -/
structure Handlers where
  element : Handler ElementKind
  begins : ExprStart → Token → Parse Expr
  goes : ExprContinuation → Expr → Token → BindingPower → Parse Expr

namespace Handlers

variable {h h' : Handlers}

/-- The level that dispatches to the handlers, with loops of at most `n` rounds. -/
def level (h : Handlers) (n : Nat) : Level :=
  ⟨elementBy h.element .standard n, exprBy h.begins h.goes .standard n⟩

/-- The handlers of the language over a level below. -/
def above (n : Nat) (below : Level) : Handlers :=
  ⟨elementOf .standard n below, begun below, continued n below⟩

theorem level_above (n : Nat) (below : Level) :
    (above n below).level n = ⟨Grammar.element .standard n below, expr .standard n below⟩ := by
  rw [show expr .standard n below = _ from funext (expr_eq_exprBy .standard n below)]
  rfl

/-- Every level of the language dispatches to the handlers of the language over the level
below. -/
theorem level_succ (n : Nat) :
    Grammar.level .standard (n + 1) = (above n (Grammar.level .standard n)).level n := by
  rw [level_above]
  rfl

/-- The handlers do the same where fewer than `k` tokens are left. -/
structure AgreeBelow (k : Nat) (h h' : Handlers) : Prop where
  element : ∀ j < k, ∀ t, Unread j t → ∀ before tag kind,
    (h.element before tag kind).on t = (h'.element before tag kind).on t
  begins : ∀ j < k, ∀ t, Unread j t → ∀ rule u, (h.begins rule u).on t = (h'.begins rule u).on t
  goes : ∀ j < k, ∀ t, Unread j t → ∀ rule left u power,
    (h.goes rule left u power).on t = (h'.goes rule left u power).on t

/-- A level that is asked with `k` tokens left asks its handlers only with fewer. -/
theorem AgreeBelow.sameOn (agree : h.AgreeBelow k h') (lt : k < n) (lt' : k < n') :
    (h.level n).SameOn free k (h'.level n') := by
  have fewer {j : Nat} {t : Stream' Token} (less : j < k) (scene : Scene free j t) :
      ∃ i < k, Unread i t := by
    obtain ⟨i, few, unread⟩ := scene.unread
    exact ⟨i, by omega, unread⟩
  refine ⟨?_, fun power => ?_⟩
  · refine sameOn_elementBy (.refl _) (fun j less before tag kind t scene => ?_) lt lt'
    obtain ⟨i, less, unread⟩ := fewer less scene
    exact agree.element i less t unread before tag kind
  · refine sameOn_exprBy (fun _ => rfl) (fun _ => rfl) (fun j less rule u t scene => ?_)
      (fun j less rule left u power t scene => ?_) lt lt' power
    · obtain ⟨i, less, unread⟩ := fewer less scene
      exact agree.begins i less t unread rule u
    · obtain ⟨i, less, unread⟩ := fewer less scene
      exact agree.goes i less t unread rule left u power

end Handlers

/-- The handlers of the language nested `d` deep over a level that they ask at last, all with
loops of at most `n` rounds. -/
def nested (n : Nat) (base : Level) : Nat → Level
  | 0 => base
  | d + 1 => (Handlers.above n (nested n base d)).level n

/-- Handlers are nested no deeper than tokens are left: whatever is handled otherwise below
that depth, and however often loops may be repeated above it, a level of the language is the
same. -/
theorem sameOn_nested (h : Handlers) {d : Nat} (lt : k + 1 < n) (lt' : k < n') (deep : k ≤ d) :
    (level .standard n).SameOn free k (nested n' (h.level n') d) := by
  induction d generalizing k n with
  | zero =>
    obtain ⟨n, rfl⟩ := Nat.exists_eq_add_one_of_ne_zero (Nat.ne_zero_of_lt lt)
    obtain rfl : k = 0 := Nat.le_zero.mp deep
    have agree : (Handlers.above n (level .standard n)).AgreeBelow 0 h :=
      ⟨nofun, nofun, nofun⟩
    rw [Handlers.level_succ]
    exact agree.sameOn (by omega) lt'
  | succ d ih =>
    obtain ⟨n, rfl⟩ := Nat.exists_eq_add_one_of_ne_zero (Nat.ne_zero_of_lt lt)
    have below (j : Nat) (less : j < k) :
        (level .standard n).SameOn free j (nested n' (h.level n') d) :=
      ih (by omega) (by omega) (by omega)
    rw [nested, Handlers.level_above]
    refine ⟨?_, ?_⟩
    · refine sameOn_elementBy (.refl _) (fun j less => ?_) (by omega) lt'
      exact sameOn_elementOf (.refl _) (advancing_level n) (below j less) (by omega) (by omega)
    · exact sameOn_expr (fun _ => rfl) (fun _ => rfl) (advancing_level n) below (by omega) lt'

end Grammar

end TagLang
