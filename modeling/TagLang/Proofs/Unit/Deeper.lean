import TagLang.Grammar.Unit
import TagLang.Proofs.Parse.Deeper

/-!
# Deeper parsers

A unit that is parsed with some bound on the nesting is parsed to the same tree with any
bound above it.
-/

namespace TagLang

open Parse

/-- What the first level parses, the second one parses. -/
structure Level.Within (l l' : Level) : Prop where
  element : l.element.Within l'.element
  expr : ∀ power, (l.expr power).Within (l'.expr power)

variable {α : Type} {r : Registry} {below below' : Level} {n n' : Nat}

namespace Level

theorem Within.required (h : below.Within below') (power : BindingPower) :
    (below.required power).Within (below'.required power) :=
  within_bind fun _ => (h.expr power).bind fun _ => .refl _

theorem Within.expression (h : below.Within below') :
    below.expression.Within below'.expression :=
  h.required .loosest

end Level

namespace Grammar

theorem within_items {item item' : Parse α} (h : item.Within item') (le : n ≤ n') :
    (items n item).Within (items n' item') := by
  apply within_bind
  intro closed
  cases closed with
  | true => exact .refl _
  | false =>
      have further : (furtherItem item).Within (furtherItem item') := by
        apply within_bind
        intro more
        cases more with
        | true => exact h.map
        | false => exact .refl _
      exact h.bind fun first => (within_gather further le).bind fun all => .refl _

section Heads

variable (le : n ≤ n')

include le

theorem within_leading : (leading n).Within (leading n') := within_gather (.refl _) le

theorem within_trailing : (trailing n).Within (trailing n') := within_gather (.refl _) le

theorem within_path : (path n).Within (path n') :=
  within_bind fun _ => (within_gather (.refl _) le).map

theorem within_parameters : (parameters n).Within (parameters n') := by
  apply within_bind
  intro _
  apply within_items _ le
  exact (within_path le).bind fun name => (within_trailing le).map

end Heads

section Bodies

variable (h : below.Within below') (le : n ≤ n')

include h le

theorem within_arguments : (arguments n below).Within (arguments n' below') :=
  within_items h.expression le

omit le in
theorem within_begun (rule : ExprStart) (t : Token) :
    (begun below rule t).Within (begun below' rule t) := by
  cases rule with
  | literal => exact .refl _
  | identifier => exact .refl _
  | group => exact h.expression.bind fun e => .refl _
  | unary => exact (h.required .unary).map

theorem within_continued (rule : ExprContinuation) (left : Expr) (t : Token)
    (power : BindingPower) :
    (continued n below rule left t power).Within (continued n' below' rule left t power) := by
  cases rule with
  | binary => exact (h.required power).map
  | power => exact (h.required .multiplicative).map
  | call => exact (within_arguments h le).map
  | member => exact .refl _

theorem within_extended (power : BindingPower) {k k' : Nat} (loop : k ≤ k') (left : Expr) :
    (extended r n below power k left).Within (extended r n' below' power k' left) := by
  induction k generalizing k' left with
  | zero => exact within_refuse
  | succ k ih =>
      obtain ⟨m, rfl⟩ : ∃ m, k' = m + 1 := ⟨k' - 1, by omega⟩
      apply within_bind
      intro t
      cases r.continuation? t.kind with
      | none => exact .refl _
      | some found =>
          obtain ⟨tighter, rule⟩ := found
          show (if tighter ≤ power then _ else _ : Parse Expr).Within
            (if tighter ≤ power then _ else _ : Parse Expr)
          split
          · exact .refl _
          · apply within_bind
            intro u
            apply (within_continued h le rule left u tighter).bind
            intro longer
            exact ih (by omega) longer

theorem within_expr (power : BindingPower) : (expr r n below power).Within (expr r n' below' power) := by
  apply within_bind
  intro t
  cases r.start? t.kind with
  | none => exact .refl _
  | some rule =>
      apply (within_begun h rule t).bind
      intro left
      exact (within_extended h le power le left).map

theorem within_elements : (elements r n below).Within (elements r n' below') := by
  apply within_gather _ le
  apply within_bind
  intro ends
  cases ends with
  | true => exact .refl _
  | false => exact h.element.map

theorem within_closedBody : (closedBody r n below).Within (closedBody r n' below') :=
  (within_elements h le).bind fun _ => .refl _

theorem within_bodyAfter (tag : String) :
    (bodyAfter r n below tag).Within (bodyAfter r n' below' tag) := by
  apply within_bind
  intro found
  cases found with
  | none => exact .refl _
  | some _ => exact (within_elements h le).map

theorem within_guarded (tag : Token) : (guarded r n below tag).Within (guarded r n' below' tag) :=
  h.expression.bind fun _ => (within_elements h le).map

theorem within_otherBranches {k k' : Nat} (loop : k ≤ k') (gathered : List Guarded) :
    (otherBranches r n below k gathered).Within (otherBranches r n' below' k' gathered) := by
  induction k generalizing k' gathered with
  | zero => exact within_refuse
  | succ k ih =>
      obtain ⟨m, rfl⟩ : ∃ m, k' = m + 1 := ⟨k' - 1, by omega⟩
      apply within_bind
      intro found
      cases found with
      | none => exact .refl _
      | some _ =>
          apply within_bind
          intro further
          cases further with
          | none => exact (within_elements h le).map
          | some tag =>
              apply (within_guarded h le tag).bind
              intro branch
              exact ih (by omega) (branch :: gathered)

theorem within_selectionCase : (selectionCase r n below).Within (selectionCase r n' below') := by
  apply within_bind
  intro found
  cases found with
  | none => exact .refl _
  | some tag => exact (within_guarded h le tag).map

theorem within_detection : (detection r n below).Within (detection r n' below') := by
  apply within_bind
  intro found
  cases found with
  | none => exact .refl _
  | some tag =>
      apply (within_path le).bind
      intro name
      exact (within_trailing le).bind fun annotations => (within_elements h le).map

omit le in
theorem within_initialValue : (initialValue below).Within (initialValue below') := by
  apply within_bind
  intro equals
  cases equals with
  | true => exact h.expression.map
  | false => exact .refl _

omit le in
theorem within_resultValue (tag : Token) :
    (resultValue r below tag).Within (resultValue r below' tag) := by
  apply within_bind
  intro begins
  cases begins with
  | false => exact .refl _
  | true =>
      apply within_bind
      intro annotated
      cases annotated with
      | true => exact .refl _
      | false => exact h.expression.map

theorem within_elementOf (before : List Annotation) (tag : Token) (kind : ElementKind) :
    (elementOf r n below before tag kind).Within (elementOf r n' below' before tag kind) := by
  have name := within_path le
  have behind := within_trailing le
  have closed := within_closedBody (r := r) h le
  have body := within_elements (r := r) h le
  cases kind with
  | scope kind => exact name.bind fun _ => behind.bind fun _ => closed.map
  | callable kind =>
      apply name.bind
      intro _
      exact (within_parameters le).bind fun _ => behind.bind fun _ => closed.map
  | binding kind => exact name.bind fun _ => behind.bind fun _ => (within_initialValue h).map
  | symbol => exact name.bind fun _ => behind.map
  | branch =>
      apply h.expression.bind
      intro _
      apply behind.bind
      intro _
      exact body.bind fun _ => (within_otherBranches h le le []).bind fun _ => .refl _
  | exemption =>
      apply h.expression.bind
      intro _
      apply behind.bind
      intro _
      exact body.bind fun _ => (within_bodyAfter h le "else").bind fun _ => .refl _
  | selection =>
      apply h.expression.bind
      intro _
      apply behind.bind
      intro _
      apply (within_gather (within_selectionCase h le) le).bind
      intro _
      exact (within_bodyAfter h le "else").bind fun _ => .refl _
  | check =>
      apply behind.bind
      intro _
      apply body.bind
      intro _
      apply (within_gather (within_detection h le) le).bind
      intro _
      exact (within_bodyAfter h le "regardless").bind fun _ => .refl _
  | assertion => exact h.expression.bind fun _ => behind.map
  | invocation =>
      apply name.bind
      intro _
      apply within_bind
      intro _
      exact (within_arguments h le).bind fun _ => behind.map
  | result => exact (within_resultValue h tag).bind fun _ => behind.map
  | raising => exact h.expression.bind fun _ => behind.map
  | traversal =>
      apply name.bind
      intro _
      apply behind.bind
      intro _
      apply within_bind
      intro _
      exact h.expression.bind fun _ => closed.map
  | loop kind => exact h.expression.bind fun _ => behind.bind fun _ => closed.map
  | assignment =>
      apply name.bind
      intro _
      exact behind.bind fun _ => within_bind fun _ => h.expression.map

theorem within_dispatched (before : List Annotation) (c : Construct) :
    (dispatched r n below before c).Within (dispatched r n' below' before c) := by
  apply within_bind
  intro tag
  cases c.second with
  | none => exact within_elementOf h le before tag c.kind
  | some word => exact within_bind fun _ => within_elementOf h le before tag c.kind

theorem within_element : (element r n below).Within (element r n' below') := by
  apply (within_leading le).bind
  intro before
  apply within_bind
  intro t
  split
  · exact .refl _
  · split
    · apply within_bind
      intro found
      cases found with
      | none => exact .refl _
      | some c => exact within_dispatched h le before c
    · exact .refl _

end Bodies

theorem within_level (le : n ≤ n') : (level r n).Within (level r n') := by
  induction n generalizing n' with
  | zero => exact ⟨within_refuse, fun _ => within_refuse⟩
  | succ n ih =>
      obtain ⟨m, rfl⟩ : ∃ m, n' = m + 1 := ⟨n' - 1, by omega⟩
      have below := @ih m (by omega)
      exact ⟨within_element below (by omega), within_expr below (by omega)⟩

theorem within_uses (le : n ≤ n') : (uses n).Within (uses n') := by
  apply within_gather _ le
  apply within_bind
  intro found
  cases found with
  | false => exact .refl _
  | true => exact within_bind fun _ => (within_path le).bind fun _ => .refl _

theorem within_compilationUnit (le : n ≤ n') :
    (compilationUnit r n).Within (compilationUnit r n') := by
  apply (within_uses le).bind
  intro _
  exact (within_level le).element.bind fun _ => .refl _

theorem within_scriptUnit (le : n ≤ n') : (scriptUnit r n).Within (scriptUnit r n') := by
  apply (within_uses le).bind
  intro _
  refine (within_gather ?_ le).bind fun _ => .refl _
  apply within_bind
  intro atEnd
  cases atEnd with
  | true => exact .refl _
  | false => exact (within_level le).element.map

end Grammar

end TagLang
