import TagLang.Grammar.Unit
import TagLang.Proofs.Expr.Orderly
import TagLang.Proofs.Registry.Constructs

/-!
# Orderly parses of elements

Every parse of an element is orderly over a level of orderly parses. Two errors are about a
token that is not the next one: where the second word of a construct does not fit, neither
the tag nor that word is taken, and both are in the error.
-/

namespace TagLang

open Parse Stream'

variable {r : Registry} {below : Level} {n : Nat} {s : Stream' Token}

namespace Registry

theorem consumes_of_annotates {t : Token} (h : t.kind.annotates = true) : r.Consumes t := by
  refine consumes_of_kind ?_ ?_
  · intro eof
    rw [eof] at h
    cases h
  · cases kind : t.kind <;> simp_all [TokenKind.annotates, TokenKind.isFault]

theorem consumes_of_dispatches {t : Token} (h : dispatches t = true) : r.Consumes t := by
  refine consumes_of_kind (ne_eof_of_dispatches h) ?_
  cases kind : t.kind <;> simp_all [dispatches, TokenKind.isKeyword, TokenKind.isFault]

end Registry

namespace Grammar

theorem orderly_leadingOne : leadingOne.Orderly r s := by
  refine orderly_look_bind ?_
  show (if s.head.kind.annotates then next.bind fun u => done (some (.ofToken u)) else done none :
    Parse (Option Annotation)).Orderly r s
  split
  · rename_i annotates
    exact (orderly_next (Registry.consumes_of_annotates annotates)).map
  · exact orderly_done

theorem orderly_leading : (leading n).Orderly r s :=
  orderly_gather (fun _ => orderly_leadingOne) n []

theorem orderly_trailingOne : trailingOne.Orderly r s := by
  refine (orderly_accept (by decide) rfl).bind fun colon u => ?_
  cases colon with
  | false => exact orderly_done
  | true =>
      refine orderly_look_bind ?_
      show (if u.head.kind.annotates then next.bind fun v => done (some (.ofToken v))
        else failAt u.head _ : Parse (Option Annotation)).Orderly r u
      split
      · rename_i annotates
        exact (orderly_next (Registry.consumes_of_annotates annotates)).map
      · refine orderly_failAt ?_
        exact ⟨rfl, rfl, rfl⟩

theorem orderly_trailing : (trailing n).Orderly r s :=
  orderly_gather (fun _ => orderly_trailingOne) n []

theorem orderly_furtherEntry : furtherEntry.Orderly r s := by
  refine (orderly_accept (by decide) rfl).bind fun dot v => ?_
  cases dot with
  | false => exact orderly_done
  | true => exact (orderly_expect (by decide) rfl).map

theorem orderly_path : (path n).Orderly r s :=
  (orderly_expect (by decide) rfl).bind fun _ _ =>
    (orderly_gather (fun _ => orderly_furtherEntry) n []).map

theorem orderly_parameter : (parameter n).Orderly r s :=
  orderly_path.bind fun _ _ => orderly_trailing.map

theorem orderly_parameters : (parameters n).Orderly r s :=
  (orderly_expect (by decide) rfl).bind fun _ _ => orderly_items fun _ => orderly_parameter

theorem orderly_nextIsTag (tag : String) : (nextIsTag tag).Orderly r s :=
  orderly_look_bind orderly_done

theorem orderly_acceptTag (tag : String) : (acceptTag tag).Orderly r s := by
  refine orderly_look_bind ?_
  show (if s.head.kind == .tag && s.head.tagName == tag then next.bind fun t => done (some t)
    else done none : Parse (Option Token)).Orderly r s
  split
  · rename_i isTag
    have kind : s.head.kind = .tag := by simp_all
    refine (orderly_next (Registry.consumes_of_kind ?_ ?_)).map
    · simp [kind]
    · simp [kind, TokenKind.isFault]
  · exact orderly_done

theorem orderly_furtherElement (h : below.Orderly r) : (furtherElement r below).Orderly r s := by
  refine orderly_look_bind ?_
  show (if endsSequence r s.head then done none
    else below.element.bind fun e => done (some e)).Orderly r s
  split
  · exact orderly_done
  · exact (h.element s).map

theorem orderly_elements (h : below.Orderly r) : (elements r n below).Orderly r s :=
  orderly_gather (fun _ => orderly_furtherElement h) n []

theorem orderly_closing : closing.Orderly r s := orderly_expect (by decide) rfl

theorem orderly_closedBody (h : below.Orderly r) : (closedBody r n below).Orderly r s :=
  (orderly_elements h).bind fun _ _ => orderly_closing.map

theorem orderly_bodyAfter (h : below.Orderly r) (tag : String) :
    (bodyAfter r n below tag).Orderly r s := by
  refine (orderly_acceptTag tag).bind fun found t => ?_
  cases found with
  | none => exact orderly_done
  | some _ => exact (orderly_elements h).map

theorem orderly_guarded (h : below.Orderly r) (tag : Token) :
    (guarded r n below tag).Orderly r s :=
  h.expression.bind fun _ _ => (orderly_elements h).map

theorem orderly_otherBranches (h : below.Orderly r) (k : Nat) (gathered : List Guarded) :
    (otherBranches r n below k gathered).Orderly r s := by
  induction k generalizing gathered s with
  | zero => exact orderly_refuse
  | succ k ih =>
      refine (orderly_acceptTag "else").bind fun found t => ?_
      cases found with
      | none => exact orderly_done
      | some _ =>
          refine (orderly_acceptTag "if").bind fun further u => ?_
          cases further with
          | none => exact (orderly_elements h).map
          | some tag => exact (orderly_guarded h tag).bind fun branch v => ih (branch :: gathered)

theorem orderly_selectionCase (h : below.Orderly r) : (selectionCase r n below).Orderly r s := by
  refine (orderly_acceptTag "where").bind fun found t => ?_
  cases found with
  | none => exact orderly_done
  | some tag => exact (orderly_guarded h tag).map

theorem orderly_detection (h : below.Orderly r) : (detection r n below).Orderly r s := by
  refine (orderly_acceptTag "detect").bind fun found t => ?_
  cases found with
  | none => exact orderly_done
  | some tag =>
      refine orderly_path.bind fun name u => ?_
      exact orderly_trailing.bind fun annotations v => (orderly_elements h).map

theorem orderly_annotatedElementNext (tag : Token) : (annotatedElementNext r tag).Orderly r s := by
  refine orderly_look_bind ?_
  split
  · exact orderly_lookSecond_bind orderly_done
  · exact orderly_done

theorem orderly_resultValue (h : below.Orderly r) (tag : Token) :
    (resultValue r below tag).Orderly r s := by
  refine orderly_look_bind ?_
  show (if (r.start? s.head.kind).isSome then (annotatedElementNext r tag).bind _
    else done none : Parse (Option Expr)).Orderly r s
  split
  · refine (orderly_annotatedElementNext tag).bind fun annotated t => ?_
    cases annotated with
    | true => exact orderly_done
    | false => exact h.expression.map
  · exact orderly_done

theorem orderly_assignmentOperator : assignmentOperator.Orderly r s := by
  refine orderly_look_bind ?_
  split
  · rename_i assigns
    obtain ⟨m, -, same⟩ := List.any_eq_true.mp assigns
    have kind : s.head.kind = .mark m := by simpa using same
    refine orderly_next (Registry.consumes_of_kind ?_ ?_)
    · simp [kind]
    · simp [kind, TokenKind.isFault]
  · exact orderly_expect (by decide) rfl

theorem orderly_initialValue (h : below.Orderly r) : (initialValue below).Orderly r s := by
  refine (orderly_accept (by decide) rfl).bind fun equals t => ?_
  cases equals with
  | false => exact orderly_done
  | true => exact h.expression.map

/-- What follows the tag of an element is parsed in an orderly way. -/
theorem orderly_elementOf (h : below.Orderly r) (before : List Annotation) (tag : Token)
    (kind : ElementKind) : (elementOf r n below before tag kind).Orderly r s := by
  cases kind with
  | scope kind =>
      refine orderly_path.bind fun name t => ?_
      exact orderly_trailing.bind fun behind u => (orderly_closedBody h).map
  | callable kind =>
      refine orderly_path.bind fun name t => ?_
      refine orderly_parameters.bind fun parameters u => ?_
      exact orderly_trailing.bind fun behind v => (orderly_closedBody h).map
  | binding kind =>
      refine orderly_path.bind fun name t => ?_
      exact orderly_trailing.bind fun behind u => (orderly_initialValue h).map
  | symbol => exact orderly_path.bind fun name t => orderly_trailing.map
  | branch =>
      refine h.expression.bind fun guard t => ?_
      refine orderly_trailing.bind fun behind u => ?_
      refine (orderly_elements h).bind fun body v => ?_
      exact (orderly_otherBranches h n []).bind fun others w => orderly_closing.map
  | exemption =>
      refine h.expression.bind fun guard t => ?_
      refine orderly_trailing.bind fun behind u => ?_
      refine (orderly_elements h).bind fun body v => ?_
      exact (orderly_bodyAfter h "else").bind fun otherwise w => orderly_closing.map
  | selection =>
      refine h.expression.bind fun subject t => ?_
      refine orderly_trailing.bind fun behind u => ?_
      refine (orderly_gather (fun v => orderly_selectionCase h) n []).bind fun cases v => ?_
      exact (orderly_bodyAfter h "else").bind fun otherwise w => orderly_closing.map
  | check =>
      refine orderly_trailing.bind fun behind t => ?_
      refine (orderly_elements h).bind fun body u => ?_
      refine (orderly_gather (fun v => orderly_detection h) n []).bind fun detections v => ?_
      exact (orderly_bodyAfter h "regardless").bind fun regardless w => orderly_closing.map
  | assertion => exact h.expression.bind fun condition t => orderly_trailing.map
  | invocation =>
      refine orderly_path.bind fun callee t => ?_
      refine (orderly_expect (by decide) rfl).bind fun _ u => ?_
      exact (orderly_arguments h).bind fun arguments v => orderly_trailing.map
  | result => exact (orderly_resultValue h tag).bind fun value t => orderly_trailing.map
  | raising => exact h.expression.bind fun error t => orderly_trailing.map
  | traversal =>
      refine orderly_path.bind fun name t => ?_
      refine orderly_trailing.bind fun behind u => ?_
      refine (orderly_expectText (by decide) rfl).bind fun _ v => ?_
      exact h.expression.bind fun iterable w => (orderly_closedBody h).map
  | loop kind =>
      refine h.expression.bind fun condition t => ?_
      exact orderly_trailing.bind fun behind u => (orderly_closedBody h).map
  | assignment =>
      refine orderly_path.bind fun assignee t => ?_
      refine orderly_trailing.bind fun behind u => ?_
      exact orderly_assignmentOperator.bind fun operator v => h.expression.map

/-- The construct is chosen without taking a token. -/
theorem taken_construct {κ : Type} {r : Registry κ} (tag : String) :
    (construct r tag).taken s = 0 := by
  rw [construct]
  split
  · rfl
  · refine (taken_lookSecond_bind _ s).trans ?_
    split <;> rfl

theorem left_of_construct {κ : Type} {r : Registry κ} {tag : String} {t : Stream' Token}
    {found : Option (Construct κ)} (run : (construct r tag).on s = (.ok found, t)) : s = t := by
  have left := left_eq_drop_taken (construct r tag) s
  rw [run, taken_construct] at left
  exact left.symm

/-- Where the second word fits no candidate, the tag before it is in the error. -/
theorem orderly_construct (h : Registry.dispatches s.head = true) :
    (construct r s.head.tagName).Orderly r s := by
  rw [construct]
  split
  · exact orderly_done
  · refine orderly_lookSecond_bind ?_
    split
    · exact orderly_done
    · constructor
      · intro a t ok
        cases ok
      · intro e t failed
        cases failed
        refine ⟨1, ⟨rfl, .inr ⟨rfl, rfl⟩⟩, ?_⟩
        intro j hj
        obtain rfl : j = 0 := by omega
        exact Registry.consumes_of_dispatches h

theorem orderly_dispatched (h : below.Orderly r) (before : List Annotation) (c : Construct)
    (dispatches : Registry.dispatches s.head = true) :
    (dispatched r n below before c).Orderly r s := by
  refine orderly_next_bind (Registry.consumes_of_dispatches dispatches) ?_
  split
  · exact (orderly_expectText (by decide) rfl).bind fun _ t => orderly_elementOf h before _ c.kind
  · exact orderly_elementOf h before _ c.kind

theorem orderly_element (h : below.Orderly r) : (element r n below).Orderly r s := by
  refine orderly_leading.bind fun before t => orderly_look_bind ?_
  split
  · refine orderly_failAt ?_
    exact ⟨rfl, rfl, rfl⟩
  · split
    · rename_i dispatches
      refine orderly_bind (orderly_construct dispatches) fun found u run => ?_
      obtain rfl := left_of_construct run
      cases found with
      | some c => exact orderly_dispatched h before c dispatches
      | none =>
          dsimp only
          split
          · refine orderly_failAt ?_
            exact ⟨rfl, rfl⟩
          · refine orderly_failAt ?_
            exact .inl ⟨rfl, rfl⟩
    · refine orderly_failAt ?_
      exact .inl ⟨rfl, rfl⟩

theorem orderly_level (n : Nat) : (level r n).Orderly r := by
  induction n with
  | zero => exact Level.orderly_bottom
  | succ n ih => exact ⟨fun _ => orderly_element ih, fun power _ => orderly_required ih power⟩

end Grammar

end TagLang
