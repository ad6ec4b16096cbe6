import TagLang.Proofs.Element.Advances
import TagLang.Proofs.Expr.Same

/-!
# Elements that are the same on some tokens

What follows the tag of an element is the same on scenes with `k` tokens if the levels below
are, the second registry extends that of the language on free tokens, and no bound of a loop is
as low as `k`. An element is the same if what follows its tag is the same on fewer tokens: the
tag is taken before any sort is handled.
-/

namespace TagLang

open Parse

variable {κ κ' : Type} {free : Token → Prop} {k n n' : Nat} {below below' : Level}
  {lift : ElementKind → κ'} {r' : Registry κ'}

namespace Grammar

theorem sameOn_leading (lt : k < n) (lt' : k < n') :
    Parse.SameOn free k (leading n) (leading n') :=
  sameOn_gather advances_leadingOne (.refl _) lt lt' []

theorem sameOn_trailing (lt : k < n) (lt' : k < n') :
    Parse.SameOn free k (trailing n) (trailing n') :=
  sameOn_gather advances_trailingOne (.refl _) lt lt' []

theorem sameOn_path (lt : k < n) (lt' : k < n') : Parse.SameOn free k (path n) (path n') :=
  sameOn_bind _ fun _ => (sameOn_gather advances_furtherEntry (.refl _) lt lt' []).map _

theorem sameOn_parameter (lt : k < n) (lt' : k < n') :
    Parse.SameOn free k (parameter n) (parameter n') :=
  (sameOn_path lt lt').bind fun _ => (sameOn_trailing lt lt').map _

theorem sameOn_parameters (lt : k < n) (lt' : k < n') :
    Parse.SameOn free k (parameters n) (parameters n') :=
  sameOn_bind _ fun _ =>
    sameOn_items moves_parameter (fun _ => orderly_parameter) (sameOn_parameter lt lt') lt lt'

/-- A free token ends a sequence of elements for both registries or for none. -/
theorem endsSequence_extends (h : Registry.Extends free lift .standard r') {t : Token}
    (ht : free t) : endsSequence r' t = endsSequence .standard t := by
  cases kind : t.kind with
  | tag =>
    have dispatches : Registry.dispatches t = true := by simp [Registry.dispatches, kind]
    simp only [endsSequence, kind, h.owner? t ht dispatches]
  | word w => cases w <;> simp only [endsSequence, kind]
  | _ => simp only [endsSequence, kind]

section Bodies

variable (extends_ : Registry.Extends free lift .standard r') (advances : below.Advancing)
  (same : below.SameOn free k below') (lt : k < n) (lt' : k < n')

include extends_ same in
theorem sameOn_furtherElement :
    Parse.SameOn free k (furtherElement .standard below) (furtherElement r' below') := by
  refine sameOn_look_bind fun s scene => ?_
  rw [endsSequence_extends extends_ (scene.free 0)]
  dsimp only
  split
  · rfl
  · exact (same.element.map some) s scene

include extends_ advances same lt lt'

theorem sameOn_elements :
    Parse.SameOn free k (elements .standard n below) (elements r' n' below') :=
  sameOn_gather (advances_furtherElement advances) (sameOn_furtherElement extends_ same) lt lt' []

theorem sameOn_closedBody :
    Parse.SameOn free k (closedBody .standard n below) (closedBody r' n' below') :=
  (sameOn_elements extends_ advances same lt lt').bind fun _ => .refl _

theorem sameOn_bodyAfter (tag : String) :
    Parse.SameOn free k (bodyAfter .standard n below tag) (bodyAfter r' n' below' tag) := by
  refine sameOn_bind _ fun found => ?_
  cases found with
  | none => exact .refl _
  | some _ => exact (sameOn_elements extends_ advances same lt lt').map _

theorem sameOn_guarded (tag : Token) :
    Parse.SameOn free k (guarded .standard n below tag) (guarded r' n' below' tag) :=
  same.expression.bind fun _ => (sameOn_elements extends_ advances same lt lt').map _

theorem sameOn_otherBranches (gathered : List Guarded) :
    Parse.SameOn free k (otherBranches .standard n below n gathered)
      (otherBranches r' n' below' n' gathered) := by
  rw [otherBranches_eq_loop, otherBranches_eq_loop]
  refine sameOn_loop (Advances.moves (advances_branchRound advances)) (fun now => ?_) lt lt'
    gathered
  refine sameOn_bind _ fun found => ?_
  cases found with
  | none => exact .refl _
  | some _ =>
    refine sameOn_bind _ fun further => ?_
    cases further with
    | none => exact (sameOn_elements extends_ advances same lt lt').map _
    | some tag => exact (sameOn_guarded extends_ advances same lt lt' tag).map _

theorem sameOn_cases : Parse.SameOn free k (gather (selectionCase .standard n below) n [])
    (gather (selectionCase r' n' below') n' []) := by
  refine sameOn_gather (advances_selectionCase advances) ?_ lt lt' []
  refine sameOn_bind _ fun found => ?_
  cases found with
  | none => exact .refl _
  | some tag => exact (sameOn_guarded extends_ advances same lt lt' tag).map _

theorem sameOn_detections : Parse.SameOn free k (gather (detection .standard n below) n [])
    (gather (detection r' n' below') n' []) := by
  refine sameOn_gather (advances_detection advances) ?_ lt lt' []
  refine sameOn_bind _ fun found => ?_
  cases found with
  | none => exact .refl _
  | some tag =>
    refine (sameOn_path lt lt').bind fun name => (sameOn_trailing lt lt').bind fun behind => ?_
    exact (sameOn_elements extends_ advances same lt lt').map _

omit advances lt lt' in
theorem sameOn_resultValue (tag : Token) :
    Parse.SameOn free k (resultValue .standard below tag) (resultValue r' below' tag) := by
  have begins : Parse.SameOn free k (canBegin .standard) (canBegin r') := by
    refine sameOn_look_bind fun s scene => ?_
    rw [extends_.start?]
  have annotated : Parse.SameOn free k (annotatedElementNext .standard tag)
      (annotatedElementNext r' tag) := by
    refine sameOn_look_bind fun s scene => ?_
    split
    · show (done _ : Parse Bool).on s = (done _ : Parse Bool).on s
      rw [extends_.isConstructTag (show free s.tail.head from scene.free 1)]
    · rfl
  refine begins.bind fun begun => ?_
  split
  · refine annotated.bind fun other => ?_
    split
    · exact .refl _
    · exact same.expression.map _
  · exact .refl _

omit extends_ advances lt lt' in
theorem sameOn_initialValue : Parse.SameOn free k (initialValue below) (initialValue below') := by
  refine sameOn_bind _ fun equals => ?_
  split
  · exact same.expression.map _
  · exact .refl _

/-- What follows the tag of an element is the same if the levels below are. -/
theorem sameOn_elementOf (before : List Annotation) (tag : Token) (kind : ElementKind) :
    Parse.SameOn free k (elementOf .standard n below before tag kind)
      (elementOf r' n' below' before tag kind) := by
  have path : Parse.SameOn free k (path n) (path n') := sameOn_path lt lt'
  have behind : Parse.SameOn free k (trailing n) (trailing n') := sameOn_trailing lt lt'
  have body := sameOn_elements extends_ advances same lt lt'
  have closed := sameOn_closedBody extends_ advances same lt lt'
  have after := sameOn_bodyAfter extends_ advances same lt lt'
  have ends {α : Type} (f : Token → α) :
      Parse.SameOn free k (closing.bind fun t => done (f t)) (closing.bind fun t => done (f t)) :=
    .refl _
  cases kind with
  | scope kind => exact path.bind fun _ => behind.bind fun _ => closed.map _
  | callable kind =>
    refine path.bind fun _ => (sameOn_parameters lt lt').bind fun _ => ?_
    exact behind.bind fun _ => closed.map _
  | binding kind =>
    exact path.bind fun _ => behind.bind fun _ => (sameOn_initialValue same).map _
  | symbol => exact path.bind fun _ => behind.map _
  | branch =>
    refine same.expression.bind fun _ => behind.bind fun _ => body.bind fun _ => ?_
    exact (sameOn_otherBranches extends_ advances same lt lt' []).bind fun _ => ends _
  | exemption =>
    refine same.expression.bind fun _ => behind.bind fun _ => body.bind fun _ => ?_
    exact (after "else").bind fun _ => ends _
  | selection =>
    refine same.expression.bind fun _ => behind.bind fun _ => ?_
    refine (sameOn_cases extends_ advances same lt lt').bind fun _ => ?_
    exact (after "else").bind fun _ => ends _
  | check =>
    refine behind.bind fun _ => body.bind fun _ => ?_
    refine (sameOn_detections extends_ advances same lt lt').bind fun _ => ?_
    exact (after "regardless").bind fun _ => ends _
  | assertion => exact same.expression.bind fun _ => behind.map _
  | invocation =>
    refine path.bind fun _ => sameOn_bind _ fun _ => ?_
    exact (sameOn_arguments advances same lt lt').bind fun _ => behind.map _
  | result => exact (sameOn_resultValue extends_ same tag).bind fun _ => behind.map _
  | raising => exact same.expression.bind fun _ => behind.map _
  | traversal =>
    refine path.bind fun _ => behind.bind fun _ => sameOn_bind _ fun _ => ?_
    exact same.expression.bind fun _ => closed.map _
  | loop kind => exact same.expression.bind fun _ => behind.bind fun _ => closed.map _
  | assignment =>
    refine path.bind fun _ => behind.bind fun _ => sameOn_bind _ fun _ => ?_
    exact same.expression.map _

end Bodies

section Dispatch

variable {lift : κ → κ'} {r : Registry κ}

/-- The construct that a tag begins is the same one for candidates that are named otherwise. -/
theorem construct_eq_map {tag : String}
    (h : r'.candidates tag = (r.candidates tag).map (Construct.map lift)) :
    construct r' tag = (construct r tag).bind fun o => done (o.map (Construct.map lift)) := by
  have bare : (fun c : Construct κ' => c.second.isNone) ∘ Construct.map lift =
      fun c : Construct κ => c.second.isNone := rfl
  have exact_ (text : String) : (fun c : Construct κ' => c.second == some text) ∘
      Construct.map lift = fun c : Construct κ => c.second == some text := rfl
  simp only [construct, h, List.all_map, bare]
  split
  · rw [List.head?_map]
    rfl
  · refine congrArg lookSecond.bind (funext fun second => ?_)
    simp only [List.find?_map, exact_, bare, ← Option.map_or, done_bind]
    cases (List.find? (fun c => c.second == some second.text) (r.candidates tag)).or
      (List.find? (fun c => c.second.isNone) (r.candidates tag)) <;> rfl

/-- What a construct holds is handled behind its tag. -/
theorem on_dispatchedBy {handle : Handler κ} {handle' : Handler κ'}
    (same : ∀ j < k, ∀ before tag kind,
      Parse.SameOn free j (handle before tag kind) (handle' before tag (lift kind)))
    {s : Stream' Token} (scene : Scene free k s) (ne : s.head.kind ≠ .eof)
    (before : List Annotation) (c : Construct κ) :
    (dispatchedBy handle before c).on s = (dispatchedBy handle' before (c.map lift)).on s := by
  refine on_next_bind_congr scene ne fun j less => ?_
  obtain ⟨tag, second, auxiliaries, kind⟩ := c
  cases second with
  | some word => exact sameOn_bind _ fun _ => same j less before s.head kind
  | none => exact same j less before s.head kind

/-- An element is the same if its sort is handled the same on fewer tokens. -/
theorem sameOn_elementBy {handle : Handler κ} {handle' : Handler κ'}
    (extends_ : Registry.Extends free lift r r')
    (same : ∀ j < k, ∀ before tag kind,
      Parse.SameOn free j (handle before tag kind) (handle' before tag (lift kind)))
    (lt : k < n) (lt' : k < n') :
    Parse.SameOn free k (elementBy handle r n) (elementBy handle' r' n') := by
  refine (sameOn_leading lt lt').bind fun before => sameOn_look_bind fun s scene => ?_
  split
  · rfl
  · split
    · rename_i dispatches
      rw [construct_eq_map (extends_.candidates _ (scene.free 0) dispatches),
        extends_.owner? _ (scene.free 0) dispatches, bind_eq, bind_eq, bind_assoc, on_bind, on_bind]
      cases run : (construct r s.head.tagName).on s with
      | mk found t =>
        cases found with
        | error e => rfl
        | ok found =>
          obtain rfl := left_of_construct run
          cases found with
          | none => cases r.owner? s.head.tagName <;> rfl
          | some c =>
            exact on_dispatchedBy same scene (Registry.ne_eof_of_dispatches dispatches) before c
    · rfl

end Dispatch

end Grammar

end TagLang
