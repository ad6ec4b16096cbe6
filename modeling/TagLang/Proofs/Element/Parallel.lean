import Mathlib.Data.List.Find
import TagLang.Grammar.Unit
import TagLang.Proofs.Expr.Parallel
import TagLang.Proofs.Registry.Constructs

/-!
# Elements of tokens in pairs

Elements go in parallel where tokens come in pairs with and without the `#` of a tag. A tag is
looked up by its name wherever it decides something: at the dispatch, where a sequence ends,
inside its owner, and behind the name after a `return`. Only the word that decides between
constructs of one tag is compared as it is spelled, and no tag is spelled like such a word.
-/

namespace TagLang

open Parse

variable {m : Token.Pairing} {below : Level}

namespace Grammar

section Bare

variable {t t' : Token} (same : t.bare = t'.bare)

include same

theorem endsSequence_eq_of_bare : endsSequence .standard t = endsSequence .standard t' := by
  rw [endsSequence, endsSequence, Token.kind_eq_of_bare same, Token.tagName_eq_of_bare same]

theorem dispatches_eq_of_bare : Registry.dispatches t = Registry.dispatches t' := by
  rw [Registry.dispatches, Registry.dispatches, Token.kind_eq_of_bare same]

theorem isConstructTag_eq_of_bare :
    Registry.standard.isConstructTag t = Registry.standard.isConstructTag t' := by
  rw [Registry.isConstructTag, Registry.isConstructTag, dispatches_eq_of_bare same,
    Token.tagName_eq_of_bare same]

end Bare

/-- A token is spelled like a second word exactly if its partner is. -/
theorem second_eq_iff_of_pair {t t' : Token} (pair : m.joins t t') {word : String} {c : Construct}
    (mem : c ∈ Registry.standard.candidates word) :
    c.second = some t.text ↔ c.second = some t'.text := by
  have bare := m.bare pair
  by_cases tag : t.kind = .tag
  · have apart {u : Token} (proper : u.ProperTag) (tag : u.kind = .tag) :
        c.second ≠ some u.text := by
      intro second
      have table : ∀ w ∈ ["type", "for", "until", "while"],
          w ∉ Registry.standard.tags ∧ w.toList.head? ≠ some '#' := by
        decide +kernel
      obtain ⟨free, plain⟩ := table _ (Registry.second_mem_of_mem_candidates mem second)
      exact proper.text_ne tag free plain rfl
    obtain ⟨proper, proper'⟩ := m.proper pair
    exact iff_of_false (apart proper tag) (apart proper' (Token.kind_eq_of_bare bare ▸ tag))
  · rw [Token.text_eq_of_bare bare tag]

/-- A token that annotates is taken on both sides. -/
theorem parallel_annotating :
    Parse.Parallel m (Option.map <| Annotation.map .bare)
      (next.bind fun t => done (some (.ofToken t)))
      (next.bind fun t => done (some (.ofToken t))) := by
  refine parallel_next.map fun t t' same => congrArg some ?_
  exact Annotation.map_ofToken_congr (Token.kind_eq_of_bare same) same

theorem parallel_leading (n : Nat) :
    Parse.Parallel m (List.map <| Annotation.map .bare) (leading n) (leading n) := by
  refine parallel_gather (parallel_look_bind fun t t' pair => ?_) n rfl
  rw [Token.kind_eq_of_bare (m.bare pair)]
  split
  · exact parallel_annotating
  · exact .done rfl

theorem parallel_trailing (n : Nat) :
    Parse.Parallel m (List.map <| Annotation.map .bare) (trailing n) (trailing n) := by
  refine parallel_gather ((parallel_accept _).bindBool ?_ ?_) n rfl
  · exact .done rfl
  · refine parallel_look_bind fun t t' pair => ?_
    rw [Token.kind_eq_of_bare (m.bare pair)]
    split
    · exact parallel_annotating
    · exact .fail pair rfl

theorem parallel_path (n : Nat) : Parse.Parallel m (Path.map .bare) (path n) (path n) := by
  have round : Parse.Parallel m (Option.map Token.bare) furtherEntry furtherEntry := by
    refine (parallel_accept _).bindBool ?_ ?_
    · exact .done rfl
    · exact (parallel_expect _).map fun _ _ same => congrArg some same
  refine (parallel_expect _).bind fun first first' same => ?_
  refine (parallel_gather round n rfl).map fun more more' sameMore => ?_
  rw [Path.map, Path.map, same, sameMore]

theorem parallel_parameters (n : Nat) :
    Parse.Parallel m (List.map (Parameter.map .bare)) (parameters n) (parameters n) := by
  refine (parallel_expect _).bind fun _ _ _ => parallel_items n ?_
  refine (parallel_path n).bind fun name name' sameName => ?_
  refine (parallel_trailing n).map fun behind behind' sameBehind => ?_
  rw [Parameter.map, Parameter.map, sameName, sameBehind]

theorem parallel_acceptTag (tag : String) :
    Parse.Parallel m (Option.map Token.bare) (acceptTag tag) (acceptTag tag) := by
  have isTag : Parse.Parallel m id (nextIsTag tag) (nextIsTag tag) := by
    refine parallel_look_bind fun t t' pair => .done ?_
    have bare := m.bare pair
    rw [Token.kind_eq_of_bare bare, Token.tagName_eq_of_bare bare]
  refine isTag.bindBool ?_ ?_
  · exact .done rfl
  · exact parallel_next.map fun _ _ same => congrArg some same

theorem parallel_assignmentOperator :
    Parse.Parallel m Token.bare assignmentOperator assignmentOperator := by
  refine parallel_look_bind fun t t' pair => ?_
  rw [Token.kind_eq_of_bare (m.bare pair)]
  split
  · exact parallel_next
  · exact parallel_expect _

theorem parallel_closing : Parse.Parallel m Token.bare closing closing := parallel_expect _

section Bodies

variable (h : below.Parallel m) (n : Nat)

include h

theorem parallel_elements :
    Parse.Parallel m (List.map (Element.map .bare)) (elements .standard n below)
      (elements .standard n below) := by
  have ends : Parse.Parallel m id (atSequenceEnd .standard) (atSequenceEnd .standard) :=
    parallel_look_bind fun t t' pair => .done (endsSequence_eq_of_bare (m.bare pair))
  refine parallel_gather (ends.bindBool ?_ ?_) n rfl
  · exact h.element.map fun _ _ same => congrArg some same
  · exact .done rfl

theorem parallel_closedBody :
    Parse.Parallel m (List.map (Element.map .bare)) (closedBody .standard n below)
      (closedBody .standard n below) :=
  (parallel_elements h n).bind fun _ _ same => parallel_closing.map fun _ _ _ => same

theorem parallel_bodyAfter (tag : String) :
    Parse.Parallel m (Option.map (List.map (Element.map .bare))) (bodyAfter .standard n below tag)
      (bodyAfter .standard n below tag) := by
  refine (parallel_acceptTag tag).bindOption (.done rfl) fun _ _ _ => ?_
  exact (parallel_elements h n).map fun _ _ same => congrArg some same

theorem parallel_guarded {tag tag' : Token} (same : tag.bare = tag'.bare) :
    Parse.Parallel m (Guarded.map .bare) (guarded .standard n below tag)
      (guarded .standard n below tag') := by
  refine h.expression.bind fun guard guard' sameGuard => ?_
  refine (parallel_elements h n).map fun body body' sameBody => ?_
  simp only [Guarded.map, Element.mapAll_eq, same, sameGuard, sameBody]

theorem parallel_otherBranches (k : Nat) {gathered gathered' : List Guarded}
    (same : gathered.map (Guarded.map .bare) = gathered'.map (Guarded.map .bare)) :
    Parse.Parallel m
      (Prod.map (List.map (Guarded.map .bare)) (Option.map (List.map (Element.map .bare))))
      (otherBranches .standard n below k gathered)
      (otherBranches .standard n below k gathered') := by
  induction k generalizing gathered gathered' with
  | zero => exact parallel_refuse
  | succ k ih =>
    have sameAll : gathered.reverse.map (Guarded.map .bare) =
        gathered'.reverse.map (Guarded.map .bare) := by
      rw [List.map_reverse, List.map_reverse, same]
    refine (parallel_acceptTag "else").bindOption (.done ?_) fun _ _ _ => ?_
    · exact congrArg (·, none) sameAll
    · refine (parallel_acceptTag "if").bindOption ?_ fun tag tag' sameTag => ?_
      · refine (parallel_elements h n).map fun body body' sameBody => ?_
        exact Prod.ext sameAll (congrArg some sameBody)
      · refine (parallel_guarded h n sameTag).bind fun branch branch' sameBranch => ih ?_
        rw [List.map_cons, List.map_cons, sameBranch, same]

theorem parallel_cases :
    Parse.Parallel m (List.map (Guarded.map .bare)) (gather (selectionCase .standard n below) n [])
      (gather (selectionCase .standard n below) n []) := by
  have round : Parse.Parallel m (Option.map (Guarded.map .bare))
      (selectionCase .standard n below) (selectionCase .standard n below) := by
    refine (parallel_acceptTag "where").bindOption (.done rfl) fun tag tag' sameTag => ?_
    exact (parallel_guarded h n sameTag).map fun _ _ same => congrArg some same
  exact parallel_gather round n rfl

theorem parallel_detections :
    Parse.Parallel m (List.map (Detection.map .bare)) (gather (detection .standard n below) n [])
      (gather (detection .standard n below) n []) := by
  have round : Parse.Parallel m (Option.map (Detection.map .bare))
      (detection .standard n below) (detection .standard n below) := by
    refine (parallel_acceptTag "detect").bindOption (.done rfl) fun tag tag' sameTag => ?_
    refine (parallel_path n).bind fun name name' sameName => ?_
    refine (parallel_trailing n).bind fun behind behind' sameBehind => ?_
    refine (parallel_elements h n).map fun body body' sameBody => congrArg some ?_
    simp only [Detection.map, Element.mapAll_eq, sameTag, sameName, sameBehind, sameBody]
  exact parallel_gather round n rfl

theorem parallel_initialValue :
    Parse.Parallel m (Option.map (Expr.map .bare)) (initialValue below) (initialValue below) := by
  refine (parallel_accept _).bindBool ?_ ?_
  · exact .done rfl
  · exact h.expression.map fun _ _ same => congrArg some same

omit h in
/-- The lines of the tag and of a name behind it are compared, and no pair changes a line. -/
theorem parallel_annotatedElementNext {tag tag' : Token} (same : tag.bare = tag'.bare) :
    Parse.Parallel m id (annotatedElementNext .standard tag)
      (annotatedElementNext .standard tag') := by
  refine parallel_look_bind fun name name' pair => ?_
  have bare := m.bare pair
  rw [Token.kind_eq_of_bare bare, Token.line_eq_of_bare bare, Token.line_eq_of_bare same]
  split
  · refine parallel_lookSecond_bind fun t t' pair => .done ?_
    rw [Token.kind_eq_of_bare (m.bare pair), isConstructTag_eq_of_bare (m.bare pair)]
  · exact .done rfl

theorem parallel_resultValue {tag tag' : Token} (same : tag.bare = tag'.bare) :
    Parse.Parallel m (Option.map (Expr.map .bare)) (resultValue .standard below tag)
      (resultValue .standard below tag') := by
  have begins : Parse.Parallel m id (canBegin .standard) (canBegin .standard) := by
    refine parallel_look_bind fun t t' pair => .done ?_
    rw [Token.kind_eq_of_bare (m.bare pair)]
  refine begins.bindBool ?_ ?_
  · exact .done rfl
  · refine (parallel_annotatedElementNext same).bindBool ?_ ?_
    · exact h.expression.map fun _ _ same => congrArg some same
    · exact .done rfl

/-- What follows a tag goes in parallel behind the tags of a pair. -/
theorem parallel_elementOf {before before' : List Annotation}
    (sameBefore : (before.map (.map .bare) : List Annotation) = before'.map (.map .bare))
    {tag tag' : Token} (sameTag : tag.bare = tag'.bare) (kind : ElementKind) :
    Parse.Parallel m (Element.map .bare) (elementOf .standard n below before tag kind)
      (elementOf .standard n below before' tag' kind) := by
  cases kind with
  | scope kind =>
    refine (parallel_path n).bind fun name name' sameName => ?_
    refine (parallel_trailing n).bind fun behind behind' sameBehind => ?_
    refine (parallel_closedBody h n).map fun body body' sameBody => ?_
    simp only [Element.map, Head.map, Element.mapAll_eq, *]
  | callable kind =>
    refine (parallel_path n).bind fun name name' sameName => ?_
    refine (parallel_parameters n).bind fun parameters parameters' sameParameters => ?_
    refine (parallel_trailing n).bind fun behind behind' sameBehind => ?_
    refine (parallel_closedBody h n).map fun body body' sameBody => ?_
    simp only [Element.map, Head.map, Element.mapAll_eq, *]
  | binding kind =>
    refine (parallel_path n).bind fun name name' sameName => ?_
    refine (parallel_trailing n).bind fun behind behind' sameBehind => ?_
    refine (parallel_initialValue h).map fun value value' sameValue => ?_
    simp only [Element.map, Head.map, *]
  | symbol =>
    refine (parallel_path n).bind fun name name' sameName => ?_
    refine (parallel_trailing n).map fun behind behind' sameBehind => ?_
    simp only [Element.map, Head.map, *]
  | branch =>
    refine h.expression.bind fun guard guard' sameGuard => ?_
    refine (parallel_trailing n).bind fun behind behind' sameBehind => ?_
    refine (parallel_elements h n).bind fun body body' sameBody => ?_
    refine (parallel_otherBranches h n n rfl).bind fun others others' sameOthers => ?_
    refine parallel_closing.map fun _ _ _ => ?_
    obtain ⟨sameGuarded, sameOtherwise⟩ := Prod.mk.inj sameOthers
    simp only [Element.map, Head.map, Element.mapAll_eq, Guarded.mapAll_eq,
      Element.mapOtherwise_eq, *]
  | exemption =>
    refine h.expression.bind fun guard guard' sameGuard => ?_
    refine (parallel_trailing n).bind fun behind behind' sameBehind => ?_
    refine (parallel_elements h n).bind fun body body' sameBody => ?_
    refine (parallel_bodyAfter h n "else").bind fun otherwise otherwise' sameOtherwise => ?_
    refine parallel_closing.map fun _ _ _ => ?_
    simp only [Element.map, Head.map, Element.mapAll_eq, Element.mapOtherwise_eq, *]
  | selection =>
    refine h.expression.bind fun subject subject' sameSubject => ?_
    refine (parallel_trailing n).bind fun behind behind' sameBehind => ?_
    refine (parallel_cases h n).bind fun cases cases' sameCases => ?_
    refine (parallel_bodyAfter h n "else").bind fun otherwise otherwise' sameOtherwise => ?_
    refine parallel_closing.map fun _ _ _ => ?_
    simp only [Element.map, Head.map, Guarded.mapAll_eq, Element.mapOtherwise_eq, *]
  | check =>
    refine (parallel_trailing n).bind fun behind behind' sameBehind => ?_
    refine (parallel_elements h n).bind fun body body' sameBody => ?_
    refine (parallel_detections h n).bind fun detections detections' sameDetections => ?_
    refine (parallel_bodyAfter h n "regardless").bind fun regardless regardless' sameLast => ?_
    refine parallel_closing.map fun _ _ _ => ?_
    simp only [Element.map, Head.map, Element.mapAll_eq, Detection.mapAll_eq,
      Element.mapOtherwise_eq, *]
  | assertion =>
    refine h.expression.bind fun condition condition' sameCondition => ?_
    refine (parallel_trailing n).map fun behind behind' sameBehind => ?_
    simp only [Element.map, Head.map, *]
  | invocation =>
    refine (parallel_path n).bind fun callee callee' sameCallee => ?_
    refine (parallel_expect _).bind fun _ _ _ => ?_
    refine (parallel_arguments h n).bind fun arguments arguments' sameArguments => ?_
    refine (parallel_trailing n).map fun behind behind' sameBehind => ?_
    simp only [Element.map, Head.map, *]
  | result =>
    refine (parallel_resultValue h sameTag).bind fun value value' sameValue => ?_
    refine (parallel_trailing n).map fun behind behind' sameBehind => ?_
    simp only [Element.map, Head.map, *]
  | raising =>
    refine h.expression.bind fun error error' sameError => ?_
    refine (parallel_trailing n).map fun behind behind' sameBehind => ?_
    simp only [Element.map, Head.map, *]
  | traversal =>
    refine (parallel_path n).bind fun name name' sameName => ?_
    refine (parallel_trailing n).bind fun behind behind' sameBehind => ?_
    refine (parallel_expectText (by decide) "in").bind fun _ _ _ => ?_
    refine h.expression.bind fun iterable iterable' sameIterable => ?_
    refine (parallel_closedBody h n).map fun body body' sameBody => ?_
    simp only [Element.map, Head.map, Element.mapAll_eq, *]
  | loop kind =>
    refine h.expression.bind fun condition condition' sameCondition => ?_
    refine (parallel_trailing n).bind fun behind behind' sameBehind => ?_
    refine (parallel_closedBody h n).map fun body body' sameBody => ?_
    simp only [Element.map, Head.map, Element.mapAll_eq, *]
  | assignment =>
    refine (parallel_path n).bind fun assignee assignee' sameAssignee => ?_
    refine (parallel_trailing n).bind fun behind behind' sameBehind => ?_
    refine parallel_assignmentOperator.bind fun operator operator' sameOperator => ?_
    refine h.expression.map fun value value' sameValue => ?_
    simp only [Element.map, Head.map, *]

omit h in
/-- The same construct is chosen: the word that decides is spelled alike in every pair. -/
theorem parallel_construct (tag : String) :
    Parse.Parallel m id (construct .standard tag) (construct .standard tag) := by
  rw [construct]
  split
  · exact .done rfl
  · refine parallel_lookSecond_bind fun t t' pair => ?_
    have same : (Registry.standard.candidates tag).find? (fun c => c.second == some t.text) =
        (Registry.standard.candidates tag).find? fun c => c.second == some t'.text := by
      refine List.find?_congr fun c mem => ?_
      rw [Bool.eq_iff_iff, beq_iff_eq, beq_iff_eq]
      exact second_eq_iff_of_pair pair mem
    rw [same]
    split
    · exact .done rfl
    · exact .fail pair rfl

theorem parallel_dispatched {before before' : List Annotation}
    (sameBefore : (before.map (.map .bare) : List Annotation) = before'.map (.map .bare))
    (c : Construct) :
    Parse.Parallel m (Element.map .bare) (dispatched .standard n below before c)
      (dispatched .standard n below before' c) := by
  refine parallel_next.bind fun tag tag' sameTag => ?_
  split
  · refine (parallel_expectText (by decide) _).bind fun _ _ _ => ?_
    exact parallel_elementOf h n sameBefore sameTag c.kind
  · exact parallel_elementOf h n sameBefore sameTag c.kind

theorem parallel_element :
    Parse.Parallel m (Element.map .bare) (element .standard n below)
      (element .standard n below) := by
  refine (parallel_leading n).bind fun before before' sameBefore => ?_
  refine parallel_look_bind fun t t' pair => ?_
  have bare := m.bare pair
  rw [Token.kind_eq_of_bare bare, dispatches_eq_of_bare bare, Token.tagName_eq_of_bare bare]
  split
  · exact .fail pair rfl
  · split
    · refine (parallel_construct _).bind ?_
      rintro (_ | c) _ rfl
      · cases Registry.standard.owner? t'.tagName with
        | none => exact .fail pair rfl
        | some owner => exact .fail pair rfl
      · exact parallel_dispatched h n sameBefore c
    · exact .fail pair rfl

end Bodies

/-- Every level goes in parallel with itself. -/
theorem parallel_level (n : Nat) : (level .standard n).Parallel m := by
  induction n with
  | zero => exact Level.parallel_bottom
  | succ n ih => exact ⟨parallel_element ih n, parallel_expr ih n⟩

end Grammar

end TagLang
