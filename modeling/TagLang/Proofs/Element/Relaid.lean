import TagLang.Grammar.Unit
import TagLang.Proofs.Expr.Relaid
import TagLang.Proofs.Registry.Constructs

/-!
# Elements in another layout

Elements are parsed alike from the same tokens in another layout. A tag is looked at for its
name only, except for that of a result: whether a value follows may depend on the lines of
the tag and of the name behind it, and that these are in the same order is what `Relaid` asks
for.
-/

namespace TagLang

open Parse Stream'

namespace Registry

/-- The construct of results has one word. -/
theorem return_of_candidates {word : String} {c : Construct} (h : c ∈ standard.candidates word)
    (result : c.kind = .result) : word = "return" ∧ c.second = none := by
  have table : ∀ word ∈ openers, ∀ c ∈ standard.candidates word, c.kind = .result →
      word = "return" ∧ c.second = none := by
    decide +kernel
  exact table word (mem_openers_of_mem_candidates h) c h result

end Registry

theorem Annotation.erase_ofToken_congr {t t' : Token} (same : t.erase = t'.erase) :
    (ofToken t).erase = (ofToken t').erase := by
  obtain ⟨kind, -⟩ := Token.erase_eq_iff.mp same
  rw [ofToken, ofToken, ← kind]
  split
  · exact congrArg documentation same
  · exact congrArg named same

variable {below below' : Level} {bound n n' k : Nat} {s s' : Stream' Token}

namespace Relaid

theorem head_tagName (h : Relaid k s s') : s.head.tagName = s'.head.tagName :=
  Token.tagName_eq_of_text h.head_text

end Relaid

namespace Grammar

section Heads

variable (relaid : Relaid k s s')

include relaid

/-- A token that annotates is taken on both sides. -/
theorem agrees_annotating (annotates : s.head.kind.annotates = true) :
    (next.bind fun t => done (some (.ofToken t : Annotation))).Agrees
      (next.bind fun t => done (some (.ofToken t : Annotation))) s s'
      (Further k Annotation.erase) := by
  have ne : s.head.kind ≠ .eof := by
    intro eof
    rw [eof] at annotates
    cases annotates
  refine (relaid.agrees_next ne).map ?_
  rintro t t' u u' ⟨same, j, lt, left⟩
  refine .goes ?_ lt left
  exact Annotation.erase_ofToken_congr same

theorem agrees_leading (room : k < n) (room' : k < n') :
    (leading n).Agrees (leading n') s s' (Kept k (List.map Annotation.erase)) := by
  refine agrees_gather ?_ room room' relaid rfl
  intro j le t t' relaid
  refine agrees_look_bind ?_
  rw [← relaid.head_kind]
  split
  · rename_i annotates
    exact agrees_annotating relaid annotates
  · exact agrees_done (.stops relaid)

theorem agrees_trailing (room : k < n) (room' : k < n') :
    (trailing n).Agrees (trailing n') s s' (Kept k (List.map Annotation.erase)) := by
  refine agrees_gather ?_ room room' relaid rfl
  intro j le t t' relaid
  refine (relaid.agrees_accept (by decide)).bind ?_
  rintro colon _ u u' ⟨rfl, left⟩
  cases colon with
  | false => exact agrees_done (.stops left)
  | true =>
      obtain ⟨i, lt, left⟩ := left
      refine agrees_look_bind ?_
      rw [← left.head_kind, ← left.head_text]
      split
      · rename_i annotates
        refine (agrees_annotating left annotates).mono ?_
        rintro _ _ v v' (behind | ⟨same, less, behind⟩)
        · exact .stops (behind.mono (by omega))
        · exact .goes same (by omega) behind
      · exact agrees_fail rfl

theorem agrees_path (room : k < n) (room' : k < n') :
    (path n).Agrees (path n') s s' (Kept k Path.erase) := by
  refine (relaid.agrees_expect (by decide)).bind ?_
  rintro first first' t t' ⟨same, j, lt, left⟩
  have round : ∀ i ≤ j, ∀ u u', Relaid i u u' →
      furtherEntry.Agrees furtherEntry u u' (Further i Token.erase) := by
    intro i le u u' relaid
    refine (relaid.agrees_accept (by decide)).bind ?_
    rintro dot _ v v' ⟨rfl, left⟩
    cases dot with
    | false => exact agrees_done (.stops left)
    | true =>
        obtain ⟨m, lt, left⟩ := left
        refine (left.agrees_expect (by decide)).map ?_
        rintro name name' w w' ⟨same, m', less, left⟩
        exact .goes same (by omega) left
  refine (agrees_gather round (by omega) (by omega) left rfl).map ?_
  rintro more more' u u' ⟨sameMore, left⟩
  refine ⟨?_, left.mono (by omega)⟩
  rw [Path.erase, Path.erase, same, sameMore]

theorem agrees_parameters (room : k < n) (room' : k < n') :
    (parameters n).Agrees (parameters n') s s' (Kept k (List.map Parameter.erase)) := by
  refine (relaid.agrees_expect (by decide)).bind ?_
  rintro _ _ t t' ⟨-, j, lt, left⟩
  have one : ∀ i ≤ j, ∀ u u', Relaid i u u' →
      (parameter n).Agrees (parameter n') u u' (Kept i Parameter.erase) := by
    intro i le u u' relaid
    refine (agrees_path relaid (by omega) (by omega)).bind ?_
    rintro name name' v v' ⟨sameName, left⟩
    refine (agrees_trailing left (by omega) (by omega)).map ?_
    rintro behind behind' w w' ⟨sameBehind, left⟩
    refine ⟨?_, left⟩
    rw [Parameter.erase, Parameter.erase, sameName, sameBehind]
  refine (agrees_items one (by omega) (by omega) left).mono ?_
  rintro ps ps' u u' ⟨same, left⟩
  exact ⟨same, left.mono (by omega)⟩

theorem agrees_acceptTag (tag : String) :
    (acceptTag tag).Agrees (acceptTag tag) s s' (Further k Token.erase) := by
  refine agrees_look_bind ?_
  show (if s.head.kind == .tag && s.head.tagName == tag then next.bind fun t => done (some t)
    else done none : Parse (Option Token)).Agrees
      (if s'.head.kind == .tag && s'.head.tagName == tag then next.bind fun t => done (some t)
        else done none) s s' _
  rw [← relaid.head_kind, ← relaid.head_tagName]
  split
  · rename_i isTag
    have kind : s.head.kind = .tag := by simp_all
    refine (relaid.agrees_next (by simp [kind])).map ?_
    rintro t t' u u' ⟨same, j, lt, left⟩
    exact .goes same lt left
  · exact agrees_done (.stops relaid)

theorem agrees_assignmentOperator :
    assignmentOperator.Agrees assignmentOperator s s' (Took k Token.erase) := by
  refine agrees_look_bind ?_
  rw [← relaid.head_kind]
  split
  · rename_i assigns
    obtain ⟨m, -, same⟩ := List.any_eq_true.mp assigns
    have kind : s.head.kind = .mark m := by simpa using same
    exact relaid.agrees_next (by simp [kind])
  · exact relaid.agrees_expect (by decide)

theorem agrees_closing : closing.Agrees closing s s' (Took k Token.erase) :=
  relaid.agrees_expect (by decide)

theorem endsSequence_eq : endsSequence .standard s.head = endsSequence .standard s'.head := by
  rw [endsSequence, endsSequence, relaid.head_kind, relaid.head_tagName]

end Heads

section Bodies

variable (h : Level.Supports bound n n' below below') (lt : k < bound)

include h lt

theorem agrees_elements (relaid : Relaid k s s') :
    (elements .standard n below).Agrees (elements .standard n' below') s s'
      (Kept k (List.map Element.erase)) := by
  refine agrees_gather ?_ (Nat.lt_of_lt_of_le lt h.loop) (Nat.lt_of_lt_of_le lt h.loop') relaid rfl
  intro j le t t' relaid
  refine agrees_look_bind ?_
  show (if endsSequence .standard t.head then done none
      else below.element.bind fun e => done (some e)).Agrees
    (if endsSequence .standard t'.head then done none
      else below'.element.bind fun e => done (some e)) t t' _
  rw [← endsSequence_eq relaid]
  split
  · exact agrees_done (.stops relaid)
  · refine (h.agrees.element j (by omega) t t' relaid).map ?_
    rintro e e' u u' ⟨same, i, less, left⟩
    exact .goes same less left

theorem agrees_closedBody (relaid : Relaid k s s') :
    (closedBody .standard n below).Agrees (closedBody .standard n' below') s s'
      (Kept k (List.map Element.erase)) := by
  refine (agrees_elements h lt relaid).bind ?_
  rintro body body' t t' ⟨same, left⟩
  refine (agrees_closing left).map ?_
  rintro _ _ u u' ⟨-, j, less, left⟩
  exact ⟨same, left.mono (by omega)⟩

theorem agrees_bodyAfter (relaid : Relaid k s s') (tag : String) :
    (bodyAfter .standard n below tag).Agrees (bodyAfter .standard n' below' tag) s s'
      (Kept k Element.eraseOtherwise) := by
  refine (agrees_acceptTag relaid tag).bind ?_
  rintro _ _ t t' (left | ⟨-, less, left⟩)
  · exact agrees_done ⟨rfl, left⟩
  · refine (agrees_elements h (by omega) left).map ?_
    rintro body body' u u' ⟨same, left⟩
    refine ⟨?_, left.mono (by omega)⟩
    rw [Element.eraseOtherwise, Element.eraseOtherwise, Element.erases_eq_map,
      Element.erases_eq_map, same]

theorem agrees_guarded (relaid : Relaid k s s') {tag tag' : Token} (same : tag.erase = tag'.erase) :
    (guarded .standard n below tag).Agrees (guarded .standard n' below' tag') s s'
      (Kept k Guarded.erase) := by
  refine (h.agrees.expression lt relaid).bind ?_
  rintro guard guard' t t' ⟨sameGuard, left⟩
  refine (agrees_elements h lt left).map ?_
  rintro body body' u u' ⟨sameBody, left⟩
  refine ⟨?_, left⟩
  simp only [Guarded.erase, Element.erases_eq_map, same, sameGuard, sameBody]

/-- Further branches begin with a tag each, so none is read behind the last token. -/
theorem agrees_otherBranches (relaid : Relaid k s s') {i i' : Nat} (room : k < i) (room' : k < i')
    {gathered gathered' : List Guarded}
    (same : gathered.map Guarded.erase = gathered'.map Guarded.erase) :
    (otherBranches .standard n below i gathered).Agrees
      (otherBranches .standard n' below' i' gathered') s s'
      (Kept k fun x => (x.1.map Guarded.erase, Element.eraseOtherwise x.2)) := by
  induction k using Nat.strongRecOn generalizing i i' gathered gathered' s s' with
  | ind k ih =>
      obtain ⟨i, rfl⟩ : ∃ m, i = m + 1 := ⟨i - 1, by omega⟩
      obtain ⟨i', rfl⟩ : ∃ m, i' = m + 1 := ⟨i' - 1, by omega⟩
      have sameAll : gathered.reverse.map Guarded.erase = gathered'.reverse.map Guarded.erase := by
        rw [List.map_reverse, List.map_reverse, same]
      refine (agrees_acceptTag relaid "else").bind ?_
      rintro _ _ t t' (left | ⟨-, less, left⟩)
      · exact agrees_done ⟨congrArg (·, none) sameAll, left⟩
      · refine (agrees_acceptTag left "if").bind ?_
        rintro _ _ u u' (left | ⟨sameTag, lesser, left⟩)
        · refine (agrees_elements h (by omega) left).map ?_
          rintro body body' v v' ⟨sameBody, left⟩
          refine ⟨?_, left.mono (by omega)⟩
          simp only [Element.eraseOtherwise, Element.erases_eq_map, sameAll, sameBody]
        · refine (agrees_guarded h (by omega) left sameTag).bind ?_
          rintro branch branch' v v' ⟨sameBranch, left⟩
          refine (ih _ (by omega) (by omega) left (by omega) (by omega) ?_).mono ?_
          · rw [List.map_cons, List.map_cons, sameBranch, same]
          · rintro x x' w w' ⟨sameWhole, left⟩
            exact ⟨sameWhole, left.mono (by omega)⟩

theorem agrees_cases (relaid : Relaid k s s') :
    (gather (selectionCase .standard n below) n []).Agrees
      (gather (selectionCase .standard n' below') n' []) s s' (Kept k (List.map Guarded.erase)) := by
  have round : ∀ j ≤ k, ∀ t t', Relaid j t t' →
      (selectionCase .standard n below).Agrees (selectionCase .standard n' below') t t'
        (Further j Guarded.erase) := by
    intro j le t t' relaid
    refine (agrees_acceptTag relaid "where").bind ?_
    rintro _ _ u u' (left | ⟨sameTag, less, left⟩)
    · exact agrees_done (.stops left)
    · refine (agrees_guarded h (by omega) left sameTag).map ?_
      rintro g g' v v' ⟨same, left⟩
      exact .goes same less left
  exact agrees_gather round (Nat.lt_of_lt_of_le lt h.loop) (Nat.lt_of_lt_of_le lt h.loop') relaid rfl

theorem agrees_detections (relaid : Relaid k s s') :
    (gather (detection .standard n below) n []).Agrees
      (gather (detection .standard n' below') n' []) s s' (Kept k (List.map Detection.erase)) := by
  have loop := h.loop
  have loop' := h.loop'
  have round : ∀ j ≤ k, ∀ t t', Relaid j t t' →
      (detection .standard n below).Agrees (detection .standard n' below') t t'
        (Further j Detection.erase) := by
    intro j le t t' relaid
    refine (agrees_acceptTag relaid "detect").bind ?_
    rintro _ _ u u' (left | ⟨sameTag, less, left⟩)
    · exact agrees_done (.stops left)
    · refine (agrees_path left (by omega) (by omega)).bind ?_
      rintro name name' v v' ⟨sameName, left⟩
      refine (agrees_trailing left (by omega) (by omega)).bind ?_
      rintro behind behind' w w' ⟨sameBehind, left⟩
      refine (agrees_elements h (by omega) left).map ?_
      rintro body body' x x' ⟨sameBody, left⟩
      refine .goes ?_ less left
      simp only [Detection.erase, Element.erases_eq_map, sameTag, sameName, sameBehind,
        sameBody]
  exact agrees_gather round (by omega) (by omega) relaid rfl

theorem agrees_initialValue (relaid : Relaid k s s') :
    (initialValue below).Agrees (initialValue below') s s' (Kept k (Option.map Expr.erase)) := by
  refine (relaid.agrees_accept (by decide)).bind ?_
  rintro equals _ t t' ⟨rfl, left⟩
  cases equals with
  | false => exact agrees_done ⟨rfl, left⟩
  | true =>
      obtain ⟨j, less, left⟩ := left
      refine (h.agrees.expression (by omega) left).map ?_
      rintro e e' u u' ⟨same, left⟩
      exact ⟨congrArg some same, left.mono (by omega)⟩

omit h lt in
/-- Behind the tag of a result, the lines of the tag and of a name are compared. -/
theorem agrees_annotatedElementNext (relaid : Relaid k s s') {tag tag' : Token}
    (later : s.head.kind = .identifier →
      (tag.position.line < s.head.position.line ↔ tag'.position.line < s'.head.position.line)) :
    (annotatedElementNext .standard tag).Agrees (annotatedElementNext .standard tag') s s'
      (Kept k id) := by
  refine agrees_look_bind ?_
  have same : (s.head.kind = .identifier ∧ tag.position.line < s.head.position.line) ↔
      (s'.head.kind = .identifier ∧ tag'.position.line < s'.head.position.line) := by
    rw [← relaid.head_kind]
    exact and_congr_right later
  by_cases name : s.head.kind = .identifier ∧ tag.position.line < s.head.position.line
  · rw [if_pos name, if_pos (same.mp name)]
    refine agrees_lookSecond_bind (agrees_done ⟨?_, relaid⟩)
    simp only [Registry.isConstructTag, Registry.dispatches, relaid.tail.head_kind,
      relaid.tail.head_tagName]
  · rw [if_neg name, if_neg (mt same.mpr name)]
    exact agrees_done ⟨rfl, relaid⟩

theorem agrees_resultValue (relaid : Relaid k s s') {tag tag' : Token}
    (later : s.head.kind = .identifier →
      (tag.position.line < s.head.position.line ↔ tag'.position.line < s'.head.position.line)) :
    (resultValue .standard below tag).Agrees (resultValue .standard below' tag') s s'
      (Kept k (Option.map Expr.erase)) := by
  refine agrees_look_bind ?_
  show (if (Registry.standard.start? s.head.kind).isSome then _ else _ :
      Parse (Option Expr)).Agrees
    (if (Registry.standard.start? s'.head.kind).isSome then _ else _ : Parse (Option Expr)) s s' _
  rw [← relaid.head_kind]
  split
  · refine (agrees_annotatedElementNext relaid later).bind ?_
    rintro annotated annotated' t t' ⟨same, left⟩
    cases same
    cases annotated with
    | true => exact agrees_done ⟨rfl, left⟩
    | false =>
        refine (h.agrees.expression lt left).map ?_
        rintro e e' u u' ⟨same, left⟩
        exact ⟨congrArg some same, left⟩
  · exact agrees_done ⟨rfl, relaid⟩

/-- What follows a tag is parsed alike on both sides, but for a result, the lines of tokens
making no difference. -/
theorem keeps_elementOf {before before' : List Annotation} {tag tag' : Token} {kind : ElementKind}
    (sameBefore : before.map Annotation.erase = before'.map Annotation.erase)
    (sameTag : tag.erase = tag'.erase) (other : kind ≠ .result) :
    Keeps k Element.erase (elementOf .standard n below before tag kind)
      (elementOf .standard n' below' before' tag' kind) := by
  have room : k < n := Nat.lt_of_lt_of_le lt h.loop
  have room' : k < n' := Nat.lt_of_lt_of_le lt h.loop'
  have path : Keeps k Path.erase (path n) (path n') := fun _ _ relaid =>
    agrees_path relaid room room'
  have trailing : Keeps k (List.map Annotation.erase) (trailing n) (trailing n') :=
    fun _ _ relaid => agrees_trailing relaid room room'
  have expression : Keeps k Expr.erase below.expression below'.expression := fun _ _ =>
    h.agrees.expression lt
  have elements : Keeps k (List.map Element.erase) (elements .standard n below)
      (elements .standard n' below') := fun _ _ => agrees_elements h lt
  have closed : Keeps k (List.map Element.erase) (closedBody .standard n below)
      (closedBody .standard n' below') := fun _ _ => agrees_closedBody h lt
  have after (tag : String) : Keeps k Element.eraseOtherwise (bodyAfter .standard n below tag)
      (bodyAfter .standard n' below' tag) := fun _ _ relaid => agrees_bodyAfter h lt relaid tag
  have closing : Keeps k Token.erase closing closing := .of_took fun _ _ => agrees_closing
  cases kind with
  | scope kind =>
    refine path.bind fun name name' sameName => ?_
    refine trailing.bind fun behind behind' sameBehind => ?_
    refine closed.map fun body body' sameBody => ?_
    simp only [Element.erase, Head.erase, Element.erases_eq_map, *]
  | callable kind =>
    have parameters : Keeps k (List.map Parameter.erase) (parameters n) (parameters n') :=
      fun _ _ relaid => agrees_parameters relaid room room'
    refine path.bind fun name name' sameName => ?_
    refine parameters.bind fun parameters parameters' sameParameters => ?_
    refine trailing.bind fun behind behind' sameBehind => ?_
    refine closed.map fun body body' sameBody => ?_
    simp only [Element.erase, Head.erase, Element.erases_eq_map, *]
  | binding kind =>
    have initial : Keeps k (Option.map Expr.erase) (initialValue below) (initialValue below') :=
      fun _ _ => agrees_initialValue h lt
    refine path.bind fun name name' sameName => ?_
    refine trailing.bind fun behind behind' sameBehind => ?_
    refine initial.map fun value value' sameValue => ?_
    simp only [Element.erase, Head.erase, *]
  | symbol =>
    refine path.bind fun name name' sameName => ?_
    refine trailing.map fun behind behind' sameBehind => ?_
    simp only [Element.erase, Head.erase, *]
  | branch =>
    have others : Keeps k (fun x => (x.1.map Guarded.erase, Element.eraseOtherwise x.2))
        (otherBranches .standard n below n []) (otherBranches .standard n' below' n' []) :=
      fun _ _ relaid => agrees_otherBranches h lt relaid room room' rfl
    refine expression.bind fun guard guard' sameGuard => ?_
    refine trailing.bind fun behind behind' sameBehind => ?_
    refine elements.bind fun body body' sameBody => ?_
    refine others.bind fun others others' sameOthers => closing.map fun _ _ _ => ?_
    obtain ⟨sameGuarded, sameOtherwise⟩ := Prod.mk.inj sameOthers
    simp only [Element.erase, Head.erase, Element.erases_eq_map, Element.eraseGuarded_eq_map, *]
  | exemption =>
    refine expression.bind fun guard guard' sameGuard => ?_
    refine trailing.bind fun behind behind' sameBehind => ?_
    refine elements.bind fun body body' sameBody => ?_
    refine (after "else").bind fun otherwise otherwise' sameOtherwise => ?_
    refine closing.map fun _ _ _ => ?_
    simp only [Element.erase, Head.erase, Element.erases_eq_map, *]
  | selection =>
    have cases : Keeps k (List.map Guarded.erase) (gather (selectionCase .standard n below) n [])
        (gather (selectionCase .standard n' below') n' []) := fun _ _ => agrees_cases h lt
    refine expression.bind fun subject subject' sameSubject => ?_
    refine trailing.bind fun behind behind' sameBehind => ?_
    refine cases.bind fun cases cases' sameCases => ?_
    refine (after "else").bind fun otherwise otherwise' sameOtherwise => ?_
    refine closing.map fun _ _ _ => ?_
    simp only [Element.erase, Head.erase, Element.eraseGuarded_eq_map, *]
  | check =>
    have detections : Keeps k (List.map Detection.erase)
        (gather (detection .standard n below) n []) (gather (detection .standard n' below') n' []) :=
      fun _ _ => agrees_detections h lt
    refine trailing.bind fun behind behind' sameBehind => ?_
    refine elements.bind fun body body' sameBody => ?_
    refine detections.bind fun detections detections' sameDetections => ?_
    refine (after "regardless").bind fun regardless regardless' sameRegardless => ?_
    refine closing.map fun _ _ _ => ?_
    simp only [Element.erase, Head.erase, Element.erases_eq_map, Element.eraseDetections_eq_map, *]
  | assertion =>
    refine expression.bind fun condition condition' sameCondition => ?_
    refine trailing.map fun behind behind' sameBehind => ?_
    simp only [Element.erase, Head.erase, *]
  | invocation =>
    have opening : Keeps k Token.erase (expect (.mark .openParen)) (expect (.mark .openParen)) :=
      .of_took fun _ _ relaid => relaid.agrees_expect (by decide)
    have arguments : Keeps k (List.map Expr.erase) (arguments n below) (arguments n' below') :=
      fun _ _ => agrees_arguments h lt
    refine path.bind fun callee callee' sameCallee => opening.bind fun _ _ _ => ?_
    refine arguments.bind fun arguments arguments' sameArguments => ?_
    refine trailing.map fun behind behind' sameBehind => ?_
    simp only [Element.erase, Head.erase, *]
  | result => exact absurd rfl other
  | raising =>
    refine expression.bind fun error error' sameError => ?_
    refine trailing.map fun behind behind' sameBehind => ?_
    simp only [Element.erase, Head.erase, *]
  | traversal =>
    have within : Keeps k Token.erase (expectText .identifier "in") (expectText .identifier "in") :=
      .of_took fun _ _ relaid => relaid.agrees_expectText (by decide)
    refine path.bind fun name name' sameName => ?_
    refine trailing.bind fun behind behind' sameBehind => within.bind fun _ _ _ => ?_
    refine expression.bind fun iterable iterable' sameIterable => ?_
    refine closed.map fun body body' sameBody => ?_
    simp only [Element.erase, Head.erase, Element.erases_eq_map, *]
  | loop kind =>
    refine expression.bind fun condition condition' sameCondition => ?_
    refine trailing.bind fun behind behind' sameBehind => ?_
    refine closed.map fun body body' sameBody => ?_
    simp only [Element.erase, Head.erase, Element.erases_eq_map, *]
  | assignment =>
    have operator : Keeps k Token.erase assignmentOperator assignmentOperator :=
      .of_took fun _ _ => agrees_assignmentOperator
    refine path.bind fun assignee assignee' sameAssignee => ?_
    refine trailing.bind fun behind behind' sameBehind => ?_
    refine operator.bind fun operator operator' sameOperator => ?_
    refine expression.map fun value value' sameValue => ?_
    simp only [Element.erase, Head.erase, *]

/-- What follows a tag is parsed alike on both sides, if for a result the lines of the tag and
of a name behind it are in the same order. -/
theorem agrees_elementOf (relaid : Relaid k s s') {before before' : List Annotation}
    {tag tag' : Token} {kind : ElementKind}
    (sameBefore : before.map Annotation.erase = before'.map Annotation.erase)
    (sameTag : tag.erase = tag'.erase)
    (later : kind = .result → s.head.kind = .identifier →
      (tag.position.line < s.head.position.line ↔ tag'.position.line < s'.head.position.line)) :
    (elementOf .standard n below before tag kind).Agrees
      (elementOf .standard n' below' before' tag' kind) s s' (Kept k Element.erase) := by
  by_cases result : kind = .result
  · subst result
    have room : k < n := Nat.lt_of_lt_of_le lt h.loop
    have room' : k < n' := Nat.lt_of_lt_of_le lt h.loop'
    refine (agrees_resultValue h lt relaid (later rfl)).bind ?_
    rintro value value' t t' ⟨sameValue, left⟩
    refine (agrees_trailing left room room').map ?_
    rintro behind behind' u u' ⟨sameBehind, left⟩
    refine ⟨?_, left⟩
    simp only [Element.erase, Head.erase, *]
  · exact keeps_elementOf h lt sameBefore sameTag result s s' relaid

end Bodies

/-- The same construct is chosen, one that the tag may begin, and no token is taken. -/
theorem agrees_construct (relaid : Relaid k s s') (tag : String) :
    (construct .standard tag).Agrees (construct .standard tag) s s' fun c c' t t' =>
      c = c' ∧ t = s ∧ t' = s' ∧ ∀ d ∈ c, d ∈ Registry.standard.candidates tag := by
  rw [construct]
  split
  · refine agrees_done ⟨rfl, rfl, rfl, fun d hd => List.mem_of_mem_head? hd⟩
  · refine agrees_lookSecond_bind ?_
    rw [← relaid.tail.head_text]
    split
    · rename_i c found
      refine agrees_done ⟨rfl, rfl, rfl, ?_⟩
      rintro _ ⟨rfl⟩
      rcases Option.or_eq_some_iff.mp found with first | ⟨-, second⟩
      · exact List.mem_of_find?_eq_some first
      · exact List.mem_of_find?_eq_some second
    · exact agrees_fail rfl

theorem agrees_dispatched (h : Level.Supports bound n n' below below') (le : k ≤ bound)
    (relaid : Relaid k s s') (dispatches : Registry.dispatches s.head = true)
    {before before' : List Annotation} {c : Construct}
    (mem : c ∈ Registry.standard.candidates s.head.tagName)
    (sameBefore : before.map Annotation.erase = before'.map Annotation.erase) :
    (dispatched .standard n below before c).Agrees (dispatched .standard n' below' before' c) s s'
      (Took k Element.erase) := by
  have ne : s.head.kind ≠ .eof := by
    intro eof
    simp [Registry.dispatches, eof, TokenKind.isKeyword] at dispatches
  obtain ⟨j, less, left⟩ := relaid.exists_lt_tail ne
  have took {e e' : Element} {t t' : Stream' Token} (kept : Kept j Element.erase e e' t t') :
      Took k Element.erase e e' t t' := ⟨kept.1, j, less, kept.2⟩
  refine agrees_next_bind ?_
  cases second : c.second with
  | some word =>
      refine (left.agrees_expectText (by decide)).bind ?_
      rintro _ _ t t' ⟨-, i, lesser, left⟩
      have other : c.kind ≠ .result := by
        intro result
        have none := (Registry.return_of_candidates mem result).2
        rw [second] at none
        cases none
      refine (agrees_elementOf h (by omega) left sameBefore (relaid.erase 0)
        fun result => absurd result other).mono ?_
      rintro e e' u u' ⟨same, left⟩
      exact took ⟨same, left.mono (by omega)⟩
  | none =>
      refine (agrees_elementOf h (by omega) left sameBefore (relaid.erase 0) ?_).mono
        fun _ _ _ _ => took
      intro result name
      exact relaid.later 0 (Registry.return_of_candidates mem result).1 name

theorem agrees_element (h : Level.Supports bound n n' below below') (room : k < n)
    (room' : k < n') (le : k ≤ bound) (relaid : Relaid k s s') :
    (element .standard n below).Agrees (element .standard n' below') s s' (Took k Element.erase) := by
  refine (agrees_leading relaid room room').bind ?_
  rintro before before' t t' ⟨sameBefore, left⟩
  refine agrees_look_bind ?_
  have sameDispatch : Registry.dispatches t.head = Registry.dispatches t'.head := by
    rw [Registry.dispatches, Registry.dispatches, left.head_kind]
  rw [← sameDispatch, ← left.head_kind, ← left.head_text, ← left.head_tagName]
  split
  · exact agrees_fail rfl
  · split
    · rename_i dispatches
      refine (agrees_construct left _).bind ?_
      rintro c _ u u' ⟨rfl, rfl, rfl, mem⟩
      cases c with
      | some c => exact agrees_dispatched h le left dispatches (mem c rfl) sameBefore
      | none =>
          cases Registry.standard.owner? u.head.tagName with
          | some owner => exact agrees_fail rfl
          | none => exact agrees_fail rfl
    · exact agrees_fail rfl

/-- Levels of any heights agree where there are fewer tokens before the end than levels below
them. -/
theorem agrees_level (n n' : Nat) :
    (level .standard n).Agrees (min n n' - 1) (level .standard n') := by
  induction n generalizing n' with
  | zero => exact ⟨fun k lt => by omega, fun k lt => by omega⟩
  | succ n ih =>
      cases n' with
      | zero => exact ⟨fun k lt => by omega, fun k lt => by omega⟩
      | succ n' =>
          have supports : Level.Supports (min n n' - 1) n n' (level .standard n)
              (level .standard n') := ⟨ih n', by omega, by omega⟩
          refine ⟨?_, ?_⟩
          · intro k lt s s' relaid
            exact agrees_element supports (by omega) (by omega) (by omega) relaid
          · intro k lt power s s' relaid
            exact agrees_expr supports (by omega) (by omega) (by omega) relaid power

end Grammar

end TagLang
