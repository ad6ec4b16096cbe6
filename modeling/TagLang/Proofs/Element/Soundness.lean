import TagLang.Proofs.Element.Written
import TagLang.Proofs.Expr.Soundness

/-!
# What the parser of elements accepts

Whatever tokens are ahead, an element that is returned is well formed and its pieces
cover the tokens taken: no handler drops, repeats, reorders or invents a token. Handlers
parse bodies one level below, so the handlers of one level are sound if the level below
is, and each handler's contract is put together from those of its parts.
-/

namespace TagLang

open Parse

variable {s t u : Stream' Token} {n : Nat} {below : Level} {tag : String}

/-- An expression is covered by its pieces. -/
theorem Level.ReadsExpr.expression (sound : below.ReadsExpr) (s : Stream' Token) :
    below.expression.Ensures s fun e t => e.WellFormed ∧ Piece.Covers e.pieces s t := by
  refine (sound.required .loosest s).mono ?_
  rintro e t ⟨w, rfl, read, -⟩
  exact ⟨read.wellFormed, read.reads.covers.congr w.plain_pieces⟩

/-- Elements and expressions of this level are read as they are written. -/
structure Level.Sound (l : Level) : Prop where
  expr : l.ReadsExpr
  element : ∀ s, l.element.Ensures s fun e t =>
    e.WellFormed ∧ e.first = s.head ∧ Piece.Covers e.pieces s t

namespace Grammar

section Loops

variable {α : Type} {chain : List Piece → Stream' Token → Stream' Token → Prop}
  {p : Parse (Option α)}

/-- A loop whose rounds read the pieces of what they yield reads the pieces of all that it
gathers. -/
theorem ensures_gather_chain (shape : α → List Piece) (good : α → Prop)
    (refl : ∀ s, chain [] s s)
    (append : ∀ ps qs s t u, chain ps s t → chain qs t u → chain (ps ++ qs) s u)
    (round : ∀ s, p.Ensures s fun o t =>
      match o with
      | none => s = t
      | some a => good a ∧ chain (shape a) s t)
    (n : Nat) (s : Stream' Token) :
    (gather p n []).Ensures s fun as t => (∀ a ∈ as, good a) ∧ chain (as.flatMap shape) s t := by
  refine ensures_gather (fun gathered t => (∀ a ∈ gathered, good a) ∧
    chain (gathered.reverse.flatMap shape) s t) ?_ n ⟨by simp, refl s⟩
  rintro gathered t ⟨all, read⟩
  refine (round t).mono ?_
  intro o u h
  cases o with
  | none =>
      cases h
      exact ⟨by simpa using all, read⟩
  | some a =>
      refine ⟨List.forall_mem_cons.mpr ⟨h.1, all⟩, ?_⟩
      rw [List.reverse_cons, List.flatMap_append, List.flatMap_singleton]
      exact append _ _ _ _ _ read h.2

theorem ensures_gather_reads (shape : α → List Piece) (good : α → Prop)
    (round : ∀ s, p.Ensures s fun o t =>
      match o with
      | none => s = t
      | some a => good a ∧ Piece.Reads (shape a) s t)
    (n : Nat) (s : Stream' Token) :
    (gather p n []).Ensures s fun as t =>
      (∀ a ∈ as, good a) ∧ Piece.Reads (as.flatMap shape) s t :=
  ensures_gather_chain shape good (fun _ => rfl) (fun _ _ _ _ _ => .append) round n s

theorem ensures_gather_covers (shape : α → List Piece) (good : α → Prop)
    (round : ∀ s, p.Ensures s fun o t =>
      match o with
      | none => s = t
      | some a => good a ∧ Piece.Covers (shape a) s t)
    (n : Nat) (s : Stream' Token) :
    (gather p n []).Ensures s fun as t =>
      (∀ a ∈ as, good a) ∧ Piece.Covers (as.flatMap shape) s t :=
  ensures_gather_chain shape good (fun _ => .refl) (fun _ _ _ _ _ => .append) round n s

end Loops

section Heads

/-- What annotates is a well-formed annotation. -/
theorem wellFormed_ofToken {x : Token} (h : x.kind.annotates = true) :
    ( Annotation.ofToken x).WellFormed := by
  unfold Annotation.ofToken
  split
  · assumption
  · cases hk : x.kind <;> simp_all [TokenKind.annotates, Annotation.WellFormed]

theorem ne_eof_of_annotates {x : Token} (h : x.kind.annotates = true) : x.kind ≠ .eof := by
  intro eof
  rw [eof] at h
  cases h

theorem ensures_leading (n : Nat) (s : Stream' Token) :
    (leading n).Ensures s fun as t =>
      (∀ a ∈ as, a.WellFormed) ∧ Piece.Reads (Piece.leading as) s t := by
  have loop := ensures_gather_reads (fun a : Annotation => [Piece.held a.token])
    Annotation.WellFormed (p := leadingOne) ?_ n s
  · refine loop.mono ?_
    rintro as t ⟨all, reads⟩
    refine ⟨all, ?_⟩
    rwa [Piece.leading, List.map_eq_flatMap]
  · intro s
    simp only [leadingOne, bind_eq, ensures_bind, ensures_look]
    split
    · rename_i annotates
      refine ensures_bind.mpr (ensures_next.mpr (ensures_done.mpr ⟨wellFormed_ofToken annotates, ?_⟩))
      rw [ Annotation.token_ofToken]
      exact ⟨Piece.fits_held (ne_eof_of_annotates annotates), rfl⟩
    · exact ensures_done.mpr rfl

theorem ensures_trailing (n : Nat) (s : Stream' Token) :
    (trailing n).Ensures s fun as t =>
      (∀ a ∈ as, a.WellFormed) ∧ Piece.Reads (Piece.trailing as) s t := by
  refine ensures_gather_reads _ Annotation.WellFormed ?_ n s
  intro s
  simp only [trailingOne, bind_eq, ensures_bind, ensures_accept]
  split
  · rename_i colon
    simp only [if_true, ensures_bind, ensures_look]
    split
    · rename_i annotates
      refine ensures_bind.mpr (ensures_next.mpr (ensures_done.mpr ⟨wellFormed_ofToken annotates, ?_⟩))
      rw [ Annotation.token_ofToken]
      exact ⟨Piece.fits_mark colon, Piece.fits_held (ne_eof_of_annotates annotates), rfl⟩
    · exact ensures_fail
  · exact ensures_done.mpr rfl

theorem ensures_path (n : Nat) (s : Stream' Token) :
    (path n).Ensures s fun p t => p.WellFormed ∧ Piece.Reads p.pieces s t := by
  simp only [path, bind_eq, ensures_bind, ensures_expect]
  intro first
  refine (ensures_gather_reads (fun t => [Piece.mark .dot, Piece.held t])
    (fun t => t.kind = .identifier) ?_ n s.tail).mono ?_
  · intro s
    simp only [furtherEntry, bind_eq, ensures_bind, ensures_accept]
    split
    · rename_i dot
      simp only [if_true, ensures_bind, ensures_expect]
      intro entry
      exact ensures_done.mpr ⟨entry, Piece.fits_mark dot, Piece.fits_held (by rw [entry]; decide), rfl⟩
    · exact ensures_done.mpr rfl
  · rintro more t ⟨all, reads⟩
    refine ensures_done.mpr ⟨List.forall_mem_cons.mpr ⟨first, all⟩, ?_, reads⟩
    exact Piece.fits_held (by rw [first]; decide)

theorem ensures_parameters (n : Nat) (s : Stream' Token) :
    (parameters n).Ensures s fun ps t =>
      (∀ p ∈ ps, p.WellFormed) ∧ Piece.Reads (Parameter.listPieces ps) s t := by
  simp only [parameters, bind_eq, ensures_bind, ensures_expect]
  intro opened
  refine (ensures_items id Parameter.pieces Parameter.WellFormed ?_ n s.tail).mono ?_
  · intro s
    simp only [parameter, bind_eq, ensures_bind]
    refine (ensures_path n s).mono ?_
    rintro name t ⟨wf, reads⟩
    refine (ensures_trailing n t).mono ?_
    rintro behind u ⟨all, readsBehind⟩
    exact ensures_done.mpr ⟨_, rfl, ⟨wf, all⟩, reads.append readsBehind⟩
  · rintro ps t ⟨_, rfl, all, reads⟩
    rw [List.map_id]
    exact ⟨all, Piece.fits_mark opened, reads⟩

end Heads

section Bodies

theorem ensures_acceptTag (tag : String) (s : Stream' Token) :
    (acceptTag tag).Ensures s fun o t =>
      match o with
      | none => s = t ∧ ¬ s.head.IsTag tag
      | some x => s.head = x ∧ x.IsTag tag ∧ s.tail = t := by
  simp only [acceptTag, nextIsTag, bind_eq, ensures_bind, ensures_look, pure_eq, ensures_done]
  split
  · rename_i found
    simp only [ensures_bind, ensures_next, ensures_done]
    exact ⟨trivial, by simpa [Token.IsTag] using found, trivial⟩
  · rename_i other
    exact ensures_done.mpr ⟨rfl, by simpa [Token.IsTag] using other⟩

theorem fits_tag {x : Token} (h : x.IsTag tag) : (Piece.tag tag).Fits x :=
  ⟨by rw [h.1]; decide, h⟩

theorem fits_held_tag {x : Token} (h : x.IsTag tag) : (Piece.held x).Fits x :=
  Piece.fits_held (by rw [h.1]; decide)

/-- Elements are read one after another. The first of them begins with the first token. -/
theorem ensures_elements (sound : below.Sound) (n : Nat) (s : Stream' Token) :
    (elements .standard n below).Ensures s fun es t => Element.AllWellFormed es ∧
      Piece.Covers (Element.bodyPieces es) s t ∧ ∀ e ∈ es.head?, e.first = s.head := by
  refine ensures_gather (fun gathered t => (∀ e ∈ gathered, e.WellFormed) ∧
    Piece.Covers (gathered.reverse.flatMap Element.pieces) s t ∧ (gathered = [] → s = t) ∧
    ∀ e ∈ gathered.getLast?, e.first = s.head) ?_ n ?_
  · rintro gathered t ⟨all, covers, none, first⟩
    simp only [furtherElement, atSequenceEnd, bind_eq, ensures_bind, ensures_look, pure_eq,
      ensures_done]
    split
    · refine ensures_done.mpr ⟨?_, ?_, ?_⟩
      · exact Element.allWellFormed_iff.mpr (by simpa using all)
      · rwa [Element.bodyPieces_eq]
      · rwa [List.head?_reverse]
    · simp only [ensures_bind]
      refine (sound.element t).mono ?_
      rintro e u ⟨wf, begins, read⟩
      refine ensures_done.mpr ⟨List.forall_mem_cons.mpr ⟨wf, all⟩, ?_, by simp, ?_⟩
      · rw [List.reverse_cons, List.flatMap_append, List.flatMap_singleton]
        exact covers.append read
      · cases gathered with
        | nil =>
            cases none rfl
            simpa using begins
        | cons a as => simpa [List.getLast?_cons_cons] using first
  · exact ⟨by simp, .refl, fun _ => rfl, by simp⟩

theorem ensures_closing (s : Stream' Token) :
    closing.Ensures s fun _ t => Piece.Reads [.word .endWord] s t := by
  refine ensures_expect.mpr fun closed => ⟨⟨by rw [closed]; decide, closed⟩, rfl⟩

theorem ensures_closedBody (sound : below.Sound) (n : Nat) (s : Stream' Token) :
    (closedBody .standard n below).Ensures s fun es t => Element.AllWellFormed es ∧
      Piece.Covers (Element.bodyPieces es ++ [.word .endWord]) s t := by
  simp only [closedBody, bind_eq, ensures_bind]
  refine (ensures_elements sound n s).mono ?_
  rintro es t ⟨wf, covers, -⟩
  refine (ensures_closing t).mono ?_
  intro _ u closed
  exact ensures_done.mpr ⟨wf, covers.append closed.covers⟩

theorem ensures_bodyAfter (sound : below.Sound) (n : Nat) (tag : String) (s : Stream' Token) :
    (bodyAfter .standard n below tag).Ensures s fun o t => Element.OtherwiseWellFormed o ∧
      Piece.Covers (Element.bodyPiecesAfter tag o) s t := by
  simp only [bodyAfter, bind_eq, ensures_bind]
  refine (ensures_acceptTag tag s).mono ?_
  intro o t found
  cases o with
  | none =>
      cases found.1
      exact ensures_done.mpr ⟨trivial, .refl⟩
  | some x =>
      obtain ⟨rfl, tagged, rfl⟩ := found
      simp only [ensures_bind]
      refine (ensures_elements sound n s.tail).mono ?_
      rintro es t ⟨wf, covers, -⟩
      exact ensures_done.mpr ⟨wf, Piece.Covers.cons (fits_tag tagged) covers⟩

/-- A guarded body is read behind its tag. -/
theorem ensures_guarded (sound : below.Sound) (n : Nat) (x : Token) (s : Stream' Token) :
    (guarded .standard n below x).Ensures s fun g t => ∃ guard body, g = .mk x guard body ∧
      guard.WellFormed ∧ Element.AllWellFormed body ∧
      Piece.Covers (guard.pieces ++ Element.bodyPieces body) s t := by
  simp only [guarded, bind_eq, ensures_bind]
  refine (sound.expr.expression s).mono ?_
  rintro guard t ⟨wf, covers⟩
  refine (ensures_elements sound n t).mono ?_
  rintro body u ⟨wfBody, coversBody, -⟩
  exact ensures_done.mpr ⟨guard, body, rfl, wf, wfBody, covers.append coversBody⟩

/-- The branches behind the first one are read behind an auxiliary tag and a tag each. The
body for the case that no guard holds does not begin as a further branch does. -/
theorem ensures_otherBranches (sound : below.Sound) (n k : Nat) (gathered : List Guarded)
    (s : Stream' Token) :
    (otherBranches .standard n below k gathered).Ensures s fun r t =>
      ∃ more, r.1 = gathered.reverse ++ more ∧ Element.AllGuarded "if" more ∧
        Element.OtherwiseWellFormed r.2 ∧
        (∀ es ∈ r.2, ∀ e ∈ es.head?, ¬ e.first.IsTag "if") ∧
        Piece.Covers (Element.guardedPieces [.tag "else"] more ++
          Element.bodyPiecesAfter "else" r.2) s t := by
  induction k generalizing gathered s with
  | zero => exact ensures_refuse
  | succ k ih =>
      simp only [otherBranches, bind_eq, ensures_bind]
      refine (ensures_acceptTag "else" s).mono ?_
      intro o t found
      cases o with
      | none =>
          cases found.1
          exact ensures_done.mpr ⟨[], by simp, trivial, trivial, by simp, .refl⟩
      | some x =>
          obtain ⟨rfl, isElse, rfl⟩ := found
          simp only [ensures_bind]
          refine (ensures_acceptTag "if" s.tail).mono ?_
          intro o t found
          cases o with
          | none =>
              obtain ⟨rfl, other⟩ := found
              simp only [ensures_bind]
              refine (ensures_elements sound n s.tail).mono ?_
              rintro es t ⟨wf, covers, first⟩
              refine ensures_done.mpr ⟨[], by simp, trivial, wf, ?_, ?_⟩
              · rintro _ ⟨rfl⟩ e he
                rwa [first e he]
              · exact Piece.Covers.cons (fits_tag isElse) covers
          | some y =>
              obtain ⟨rfl, isIf, rfl⟩ := found
              simp only [ensures_bind]
              refine (ensures_guarded sound n s.tail.head s.tail.tail).mono ?_
              rintro _ t ⟨guard, body, rfl, wf, wfBody, covers⟩
              refine (ih _ t).mono ?_
              rintro r u ⟨more, same, all, otherwise, apart, coversMore⟩
              refine ⟨.mk s.tail.head guard body :: more, by simp [same], ⟨isIf, wf, wfBody, all⟩,
                otherwise, apart, ?_⟩
              have read := Piece.Covers.cons (fits_tag isElse)
                (Piece.Covers.cons (fits_held_tag isIf) (covers.append coversMore))
              simpa [Element.guardedPieces] using read

theorem ensures_cases (sound : below.Sound) (n : Nat) (s : Stream' Token) :
    (gather (selectionCase .standard n below) n []).Ensures s fun gs t =>
      Element.AllGuarded "where" gs ∧ Piece.Covers (Element.guardedPieces [] gs) s t := by
  refine (ensures_gather_covers (fun g => Element.guardedPieces [] [g])
    (fun g => Element.AllGuarded "where" [g]) ?_ n s).mono ?_
  · intro s
    simp only [selectionCase, bind_eq, ensures_bind]
    refine (ensures_acceptTag "where" s).mono ?_
    intro o t found
    cases o with
    | none => exact ensures_done.mpr found.1
    | some x =>
        obtain ⟨rfl, tagged, rfl⟩ := found
        simp only [ensures_bind]
        refine (ensures_guarded sound n s.head s.tail).mono ?_
        rintro _ t ⟨guard, body, rfl, wf, wfBody, covers⟩
        refine ensures_done.mpr ⟨⟨tagged, wf, wfBody, trivial⟩, ?_⟩
        simpa [Element.guardedPieces] using Piece.Covers.cons (fits_held_tag tagged) covers
  · rintro gs t ⟨all, covers⟩
    rw [Element.guardedPieces_eq]
    exact ⟨Element.allGuarded_iff.mpr all, covers⟩

theorem ensures_detections (sound : below.Sound) (n : Nat) (s : Stream' Token) :
    (gather (detection .standard n below) n []).Ensures s fun ds t =>
      Element.AllDetections ds ∧ Piece.Covers (Element.detectionPieces ds) s t := by
  refine (ensures_gather_covers (fun d => Element.detectionPieces [d])
    (fun d => Element.AllDetections [d]) ?_ n s).mono ?_
  · intro s
    simp only [detection, bind_eq, ensures_bind]
    refine (ensures_acceptTag "detect" s).mono ?_
    intro o t found
    cases o with
    | none => exact ensures_done.mpr found.1
    | some x =>
        obtain ⟨rfl, tagged, rfl⟩ := found
        simp only [ensures_bind]
        refine (ensures_path n s.tail).mono ?_
        rintro name t ⟨wf, reads⟩
        refine (ensures_trailing n t).mono ?_
        rintro behind u ⟨all, readsBehind⟩
        refine (ensures_elements sound n u).mono ?_
        rintro body v ⟨wfBody, covers, -⟩
        refine ensures_done.mpr ⟨⟨tagged, wf, all, wfBody, trivial⟩, ?_⟩
        have read := Piece.Covers.cons (fits_held_tag tagged)
          (reads.covers.append (readsBehind.covers.append covers))
        simpa [Element.detectionPieces] using read
  · rintro ds t ⟨all, covers⟩
    rw [Element.detectionPieces_eq]
    exact ⟨Element.allDetections_iff.mpr all, covers⟩

end Bodies

section Handlers

theorem ensures_resultValue (sound : below.Sound) (x : Token) (s : Stream' Token) :
    (resultValue .standard below x).Ensures s fun o t => (∀ e ∈ o, e.WellFormed) ∧
      Piece.Covers ((o.map Expr.pieces).getD []) s t := by
  have absent : (Parse.done (none : Option Expr)).Ensures s fun o t =>
      (∀ e ∈ o, e.WellFormed) ∧ Piece.Covers ((o.map Expr.pieces).getD []) s t :=
    ensures_done.mpr ⟨by simp, .refl⟩
  have present : (below.expression.bind fun e => .done (some e)).Ensures s fun o t =>
      (∀ e ∈ o, e.WellFormed) ∧ Piece.Covers ((o.map Expr.pieces).getD []) s t := by
    refine ensures_bind.mpr ((sound.expr.expression s).mono ?_)
    rintro e t ⟨wf, covers⟩
    exact ensures_done.mpr ⟨by simpa using wf, covers⟩
  simp only [resultValue, canBegin, annotatedElementNext, bind_eq, pure_eq, ensures_bind,
    ensures_look, ensures_done]
  split
  · simp only [ensures_bind, ensures_look]
    split
    · simp only [ensures_bind, ensures_lookSecond, ensures_done]
      split
      · exact absent
      · exact present
    · exact ensures_done.mpr present
  · exact absent

theorem ensures_assignmentOperator (s : Stream' Token) :
    assignmentOperator.Ensures s fun x t => (∃ m ∈ assignmentMarks, x.kind = .mark m) ∧
      Piece.Reads [.held x] s t := by
  have taken {m : Mark} (hm : m ∈ assignmentMarks) (kind : s.head.kind = .mark m) :
      (∃ m ∈ assignmentMarks, s.head.kind = .mark m) ∧ Piece.Reads [.held s.head] s s.tail :=
    ⟨⟨m, hm, kind⟩, Piece.fits_held (by rw [kind]; simp), rfl⟩
  simp only [assignmentOperator, bind_eq, ensures_bind, ensures_look]
  split
  · rename_i found
    obtain ⟨m, hm, kind⟩ := List.any_eq_true.mp found
    exact ensures_next.mpr (taken hm (by simpa using kind))
  · exact ensures_expect.mpr (taken (by decide))

theorem ensures_initialValue (sound : below.Sound) (s : Stream' Token) :
    (initialValue below).Ensures s fun o t => (∀ e ∈ o, e.WellFormed) ∧
      Piece.Covers (Expr.initialPieces o) s t := by
  simp only [initialValue, bind_eq, ensures_bind, ensures_accept]
  split
  · rename_i equals
    simp only [if_true, ensures_bind]
    refine (sound.expr.expression s.tail).mono ?_
    rintro e t ⟨wf, covers⟩
    exact ensures_done.mpr ⟨by simpa using wf, .cons (Piece.fits_mark equals) covers⟩
  · exact ensures_done.mpr ⟨by simp, .refl⟩

theorem ensures_callArguments (sound : below.Sound) (n : Nat) (opened : s.head.kind = .mark .openParen) :
    (arguments n below).Ensures s.tail fun es t => Expr.AllWellFormed es ∧
      Piece.Covers (Expr.argumentPieces es) s t := by
  refine (ensures_arguments sound.expr n s.tail).mono ?_
  rintro _ t ⟨ws, rfl, wf, -, reads⟩
  refine ⟨wf, .cons (Piece.fits_mark opened) (reads.covers.congr ?_)⟩
  rw [Piece.plain_append, Piece.plain_append, Written.plain_argumentPieces]

/-- What follows a tag of the sort is read as the content of an element that the tag begins. -/
def ReadsContent (below : Level) (n : Nat) (kind : ElementKind) : Prop :=
  ∀ (before : List Annotation) (x : Token) (s : Stream' Token),
    (∀ behind : List Annotation, (∀ a ∈ behind, a.WellFormed) →
      (Head.mk x before behind).Begins kind) →
    (elementOf .standard n below before x kind).Ensures s fun e t => e.WellFormed ∧
      e.kind = kind ∧ e.head.tag = x ∧ e.head.leading = before ∧ Piece.Covers e.content s t

theorem readsContent_scope (sound : below.Sound) (n : Nat) (kind : ScopeKind) :
    ReadsContent below n (.scope kind) := by
  intro before x s begins
  simp only [elementOf, bind_eq, ensures_bind]
  refine (ensures_path n s).mono ?_
  rintro name t ⟨wf, read⟩
  refine (ensures_trailing n t).mono ?_
  rintro behind u ⟨all, readBehind⟩
  refine (ensures_closedBody sound n u).mono ?_
  rintro body v ⟨wfBody, readBody⟩
  exact ensures_done.mpr ⟨⟨begins _ all, wf, wfBody⟩, rfl, rfl, rfl,
    read.covers.append (readBehind.covers.append readBody)⟩

theorem readsContent_callable (sound : below.Sound) (n : Nat) (kind : CallableKind) :
    ReadsContent below n (.callable kind) := by
  intro before x s begins
  simp only [elementOf, bind_eq, ensures_bind]
  refine (ensures_path n s).mono ?_
  rintro name t ⟨wf, read⟩
  refine (ensures_parameters n t).mono ?_
  rintro parameters u ⟨wfParameters, readParameters⟩
  refine (ensures_trailing n u).mono ?_
  rintro behind v ⟨all, readBehind⟩
  refine (ensures_closedBody sound n v).mono ?_
  rintro body w ⟨wfBody, readBody⟩
  exact ensures_done.mpr ⟨⟨begins _ all, wf, wfParameters, wfBody⟩, rfl, rfl, rfl,
    read.covers.append (readParameters.covers.append (readBehind.covers.append readBody))⟩

theorem readsContent_binding (sound : below.Sound) (n : Nat) (kind : BindingKind) :
    ReadsContent below n (.binding kind) := by
  intro before x s begins
  simp only [elementOf, bind_eq, ensures_bind]
  refine (ensures_path n s).mono ?_
  rintro name t ⟨wf, read⟩
  refine (ensures_trailing n t).mono ?_
  rintro behind u ⟨all, readBehind⟩
  refine (ensures_initialValue sound u).mono ?_
  rintro value v ⟨wfValue, readValue⟩
  exact ensures_done.mpr ⟨⟨begins _ all, wf, wfValue⟩, rfl, rfl, rfl,
    read.covers.append (readBehind.covers.append readValue)⟩

theorem readsContent_symbol (n : Nat) : ReadsContent below n .symbol := by
  intro before x s begins
  simp only [elementOf, bind_eq, ensures_bind]
  refine (ensures_path n s).mono ?_
  rintro name t ⟨wf, read⟩
  refine (ensures_trailing n t).mono ?_
  rintro behind u ⟨all, readBehind⟩
  exact ensures_done.mpr ⟨⟨begins _ all, wf⟩, rfl, rfl, rfl,
    read.covers.append readBehind.covers⟩

theorem readsContent_branch (sound : below.Sound) (n : Nat) : ReadsContent below n .branch := by
  intro before x s begins
  simp only [elementOf, bind_eq, ensures_bind]
  refine (sound.expr.expression s).mono ?_
  rintro guard t ⟨wf, read⟩
  refine (ensures_trailing n t).mono ?_
  rintro behind u ⟨all, readBehind⟩
  refine (ensures_elements sound n u).mono ?_
  rintro body v ⟨wfBody, readBody, -⟩
  refine (ensures_otherBranches sound n n [] v).mono ?_
  rintro ⟨others, otherwise⟩ w ⟨more, rfl, wfMore, wfOtherwise, apart, readMore⟩
  refine (ensures_closing w).mono ?_
  intro _ w' closed
  refine ensures_done.mpr ⟨⟨begins _ all, wf, wfBody, wfMore, wfOtherwise, apart⟩, rfl, rfl,
    rfl, ?_⟩
  have read := read.append (readBehind.covers.append
    (readBody.append (readMore.append closed.covers)))
  simpa only [Element.content, Head.behind, List.append_assoc] using read

theorem readsContent_exemption (sound : below.Sound) (n : Nat) :
    ReadsContent below n .exemption := by
  intro before x s begins
  simp only [elementOf, bind_eq, ensures_bind]
  refine (sound.expr.expression s).mono ?_
  rintro guard t ⟨wf, read⟩
  refine (ensures_trailing n t).mono ?_
  rintro behind u ⟨all, readBehind⟩
  refine (ensures_elements sound n u).mono ?_
  rintro body v ⟨wfBody, readBody, -⟩
  refine (ensures_bodyAfter sound n "else" v).mono ?_
  rintro otherwise w ⟨wfOtherwise, readOtherwise⟩
  refine (ensures_closing w).mono ?_
  intro _ w' closed
  exact ensures_done.mpr ⟨⟨begins _ all, wf, wfBody, wfOtherwise⟩, rfl, rfl, rfl,
    read.append (readBehind.covers.append (readBody.append
      (readOtherwise.append closed.covers)))⟩

theorem readsContent_selection (sound : below.Sound) (n : Nat) :
    ReadsContent below n .selection := by
  intro before x s begins
  simp only [elementOf, bind_eq, ensures_bind]
  refine (sound.expr.expression s).mono ?_
  rintro subject t ⟨wf, read⟩
  refine (ensures_trailing n t).mono ?_
  rintro behind u ⟨all, readBehind⟩
  refine (ensures_cases sound n u).mono ?_
  rintro cases v ⟨wfCases, readCases⟩
  refine (ensures_bodyAfter sound n "else" v).mono ?_
  rintro otherwise w ⟨wfOtherwise, readOtherwise⟩
  refine (ensures_closing w).mono ?_
  intro _ w' closed
  exact ensures_done.mpr ⟨⟨begins _ all, wf, wfCases, wfOtherwise⟩, rfl, rfl, rfl,
    read.append (readBehind.covers.append (readCases.append
      (readOtherwise.append closed.covers)))⟩

theorem readsContent_check (sound : below.Sound) (n : Nat) : ReadsContent below n .check := by
  intro before x s begins
  simp only [elementOf, bind_eq, ensures_bind]
  refine (ensures_trailing n s).mono ?_
  rintro behind t ⟨all, readBehind⟩
  refine (ensures_elements sound n t).mono ?_
  rintro body u ⟨wfBody, readBody, -⟩
  refine (ensures_detections sound n u).mono ?_
  rintro detections v ⟨wfDetections, readDetections⟩
  refine (ensures_bodyAfter sound n "regardless" v).mono ?_
  rintro regardless w ⟨wfRegardless, readRegardless⟩
  refine (ensures_closing w).mono ?_
  intro _ w' closed
  exact ensures_done.mpr ⟨⟨begins _ all, wfBody, wfDetections, wfRegardless⟩, rfl, rfl, rfl,
    readBehind.covers.append (readBody.append (readDetections.append
      (readRegardless.append closed.covers)))⟩

theorem readsContent_assertion (sound : below.Sound) (n : Nat) :
    ReadsContent below n .assertion := by
  intro before x s begins
  simp only [elementOf, bind_eq, ensures_bind]
  refine (sound.expr.expression s).mono ?_
  rintro condition t ⟨wf, read⟩
  refine (ensures_trailing n t).mono ?_
  rintro behind u ⟨all, readBehind⟩
  exact ensures_done.mpr ⟨⟨begins _ all, wf⟩, rfl, rfl, rfl, read.append readBehind.covers⟩

theorem readsContent_invocation (sound : below.Sound) (n : Nat) :
    ReadsContent below n .invocation := by
  intro before x s begins
  simp only [elementOf, bind_eq, ensures_bind]
  refine (ensures_path n s).mono ?_
  rintro callee t ⟨wf, read⟩
  refine ensures_expect.mpr fun opened => ?_
  refine (ensures_callArguments sound n opened).mono ?_
  rintro arguments u ⟨wfArguments, readArguments⟩
  refine (ensures_trailing n u).mono ?_
  rintro behind v ⟨all, readBehind⟩
  exact ensures_done.mpr ⟨⟨begins _ all, wf, wfArguments⟩, rfl, rfl, rfl,
    read.covers.append (readArguments.append readBehind.covers)⟩

theorem readsContent_result (sound : below.Sound) (n : Nat) : ReadsContent below n .result := by
  intro before x s begins
  simp only [elementOf, bind_eq, ensures_bind]
  refine (ensures_resultValue sound x s).mono ?_
  rintro value t ⟨wf, read⟩
  refine (ensures_trailing n t).mono ?_
  rintro behind u ⟨all, readBehind⟩
  exact ensures_done.mpr ⟨⟨begins _ all, wf⟩, rfl, rfl, rfl, read.append readBehind.covers⟩

theorem readsContent_raising (sound : below.Sound) (n : Nat) : ReadsContent below n .raising := by
  intro before x s begins
  simp only [elementOf, bind_eq, ensures_bind]
  refine (sound.expr.expression s).mono ?_
  rintro error t ⟨wf, read⟩
  refine (ensures_trailing n t).mono ?_
  rintro behind u ⟨all, readBehind⟩
  exact ensures_done.mpr ⟨⟨begins _ all, wf⟩, rfl, rfl, rfl, read.append readBehind.covers⟩

theorem readsContent_traversal (sound : below.Sound) (n : Nat) :
    ReadsContent below n .traversal := by
  intro before x s begins
  simp only [elementOf, bind_eq, ensures_bind]
  refine (ensures_path n s).mono ?_
  rintro name t ⟨wf, read⟩
  refine (ensures_trailing n t).mono ?_
  rintro behind u ⟨all, readBehind⟩
  refine ensures_expectText.mpr fun kind text => ?_
  refine (sound.expr.expression u.tail).mono ?_
  rintro iterable v ⟨wfIterable, readIterable⟩
  refine (ensures_closedBody sound n v).mono ?_
  rintro body w ⟨wfBody, readBody⟩
  exact ensures_done.mpr ⟨⟨begins _ all, wf, wfIterable, wfBody⟩, rfl, rfl, rfl,
    read.covers.append (readBehind.covers.append
      (.cons (Piece.fits_identifier kind text) (readIterable.append readBody)))⟩

theorem readsContent_loop (sound : below.Sound) (n : Nat) (kind : LoopKind) :
    ReadsContent below n (.loop kind) := by
  intro before x s begins
  simp only [elementOf, bind_eq, ensures_bind]
  refine (sound.expr.expression s).mono ?_
  rintro condition t ⟨wf, read⟩
  refine (ensures_trailing n t).mono ?_
  rintro behind u ⟨all, readBehind⟩
  refine (ensures_closedBody sound n u).mono ?_
  rintro body v ⟨wfBody, readBody⟩
  exact ensures_done.mpr ⟨⟨begins _ all, wf, wfBody⟩, rfl, rfl, rfl,
    read.append (readBehind.covers.append readBody)⟩

theorem readsContent_assignment (sound : below.Sound) (n : Nat) :
    ReadsContent below n .assignment := by
  intro before x s begins
  simp only [elementOf, bind_eq, ensures_bind]
  refine (ensures_path n s).mono ?_
  rintro assignee t ⟨wf, read⟩
  refine (ensures_trailing n t).mono ?_
  rintro behind u ⟨all, readBehind⟩
  refine (ensures_assignmentOperator u).mono ?_
  rintro operator v ⟨assigns, readOperator⟩
  refine (sound.expr.expression v).mono ?_
  rintro value w ⟨wfValue, readValue⟩
  exact ensures_done.mpr ⟨⟨begins _ all, wf, assigns, wfValue⟩, rfl, rfl, rfl,
    read.covers.append (readBehind.covers.append (readOperator.covers.append readValue))⟩

/-- Every handler reads what follows its tag. -/
theorem readsContent (sound : below.Sound) (n : Nat) (kind : ElementKind) :
    ReadsContent below n kind := by
  cases kind with
  | scope kind => exact readsContent_scope sound n kind
  | callable kind => exact readsContent_callable sound n kind
  | binding kind => exact readsContent_binding sound n kind
  | symbol => exact readsContent_symbol n
  | branch => exact readsContent_branch sound n
  | exemption => exact readsContent_exemption sound n
  | selection => exact readsContent_selection sound n
  | check => exact readsContent_check sound n
  | assertion => exact readsContent_assertion sound n
  | invocation => exact readsContent_invocation sound n
  | result => exact readsContent_result sound n
  | raising => exact readsContent_raising sound n
  | traversal => exact readsContent_traversal sound n
  | loop kind => exact readsContent_loop sound n kind
  | assignment => exact readsContent_assignment sound n

end Handlers

section Dispatch

/-- Which construct a tag begins is decided by looking only. -/
theorem ensures_construct (tag : String) (s : Stream' Token) :
    (construct .standard tag).Ensures s fun o t =>
      s = t ∧ ∀ c ∈ o, c ∈ Registry.standard.candidates tag := by
  rw [construct]
  split
  · exact ensures_done.mpr ⟨rfl, fun c hc => List.mem_of_head? hc⟩
  · simp only [bind_eq, ensures_bind, ensures_lookSecond]
    split
    · rename_i c found
      refine ensures_done.mpr ⟨rfl, ?_⟩
      rintro _ ⟨rfl⟩
      rcases Option.or_eq_some_iff.mp found with exact | ⟨-, bare⟩
      · exact List.mem_of_find?_eq_some exact
      · exact List.mem_of_find?_eq_some bare
    · exact ensures_fail

/-- An element of a construct is read from its tag on. -/
theorem ensures_dispatched (sound : below.Sound) (n : Nat) {before : List Annotation}
    (wf : ∀ a ∈ before, a.WellFormed) {c : Construct} (dispatches : Registry.dispatches s.head = true)
    (candidate : c ∈ Registry.standard.candidates s.head.tagName) :
    (dispatched .standard n below before c).Ensures s fun e t => e.WellFormed ∧
      e.head.tag = s.head ∧ e.head.leading = before ∧ ∃ m,
      Piece.Reads (.held e.head.tag ::
        ((e.kind.second? e.head.tag.tagName).map Piece.identifier).toList) s m ∧
      Piece.Covers e.content m t := by
  have begins (behind : List Annotation) (all : ∀ a ∈ behind, a.WellFormed) :
      (Head.mk s.head before behind).Begins c.kind :=
    ⟨dispatches, ⟨c, candidate, rfl⟩, wf, all⟩
  have fits : (Piece.held s.head).Fits s.head := Piece.fits_held (Registry.ne_eof_of_dispatches dispatches)
  have second := Registry.second?_of_mem_candidates candidate
  simp only [dispatched, dispatchedBy, bind_eq, ensures_bind, ensures_next]
  split
  · rename_i word hw
    refine ensures_bind.mpr (ensures_expectText.mpr fun kind text => ?_)
    refine (readsContent sound n c.kind _ _ s.tail.tail begins).mono ?_
    rintro e t ⟨wf, sort, tag, lead, covers⟩
    refine ⟨wf, tag, lead, s.tail.tail, ?_, covers⟩
    rw [tag, sort, second, hw]
    exact ⟨fits, Piece.fits_identifier kind text, rfl⟩
  · rename_i hw
    refine (readsContent sound n c.kind _ _ s.tail begins).mono ?_
    rintro e t ⟨wf, sort, tag, lead, covers⟩
    refine ⟨wf, tag, lead, s.tail, ?_, covers⟩
    rw [tag, sort, second, hw]
    exact ⟨fits, rfl⟩

theorem ensures_element (sound : below.Sound) (n : Nat) (s : Stream' Token) :
    (element .standard n below).Ensures s fun e t =>
      e.WellFormed ∧ e.first = s.head ∧ Piece.Covers e.pieces s t := by
  simp only [element, elementBy, bind_eq, ensures_bind]
  refine (ensures_leading n s).mono ?_
  rintro before t ⟨wf, reads⟩
  simp only [ensures_look]
  split
  · exact ensures_fail
  · split
    · rename_i dispatches
      refine ensures_bind.mpr ((ensures_construct t.head.tagName t).mono ?_)
      rintro o _ ⟨rfl, candidate⟩
      cases o with
      | none =>
          dsimp only
          split <;> exact ensures_fail
      | some c =>
          refine (ensures_dispatched sound n wf dispatches (candidate c rfl)).mono ?_
          rintro e u ⟨wfElement, tag, lead, m, opening, covers⟩
          refine ⟨wfElement, ?_, ?_⟩
          · rw [Element.first, Head.first, lead, tag]
            cases before with
            | nil =>
                cases reads
                rfl
            | cons a as => exact reads.1.2.symm
          · refine Piece.Covers.append (Piece.reads_beginLine.mpr ?_).covers covers
            rw [lead]
            exact reads.append opening
    · exact ensures_fail

/-- Every level of nesting reads elements and expressions as they are written. -/
theorem sound_level (n : Nat) : (level .standard n).Sound := by
  induction n with
  | zero => exact ⟨readsExpr_level 0, fun s => ensures_refuse⟩
  | succ n ih => exact ⟨readsExpr_level (n + 1), fun s => ensures_element ih n s⟩

end Dispatch

end Grammar

end TagLang
