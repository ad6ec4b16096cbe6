import TagLang.Proofs.Element.Heads
import TagLang.Proofs.Expr.Completeness

/-!
# What the parser of elements gives back

An element that is shown is given back if what stands behind it is a boundary. Bodies are
parsed one level below, and every body stands before what closes a sequence, so the handlers
of one level give back what is shown if the level below it does.
-/

namespace TagLang

open Parse

/-- A well-formed element of fewer than `bound` pieces is parsed back in front of a boundary. -/
def Level.WritesElement (l : Level) (bound : Nat) : Prop :=
  ∀ (e : Element) (a : Spot), e.pieces.length < bound → e.WellFormed →
    Piece.Shows e.pieces a → (a.after e.pieces).Boundary →
    l.element.Takes a e.pieces fun x => x.erase = e.erase

/-- Elements and expressions of fewer than `bound` pieces are parsed back. -/
structure Level.Complete (l : Level) (bound : Nat) : Prop where
  expr : l.WritesExpr bound
  element : l.WritesElement bound

variable {below : Level} {n : Nat} {a : Spot}

namespace Piece

/-- A word that is written as a tag is this tag. -/
theorem Shown.isTag {name : String} (shown : (tag name).Shown a)
    (bare : (Token.mk .tag name .null).tagName = name) : a.tokens.head.IsTag name :=
  (Token.isTag_congr shown.kind shown.text).mpr ⟨rfl, bare⟩

theorem Shown.isTag_of_held {t : Token} {name : String} (shown : (held t).Shown a)
    (h : t.IsTag name) : a.tokens.head.IsTag name :=
  (Token.isTag_congr shown.kind shown.text).mpr h

end Piece

namespace Element

theorem eraseGuarded_congr {gs hs : List Guarded}
    (same : List.Forall₂ (fun g h => eraseGuarded [g] = eraseGuarded [h]) gs hs) :
    eraseGuarded gs = eraseGuarded hs := by
  induction same with
  | nil => rfl
  | cons first _ ih => rw [eraseGuarded_cons, first, ih, ← eraseGuarded_cons]

theorem eraseDetections_congr {cs ds : List Detection}
    (same : List.Forall₂ (fun c d => eraseDetections [c] = eraseDetections [d]) cs ds) :
    eraseDetections cs = eraseDetections ds := by
  induction same with
  | nil => rfl
  | cons first _ ih => rw [eraseDetections_cons, first, ih, ← eraseDetections_cons]

end Element

namespace Grammar

section Parts

variable {β : Type} {ps : List Piece} {post : β → Prop} {tag : String}

theorem nextIsTag_iff {t : Token} : (t.kind == .tag && t.tagName == tag) = true ↔ t.IsTag tag := by
  simp [Token.IsTag]

/-- A tag that is looked for and comes next is taken. -/
theorem takes_acceptTag_bind {f : Option Token → Parse β} {q : Piece}
    (here : a.tokens.head.IsTag tag)
    (h : (f (some a.tokens.head)).Takes (a.past q) ps post) :
    ((acceptTag tag).bind f).Takes a (q :: ps) post := by
  have taken : (acceptTag tag).Takes a [q] fun o => o = some a.tokens.head := by
    refine takes_look_bind ?_
    show (if _ then _ else _ : Parse (Option Token)).Takes a [q] _
    rw [if_pos (nextIsTag_iff.mpr here)]
    exact (takes_next rfl).map fun t ht => congrArg some ht.symm
  refine taken.bind fun o ho => ?_
  subst ho
  exact h

theorem takes_acceptTag_bind_of_not {f : Option Token → Parse β}
    (other : ¬ a.tokens.head.IsTag tag)
    (h : (f none).Takes a ps post) : ((acceptTag tag).bind f).Takes a ps post := by
  have taken : (acceptTag tag).Takes a [] fun o => o = none := by
    refine takes_look_bind ?_
    show (if _ then _ else _ : Parse (Option Token)).Takes a [] _
    rw [if_neg (mt nextIsTag_iff.mp other)]
    exact takes_done rfl
  refine taken.bind fun o ho => ?_
  subst ho
  exact h

theorem takes_expression (complete : below.Complete n) {e : Expr} (room : e.pieces.length < n)
    (wf : e.WellFormed) (shown : Piece.Shows e.pieces a)
    (ends : Registry.standard.continuation? (a.after e.pieces).tokens.head.kind = none) :
    below.expression.Takes a e.pieces fun x => x.erase = e.erase := by
  have tree : e.written.tree = e := e.tree_written
  rw [← tree] at wf
  have takes := complete.expr.expression room wf (Expr.ranked_written (tree ▸ wf)) shown ends
  rw [tree] at takes
  exact takes

/-- A body ends before what closes a sequence. -/
theorem takes_elements (complete : below.Complete n) {es : List Element}
    (room : (Element.bodyPieces es).length < n) (wf : Element.AllWellFormed es)
    (shown : Piece.Shows (Element.bodyPieces es) a)
    (closes : (a.after (Element.bodyPieces es)).Closes) :
    (elements .standard n below).Takes a (Element.bodyPieces es) fun xs =>
      Element.erases xs = Element.erases es := by
  rw [Element.bodyPieces_eq] at room shown closes ⊢
  rw [Element.allWellFormed_iff] at wf
  have enough : es.length ≤ (es.flatMap Element.pieces).length :=
    Piece.length_flatMap_ge fun e _ => e.pieces_ne_nil
  have loop := @takes_gather _ _ (furtherElement .standard below) Element.pieces
    (fun x e => x.erase = e.erase) Spot.Boundary es n a ?_ ?_ closes.boundary ?_
    (Nat.lt_of_le_of_lt enough room) shown
  · refine loop.mono fun xs same => ?_
    rw [Element.erases_eq_map, Element.erases_eq_map, List.map_eq_map_of_forall₂ same]
  · intro e he b shown boundary
    have fits : e.pieces.length ≤ (es.flatMap Element.pieces).length :=
      Piece.length_le_length_flatMap he
    have opens := Element.opens_of_shows (wf e he) shown
    have goesOn : ¬ endsSequence .standard b.tokens.head = true := opens.not_closes
    refine takes_look_bind ?_
    show (if _ then _ else _ : Parse (Option Element)).Takes b _ _
    rw [if_neg goesOn]
    exact (complete.element e b (Nat.lt_of_le_of_lt fits room) (wf e he) shown boundary).map
      fun x same => ⟨x, rfl, same⟩
  · exact fun e he b shown => (Element.opens_of_shows (wf e he) shown).boundary
  · refine takes_look_bind ?_
    show (if _ then _ else _ : Parse (Option Element)).Takes _ _ _
    rw [if_pos (show endsSequence .standard _ = true from closes)]
    exact takes_done rfl

/-- A body in front of the word that ends its construct. -/
theorem takes_closedBody (complete : below.Complete n) {es : List Element}
    (room : (Element.bodyPieces es).length < n) (wf : Element.AllWellFormed es)
    (shown : Piece.Shows (Element.bodyPieces es ++ [.word .endWord]) a) :
    (closedBody .standard n below).Takes a (Element.bodyPieces es ++ [.word .endWord]) fun xs =>
      Element.erases xs = Element.erases es := by
  obtain ⟨shownBody, ending, -⟩ := Piece.shows_append.mp shown
  have closes := Spot.closes_of_endWord ending.kind
  refine (takes_elements complete room wf shownBody closes).bind fun xs same => ?_
  exact (takes_expect ending rfl).map fun _ _ => same

theorem boundary_of_closedBody {es : List Element} (wf : Element.AllWellFormed es)
    (shown : Piece.Shows (Element.bodyPieces es ++ [.word .endWord]) a) : a.Boundary := by
  obtain ⟨shownBody, ending, -⟩ := Piece.shows_append.mp shown
  exact Element.boundary_of_shows wf shownBody (Spot.closes_of_endWord ending.kind).boundary

/-- A body after a tag, if there is one, in front of the word that ends its construct. -/
theorem takes_bodyAfter (complete : below.Complete n) {tag : String} {body : Option (List Element)}
    (bare : (Token.mk .tag tag .null).tagName = tag)
    (room : (Element.bodyPiecesAfter tag body).length < n)
    (wf : Element.OtherwiseWellFormed body)
    (shown : Piece.Shows (Element.bodyPiecesAfter tag body ++ [.word .endWord]) a) :
    (bodyAfter .standard n below tag).Takes a (Element.bodyPiecesAfter tag body) fun o =>
      Element.eraseOtherwise o = Element.eraseOtherwise body := by
  cases body with
  | none =>
      exact takes_acceptTag_bind_of_not (Token.not_isTag_of_word shown.1.kind) (takes_done rfl)
  | some es =>
      obtain ⟨first, shownBody⟩ := shown
      obtain ⟨shownBody, ending, -⟩ := Piece.shows_append.mp shownBody
      rw [Element.bodyPiecesAfter, List.length_cons] at room
      refine takes_acceptTag_bind (first.isTag bare) ?_
      exact (takes_elements complete (by omega) wf shownBody
        (Spot.closes_of_endWord ending.kind)).map fun xs same => congrArg some same

theorem closes_of_bodyAfter {tag : String} {body : Option (List Element)}
    (bare : (Token.mk .tag tag .null).tagName = tag)
    (owned : (Registry.standard.owner? tag).isSome = true)
    (shown : Piece.Shows (Element.bodyPiecesAfter tag body ++ [.word .endWord]) a) : a.Closes := by
  cases body with
  | none => exact Spot.closes_of_endWord shown.1.kind
  | some es => exact Spot.closes_of_isTag (shown.1.isTag bare) owned

/-- A guard and the body under it, in front of what closes a sequence. -/
theorem takes_guarded (complete : below.Complete n) {t x : Token} {guard : Expr}
    {body : List Element} (same : t.erase = x.erase)
    (room : (guard.pieces ++ Element.bodyPieces body).length < n) (wfGuard : guard.WellFormed)
    (wfBody : Element.AllWellFormed body)
    (shown : Piece.Shows (guard.pieces ++ Element.bodyPieces body) a)
    (closes : (a.after (guard.pieces ++ Element.bodyPieces body)).Closes) :
    (guarded .standard n below t).Takes a (guard.pieces ++ Element.bodyPieces body) fun g =>
      Element.eraseGuarded [g] = Element.eraseGuarded [.mk x guard body] := by
  rw [List.length_append] at room
  rw [Spot.after_append] at closes
  obtain ⟨shownGuard, shownBody⟩ := Piece.shows_append.mp shown
  have boundary := Element.boundary_of_shows wfBody shownBody closes.boundary
  refine (takes_expression complete (by omega) wfGuard shownGuard boundary.continuation?).bind
    fun e sameGuard => ?_
  refine (takes_elements complete (by omega) wfBody shownBody closes).map fun es sameBody => ?_
  simp only [Element.eraseGuarded, same, sameGuard, sameBody]

theorem closes_of_others {others : List Guarded} {otherwise : Option (List Element)}
    (shown : Piece.Shows (Element.guardedPieces [.tag "else"] others ++
      (Element.bodyPiecesAfter "else" otherwise ++ [.word .endWord])) a) : a.Closes := by
  cases others with
  | nil => exact closes_of_bodyAfter rfl (by decide) shown
  | cons g others =>
      obtain ⟨x, guard, body⟩ := g
      exact Spot.closes_of_isTag (shown.1.isTag rfl) (by decide)

/-- The body for the case that no guard holds is told from a further branch by what comes behind
its tag. -/
theorem takes_lastBranch (complete : below.Complete n) {otherwise : Option (List Element)}
    {k : Nat} {gathered : List Guarded}
    (room : (Element.bodyPiecesAfter "else" otherwise).length < n)
    (wf : Element.OtherwiseWellFormed otherwise)
    (apart : ∀ es ∈ otherwise, ∀ e ∈ es.head?, ¬ e.first.IsTag "if")
    (shown : Piece.Shows (Element.bodyPiecesAfter "else" otherwise ++ [.word .endWord]) a) :
    (otherBranches .standard n below (k + 1) gathered).Takes a
      (Element.bodyPiecesAfter "else" otherwise) fun x =>
        x.1 = gathered.reverse ∧ Element.eraseOtherwise x.2 = Element.eraseOtherwise otherwise := by
  cases otherwise with
  | none =>
      refine takes_acceptTag_bind_of_not (Token.not_isTag_of_word shown.1.kind) ?_
      exact takes_done ⟨rfl, rfl⟩
  | some es =>
      obtain ⟨first, shownBody⟩ := shown
      obtain ⟨shownBody, ending, -⟩ := Piece.shows_append.mp shownBody
      have other : ¬ (a.past (.tag "else")).tokens.head.IsTag "if" := by
        cases es with
        | nil => exact Token.not_isTag_of_word ending.kind
        | cons e es =>
            obtain ⟨kind, text⟩ := Head.first_of_shows (Piece.shows_append.mp shownBody).1
            rw [Token.isTag_congr kind text]
            exact apart _ rfl e rfl
      rw [Element.bodyPiecesAfter, List.length_cons] at room
      refine takes_acceptTag_bind (first.isTag rfl) (takes_acceptTag_bind_of_not other ?_)
      refine (takes_elements complete (by omega) wf shownBody
        (Spot.closes_of_endWord ending.kind)).map ?_
      intro xs same
      exact ⟨rfl, congrArg some same⟩

/-- The branches behind the first one are taken one after another, and then the body for the
case that no guard holds. Each begins with the same tag, and only what comes behind the tag
tells them apart. -/
theorem takes_otherBranches (complete : below.Complete n) {others : List Guarded}
    {otherwise : Option (List Element)} {k : Nat} {gathered : List Guarded}
    (room : (Element.guardedPieces [.tag "else"] others ++
      Element.bodyPiecesAfter "else" otherwise).length < n)
    (enough : others.length < k) (wfOthers : Element.AllGuarded "if" others)
    (wfOtherwise : Element.OtherwiseWellFormed otherwise)
    (apart : ∀ es ∈ otherwise, ∀ e ∈ es.head?, ¬ e.first.IsTag "if")
    (shown : Piece.Shows (Element.guardedPieces [.tag "else"] others ++
      (Element.bodyPiecesAfter "else" otherwise ++ [.word .endWord])) a) :
    (otherBranches .standard n below k gathered).Takes a
      (Element.guardedPieces [.tag "else"] others ++ Element.bodyPiecesAfter "else" otherwise)
      fun x => (∃ gs, x.1 = gathered.reverse ++ gs ∧
          Element.eraseGuarded gs = Element.eraseGuarded others) ∧
        Element.eraseOtherwise x.2 = Element.eraseOtherwise otherwise := by
  obtain ⟨k, rfl⟩ : ∃ j, k = j + 1 := ⟨k - 1, by omega⟩
  induction others generalizing k gathered a with
  | nil =>
      refine (takes_lastBranch complete room wfOtherwise apart shown).mono ?_
      rintro ⟨_, _⟩ ⟨rfl, same⟩
      exact ⟨⟨[], by simp, rfl⟩, same⟩
  | cons g others ih =>
      obtain ⟨x, guard, body⟩ := g
      obtain ⟨isTag, wfGuard, wfBody, wfOthers⟩ := wfOthers
      have split (tail : List Piece) :
          Element.guardedPieces [.tag "else"] (.mk x guard body :: others) ++ tail =
            .tag "else" :: .held x :: ((guard.pieces ++ Element.bodyPieces body) ++
              (Element.guardedPieces [.tag "else"] others ++ tail)) := by
        simp [Element.guardedPieces]
      rw [split, List.length_cons, List.length_cons, List.length_append] at room
      rw [split] at shown ⊢
      obtain ⟨first, second, shown⟩ := shown
      obtain ⟨shownBranch, shownOthers⟩ := Piece.shows_append.mp shown
      obtain ⟨k, rfl⟩ : ∃ j, k = j + 1 := ⟨k - 1, by simp at enough; omega⟩
      have closes := closes_of_others shownOthers
      refine takes_acceptTag_bind (first.isTag rfl)
        (takes_acceptTag_bind (second.isTag_of_held isTag) ?_)
      refine (takes_guarded complete second.erase_head (by omega) wfGuard wfBody shownBranch
        closes).bind fun g same => ?_
      refine (ih (by omega) wfOthers shownOthers k (by simpa using enough)).mono ?_
      rintro ⟨_, _⟩ ⟨⟨gs, rfl, sameOthers⟩, sameOtherwise⟩
      refine ⟨⟨g :: gs, by simp, ?_⟩, sameOtherwise⟩
      rw [Element.eraseGuarded_cons, same, sameOthers, ← Element.eraseGuarded_cons]

theorem not_isTag_of_bodyAfter {other tag : String} {body : Option (List Element)}
    (bare : (Token.mk .tag tag .null).tagName = tag) (ne : tag ≠ other)
    (shown : Piece.Shows (Element.bodyPiecesAfter tag body ++ [.word .endWord]) a) :
    ¬ a.tokens.head.IsTag other := by
  cases body with
  | none => exact Token.not_isTag_of_word shown.1.kind
  | some es =>
      intro isTag
      exact ne ((shown.1.isTag bare).2.symm.trans isTag.2)

/-- Cases end before what closes a sequence and is no case. -/
theorem takes_cases (complete : below.Complete n) {gs : List Guarded}
    (room : (Element.guardedPieces [] gs).length < n) (wf : Element.AllGuarded "where" gs)
    (shown : Piece.Shows (Element.guardedPieces [] gs) a)
    (closes : (a.after (Element.guardedPieces [] gs)).Closes)
    (ends : ¬ (a.after (Element.guardedPieces [] gs)).tokens.head.IsTag "where") :
    (gather (selectionCase .standard n below) n []).Takes a (Element.guardedPieces [] gs)
      fun hs => Element.eraseGuarded hs = Element.eraseGuarded gs := by
  rw [Element.guardedPieces_eq] at room shown closes ends ⊢
  rw [Element.allGuarded_iff] at wf
  have enough : gs.length ≤ (gs.flatMap fun g => Element.guardedPieces [] [g]).length :=
    Piece.length_flatMap_ge fun ⟨x, guard, body⟩ _ => by simp [Element.guardedPieces]
  have loop := @takes_gather _ _ (selectionCase .standard n below)
    (fun g => Element.guardedPieces [] [g])
    (fun h g => Element.eraseGuarded [h] = Element.eraseGuarded [g]) Spot.Closes gs n a ?_ ?_ closes
    (takes_acceptTag_bind_of_not ends (takes_done rfl)) (Nat.lt_of_le_of_lt enough room) shown
  · exact loop.mono fun hs same => Element.eraseGuarded_congr same
  · rintro ⟨x, guard, body⟩ hg b shown closes
    have fits := @Piece.length_le_length_flatMap _ (fun g => Element.guardedPieces [] [g]) gs _ hg
    obtain ⟨isTag, wfGuard, wfBody, -⟩ := wf _ hg
    simp only [Element.guardedPieces, List.nil_append, List.append_nil, List.length_cons] at fits
    simp only [Element.guardedPieces, List.nil_append, List.append_nil] at shown closes ⊢
    refine takes_acceptTag_bind (shown.1.isTag_of_held isTag) ?_
    exact (takes_guarded complete shown.1.erase_head (by omega) wfGuard wfBody shown.2 closes).map
      fun h same => ⟨h, rfl, same⟩
  · rintro ⟨x, guard, body⟩ hg b shown
    exact Spot.closes_of_isTag (shown.1.isTag_of_held (wf _ hg).1) (by decide)

/-- Detections end before what closes a sequence and is none. -/
theorem takes_detections (complete : below.Complete n) {ds : List Detection}
    (room : (Element.detectionPieces ds).length < n) (wf : Element.AllDetections ds)
    (shown : Piece.Shows (Element.detectionPieces ds) a)
    (closes : (a.after (Element.detectionPieces ds)).Closes)
    (ends : ¬ (a.after (Element.detectionPieces ds)).tokens.head.IsTag "detect") :
    (gather (detection .standard n below) n []).Takes a (Element.detectionPieces ds)
      fun cs => Element.eraseDetections cs = Element.eraseDetections ds := by
  rw [Element.detectionPieces_eq] at room shown closes ends ⊢
  rw [Element.allDetections_iff] at wf
  have enough : ds.length ≤ (ds.flatMap fun d => Element.detectionPieces [d]).length :=
    Piece.length_flatMap_ge fun ⟨x, name, behind, body⟩ _ => by simp [Element.detectionPieces]
  have loop := @takes_gather _ _ (detection .standard n below)
    (fun d => Element.detectionPieces [d])
    (fun c d => Element.eraseDetections [c] = Element.eraseDetections [d]) Spot.Closes ds n a ?_ ?_
    closes (takes_acceptTag_bind_of_not ends (takes_done rfl)) (Nat.lt_of_le_of_lt enough room) shown
  · exact loop.mono fun cs same => Element.eraseDetections_congr same
  · rintro ⟨x, name, behind, body⟩ hd b shown closes
    have fits := @Piece.length_le_length_flatMap _ (fun d => Element.detectionPieces [d]) ds _ hd
    obtain ⟨isTag, wfName, wfBehind, wfBody, -⟩ := wf _ hd
    simp only [Element.detectionPieces, List.append_nil, List.length_cons, List.length_append] at fits
    simp only [Element.detectionPieces, List.append_nil] at shown closes ⊢
    obtain ⟨first, shown⟩ := shown
    simp only [Piece.shows_append, Spot.after_cons, Spot.after_append] at shown closes
    obtain ⟨shownName, shownBehind, shownBody⟩ := shown
    have boundary := Element.boundary_of_shows wfBody shownBody closes.boundary
    have nameEnds := Piece.holds_of_trailing (fun kind => kind ≠ .mark .dot) shownBehind (by decide)
      (boundary.ne_mark .dot)
    refine takes_acceptTag_bind (first.isTag_of_held isTag) ?_
    refine (takes_path (by omega) wfName shownName nameEnds).bind fun path sameName => ?_
    refine (takes_trailing (by omega) wfBehind shownBehind (boundary.ne_mark .colon)).bind
      fun annotations sameBehind => ?_
    refine (takes_elements complete (by omega) wfBody shownBody closes).map fun es sameBody => ?_
    refine ⟨_, rfl, ?_⟩
    simp only [Element.eraseDetections, first.erase_head, sameName, sameBehind, sameBody]
  · rintro ⟨x, name, behind, body⟩ hd b shown
    exact Spot.closes_of_isTag (shown.1.isTag_of_held (wf _ hd).1) (by decide)

theorem closes_of_cases {gs : List Guarded} {otherwise : Option (List Element)}
    (wf : Element.AllGuarded "where" gs)
    (shown : Piece.Shows (Element.guardedPieces [] gs ++
      (Element.bodyPiecesAfter "else" otherwise ++ [.word .endWord])) a) : a.Closes := by
  cases gs with
  | nil => exact closes_of_bodyAfter rfl (by decide) shown
  | cons g gs =>
      obtain ⟨x, guard, body⟩ := g
      exact Spot.closes_of_isTag (shown.1.isTag_of_held wf.1) (by decide)

theorem closes_of_detections {ds : List Detection} {regardless : Option (List Element)}
    (wf : Element.AllDetections ds)
    (shown : Piece.Shows (Element.detectionPieces ds ++
      (Element.bodyPiecesAfter "regardless" regardless ++ [.word .endWord])) a) : a.Closes := by
  cases ds with
  | nil => exact closes_of_bodyAfter rfl (by decide) shown
  | cons d ds =>
      obtain ⟨x, name, behind, body⟩ := d
      exact Spot.closes_of_isTag (shown.1.isTag_of_held wf.1) (by decide)

/-- A value is given back from the line of the tag, and where none is written there is none:
what could be read as one is on a later line and annotates an element there. -/
theorem takes_resultValue (complete : below.Complete n) {value : Option Expr} {t : Token}
    (line : t.position.line = a.line) (room : ((value.map Expr.pieces).getD []).length < n)
    (wf : ∀ e ∈ value, e.WellFormed) (shown : Piece.Shows ((value.map Expr.pieces).getD []) a)
    (ends : Registry.standard.continuation?
      (a.after ((value.map Expr.pieces).getD [])).tokens.head.kind = none)
    (bare : value = none → a.Bare) :
    (resultValue .standard below t).Takes a ((value.map Expr.pieces).getD []) fun o =>
      o.map Expr.erase = value.map Expr.erase := by
  refine takes_look_bind ?_
  show (if _ then _ else _ : Parse (Option Expr)).Takes a _ _
  cases value with
  | none =>
      rcases bare rfl with noStart | ⟨name, later, next⟩
      · rw [noStart]
        exact takes_done rfl
      · have begins : Registry.standard.start? a.tokens.head.kind = some .identifier :=
          Registry.start?_eq_identifier_iff.mpr name
        rw [begins, Option.isSome_some, if_pos rfl]
        refine takes_look_bind ?_
        show ((if _ then _ else _ : Parse Bool).bind _).Takes a _ _
        rw [if_pos ⟨name, line ▸ later⟩]
        refine takes_lookSecond_bind ?_
        show (if _ then _ else _ : Parse (Option Expr)).Takes a _ _
        rw [if_pos (by simpa using next)]
        exact takes_done rfl
  | some e =>
      have wf := wf e rfl
      have tree : e.written.tree = e := e.tree_written
      obtain ⟨rule, begins⟩ := Written.exists_start_of_shows (tree.symm ▸ wf) shown
      have here : a.tokens.head.position.line = a.line := Written.line_of_shows shown
      rw [begins, Option.isSome_some, if_pos rfl]
      refine takes_look_bind ?_
      show ((if _ then _ else _ : Parse Bool).bind _).Takes a _ _
      rw [if_neg (by omega)]
      exact (takes_expression complete room wf shown ends).map fun x same => congrArg some same

theorem takes_assignmentOperator {operator : Token}
    (assigns : ∃ m ∈ assignmentMarks, operator.kind = .mark m)
    (shown : (Piece.held operator).Shown a) :
    assignmentOperator.Takes a [.held operator] fun t => t.erase = operator.erase := by
  obtain ⟨m, hm, kind⟩ := assigns
  have found : (assignmentMarks.any fun m => a.tokens.head.kind == .mark m) = true := by
    rw [List.any_eq_true]
    exact ⟨m, hm, by simp [shown.kind, kind]⟩
  refine takes_look_bind ?_
  rw [if_pos found]
  exact takes_next shown.erase_head

theorem holds_of_initialValue (holds : TokenKind → Prop) {value : Option Expr}
    (shown : Piece.Shows (Expr.initialPieces value) a) (equals : holds (.mark .equals))
    (behind : holds (a.after (Expr.initialPieces value)).tokens.head.kind) :
    holds a.tokens.head.kind := by
  cases value with
  | none => exact behind
  | some e =>
      have kind : a.tokens.head.kind = .mark .equals := shown.1.kind
      rw [kind]
      exact equals

theorem takes_initialValue (complete : below.Complete n) {value : Option Expr}
    (room : (Expr.initialPieces value).length < n) (wf : ∀ e ∈ value, e.WellFormed)
    (shown : Piece.Shows (Expr.initialPieces value) a)
    (boundary : (a.after (Expr.initialPieces value)).Boundary) :
    (initialValue below).Takes a (Expr.initialPieces value) fun o =>
      o.map Expr.erase = value.map Expr.erase := by
  cases value with
  | none => exact takes_accept_bind_of_ne (boundary.ne_mark .equals) (takes_done rfl)
  | some e =>
      obtain ⟨first, shown⟩ := shown
      rw [Expr.initialPieces, List.length_cons] at room
      refine takes_accept_bind first.kind ?_
      exact (takes_expression complete (by omega) (wf e rfl) shown boundary.continuation?).map
        fun x same => congrArg some same

/-- Arguments are given back behind their opening parenthesis. -/
theorem takes_callArguments (complete : below.Complete n) {es : List Expr}
    (room : (Expr.argumentPieces es).length < n) (wf : Expr.AllWellFormed es)
    (shown : Piece.Shows (Written.argumentPieces (Expr.writtens es) ++ [.mark .closeParen]) a) :
    (arguments n below).Takes a (Written.argumentPieces (Expr.writtens es) ++ [.mark .closeParen])
      fun xs => xs.map Expr.erase = es.map Expr.erase := by
  have trees : Written.trees (Expr.writtens es) = es := Expr.trees_writtens es
  have enough : (Expr.writtens es).length ≤ (Written.argumentPieces (Expr.writtens es)).length := by
    rw [Written.argumentPieces_eq]
    exact Piece.length_separated_ge fun w _ => w.pieces_ne_nil
  rw [Expr.argumentPieces, List.length_cons, List.length_append] at room
  refine (takes_arguments complete.expr (by omega) (by omega) (trees.symm ▸ wf)
    (Expr.allRanked_writtens wf) shown).mono fun xs same => ?_
  rwa [trees, Expr.erases_eq_map, Expr.erases_eq_map] at same

end Parts

section Handlers

variable {h : Head} {before behind : List Annotation} {t : Token}

/-- What follows the tag of the element is given back in front of a boundary. -/
def GivesBack (below : Level) (n : Nat) (e : Element) : Prop :=
  ∀ (before : List Annotation) (t : Token) (a : Spot), e.content.length < n → e.WellFormed →
    t.erase = e.head.tag.erase →
    before.map Annotation.erase = e.head.leading.map Annotation.erase →
    t.position.line = a.line → Piece.Shows e.content a → (a.after e.content).Boundary →
    (elementOf .standard n below before t e.kind).Takes a e.content fun x => x.erase = e.erase

theorem head_erase (sameTag : t.erase = h.tag.erase)
    (sameLeading : before.map Annotation.erase = h.leading.map Annotation.erase)
    (sameBehind : behind.map Annotation.erase = h.trailing.map Annotation.erase) :
    (Head.mk t before behind).erase = h.erase := by
  simp only [Head.erase, sameTag, sameLeading, sameBehind]

theorem givesBack_scope (complete : below.Complete n) {kind : ScopeKind} {name : Path}
    {body : List Element} : GivesBack below n (.scope kind h name body) := by
  intro before t a room wf sameTag sameLeading line shown boundary
  obtain ⟨begins, wfName, wfBody⟩ := wf
  simp only [Element.content, Head.behind, List.length_append] at room
  obtain ⟨shownName, shown⟩ := Piece.shows_append.mp shown
  obtain ⟨shownBehind, shownBody⟩ := Piece.shows_append.mp shown
  have inner := boundary_of_closedBody wfBody shownBody
  refine (takes_path (by omega) wfName shownName (inner.ne_dot_of_trailing shownBehind)).bind
    fun name' sameName => ?_
  refine (takes_trailing (by omega) begins.trailing shownBehind (inner.ne_mark .colon)).bind
    fun behind sameBehind => ?_
  refine (takes_closedBody complete (by omega) wfBody shownBody).map fun body' sameBody => ?_
  rw [Element.erase, head_erase sameTag sameLeading sameBehind, sameName, sameBody]
  rfl

theorem givesBack_callable (complete : below.Complete n) {kind : CallableKind} {name : Path}
    {parameters : List Parameter} {body : List Element} :
    GivesBack below n (.callable kind h name parameters body) := by
  intro before t a room wf sameTag sameLeading line shown boundary
  obtain ⟨begins, wfName, wfParameters, wfBody⟩ := wf
  simp only [Element.content, Head.behind, List.length_append] at room
  obtain ⟨shownName, shown⟩ := Piece.shows_append.mp shown
  obtain ⟨shownParameters, shown⟩ := Piece.shows_append.mp shown
  obtain ⟨shownBehind, shownBody⟩ := Piece.shows_append.mp shown
  have inner := boundary_of_closedBody wfBody shownBody
  have opening : (a.after name.pieces).tokens.head.kind = .mark .openParen :=
    shownParameters.1.kind
  refine (takes_path (by omega) wfName shownName (by rw [opening]; decide)).bind
    fun name' sameName => ?_
  refine (takes_parameters (by omega) wfParameters shownParameters).bind
    fun parameters' sameParameters => ?_
  refine (takes_trailing (by omega) begins.trailing shownBehind (inner.ne_mark .colon)).bind
    fun behind sameBehind => ?_
  refine (takes_closedBody complete (by omega) wfBody shownBody).map fun body' sameBody => ?_
  rw [Element.erase, head_erase sameTag sameLeading sameBehind, sameName, sameParameters, sameBody]
  rfl

theorem givesBack_binding (complete : below.Complete n) {kind : BindingKind} {name : Path}
    {value : Option Expr} : GivesBack below n (.binding kind h name value) := by
  intro before t a room wf sameTag sameLeading line shown boundary
  obtain ⟨begins, wfName, wfValue⟩ := wf
  simp only [Element.content, Head.behind, List.length_append] at room
  simp only [Element.content, Spot.after_append] at boundary
  obtain ⟨shownName, shown⟩ := Piece.shows_append.mp shown
  obtain ⟨shownBehind, shownValue⟩ := Piece.shows_append.mp shown
  have valueEnds (m : Mark) (other : m ≠ .equals) :=
    holds_of_initialValue (fun kind => kind ≠ .mark m) shownValue (by simp [other.symm])
      (boundary.ne_mark m)
  have nameEnds := Piece.holds_of_trailing (fun kind => kind ≠ .mark .dot) shownBehind
    (by decide) (valueEnds .dot (by decide))
  refine (takes_path (by omega) wfName shownName nameEnds).bind fun name' sameName => ?_
  refine (takes_trailing (by omega) begins.trailing shownBehind
    (valueEnds .colon (by decide))).bind fun behind sameBehind => ?_
  refine (takes_initialValue complete (by omega) wfValue shownValue boundary).map
    fun value' sameValue => ?_
  rw [Element.erase, head_erase sameTag sameLeading sameBehind, sameName, sameValue]
  rfl

theorem givesBack_symbol {name : Path} : GivesBack below n (.symbol h name) := by
  intro before t a room wf sameTag sameLeading line shown boundary
  obtain ⟨begins, wfName⟩ := wf
  simp only [Element.content, Head.behind, List.length_append] at room
  simp only [Element.content, Spot.after_append] at boundary
  obtain ⟨shownName, shownBehind⟩ := Piece.shows_append.mp shown
  refine (takes_path (by omega) wfName shownName
    (boundary.ne_dot_of_trailing shownBehind)).bind fun name' sameName => ?_
  refine (takes_trailing (by omega) begins.trailing shownBehind (boundary.ne_mark .colon)).map
    fun behind sameBehind => ?_
  rw [Element.erase, head_erase sameTag sameLeading sameBehind, sameName]
  rfl

theorem givesBack_branch (complete : below.Complete n) {guard : Expr} {body : List Element}
    {others : List Guarded} {otherwise : Option (List Element)} :
    GivesBack below n (.branch h guard body others otherwise) := by
  intro before t a room wf sameTag sameLeading line shown boundary
  obtain ⟨begins, wfGuard, wfBody, wfOthers, wfOtherwise, apart⟩ := wf
  simp only [Element.content, Head.behind, List.length_append] at room
  obtain ⟨shownGuard, shown⟩ := Piece.shows_append.mp shown
  obtain ⟨shownBehind, shown⟩ := Piece.shows_append.mp shown
  obtain ⟨shownBody, shownOthers⟩ := Piece.shows_append.mp shown
  have closes := closes_of_others shownOthers
  have inner := Element.boundary_of_shows wfBody shownBody closes.boundary
  have regrouped := shownOthers
  rw [← List.append_assoc] at regrouped
  obtain ⟨-, ending, -⟩ := Piece.shows_append.mp regrouped
  have fits := @Piece.length_flatMap_ge _ (fun g => Element.guardedPieces [.tag "else"] [g])
    others fun ⟨x, guard, body⟩ _ => by simp [Element.guardedPieces]
  rw [← Element.guardedPieces_eq] at fits
  refine (takes_expression complete (by omega) wfGuard shownGuard
    (inner.continuation?_of_trailing shownBehind)).bind fun guard' sameGuard => ?_
  refine (takes_trailing (by omega) begins.trailing shownBehind (inner.ne_mark .colon)).bind
    fun behind sameBehind => ?_
  refine (takes_elements complete (by omega) wfBody shownBody closes).bind
    fun body' sameBody => ?_
  rw [← List.append_assoc]
  refine (takes_otherBranches complete (by rw [List.length_append]; omega) (by omega) wfOthers
    wfOtherwise apart shownOthers).bind ?_
  rintro ⟨_, _⟩ ⟨⟨others', rfl, sameOthers⟩, sameOtherwise⟩
  refine (takes_expect ending rfl).map fun _ _ => ?_
  rw [Element.erase, head_erase sameTag sameLeading sameBehind, sameGuard, sameBody, sameOthers,
    sameOtherwise]
  rfl

theorem givesBack_exemption (complete : below.Complete n) {guard : Expr} {body : List Element}
    {otherwise : Option (List Element)} :
    GivesBack below n (.exemption h guard body otherwise) := by
  intro before t a room wf sameTag sameLeading line shown boundary
  obtain ⟨begins, wfGuard, wfBody, wfOtherwise⟩ := wf
  simp only [Element.content, Head.behind, List.length_append] at room
  obtain ⟨shownGuard, shown⟩ := Piece.shows_append.mp shown
  obtain ⟨shownBehind, shown⟩ := Piece.shows_append.mp shown
  obtain ⟨shownBody, shownOtherwise⟩ := Piece.shows_append.mp shown
  obtain ⟨-, ending, -⟩ := Piece.shows_append.mp shownOtherwise
  have closes := closes_of_bodyAfter rfl (by decide) shownOtherwise
  have inner := Element.boundary_of_shows wfBody shownBody closes.boundary
  refine (takes_expression complete (by omega) wfGuard shownGuard
    (inner.continuation?_of_trailing shownBehind)).bind fun guard' sameGuard => ?_
  refine (takes_trailing (by omega) begins.trailing shownBehind (inner.ne_mark .colon)).bind
    fun behind sameBehind => ?_
  refine (takes_elements complete (by omega) wfBody shownBody closes).bind
    fun body' sameBody => ?_
  refine (takes_bodyAfter complete rfl (by omega) wfOtherwise shownOtherwise).bind
    fun otherwise' sameOtherwise => ?_
  refine (takes_expect ending rfl).map fun _ _ => ?_
  rw [Element.erase, head_erase sameTag sameLeading sameBehind, sameGuard, sameBody, sameOtherwise]
  rfl

theorem givesBack_selection (complete : below.Complete n) {subject : Expr} {cases : List Guarded}
    {otherwise : Option (List Element)} :
    GivesBack below n (.selection h subject cases otherwise) := by
  intro before t a room wf sameTag sameLeading line shown boundary
  obtain ⟨begins, wfSubject, wfCases, wfOtherwise⟩ := wf
  simp only [Element.content, Head.behind, List.length_append] at room
  obtain ⟨shownSubject, shown⟩ := Piece.shows_append.mp shown
  obtain ⟨shownBehind, shown⟩ := Piece.shows_append.mp shown
  have inner := (closes_of_cases wfCases shown).boundary
  obtain ⟨shownCases, shownOtherwise⟩ := Piece.shows_append.mp shown
  obtain ⟨-, ending, -⟩ := Piece.shows_append.mp shownOtherwise
  have closes := closes_of_bodyAfter rfl (by decide) shownOtherwise
  refine (takes_expression complete (by omega) wfSubject shownSubject
    (inner.continuation?_of_trailing shownBehind)).bind fun subject' sameSubject => ?_
  refine (takes_trailing (by omega) begins.trailing shownBehind (inner.ne_mark .colon)).bind
    fun behind sameBehind => ?_
  refine (takes_cases complete (by omega) wfCases shownCases closes
    (not_isTag_of_bodyAfter rfl (by decide) shownOtherwise)).bind fun cases' sameCases => ?_
  refine (takes_bodyAfter complete rfl (by omega) wfOtherwise shownOtherwise).bind
    fun otherwise' sameOtherwise => ?_
  refine (takes_expect ending rfl).map fun _ _ => ?_
  rw [Element.erase, head_erase sameTag sameLeading sameBehind, sameSubject, sameCases,
    sameOtherwise]
  rfl

theorem givesBack_check (complete : below.Complete n) {body : List Element}
    {detections : List Detection} {regardless : Option (List Element)} :
    GivesBack below n (.check h body detections regardless) := by
  intro before t a room wf sameTag sameLeading line shown boundary
  obtain ⟨begins, wfBody, wfDetections, wfRegardless⟩ := wf
  simp only [Element.content, Head.behind, List.length_append] at room
  obtain ⟨shownBehind, shown⟩ := Piece.shows_append.mp shown
  obtain ⟨shownBody, shown⟩ := Piece.shows_append.mp shown
  have closesBody := closes_of_detections wfDetections shown
  have inner := Element.boundary_of_shows wfBody shownBody closesBody.boundary
  obtain ⟨shownDetections, shownRegardless⟩ := Piece.shows_append.mp shown
  obtain ⟨-, ending, -⟩ := Piece.shows_append.mp shownRegardless
  have closes := closes_of_bodyAfter rfl (by decide) shownRegardless
  refine (takes_trailing (by omega) begins.trailing shownBehind (inner.ne_mark .colon)).bind
    fun behind sameBehind => ?_
  refine (takes_elements complete (by omega) wfBody shownBody closesBody).bind
    fun body' sameBody => ?_
  refine (takes_detections complete (by omega) wfDetections shownDetections closes
    (not_isTag_of_bodyAfter rfl (by decide) shownRegardless)).bind
    fun detections' sameDetections => ?_
  refine (takes_bodyAfter complete rfl (by omega) wfRegardless shownRegardless).bind
    fun regardless' sameRegardless => ?_
  refine (takes_expect ending rfl).map fun _ _ => ?_
  rw [Element.erase, head_erase sameTag sameLeading sameBehind, sameBody, sameDetections,
    sameRegardless]
  rfl

theorem givesBack_assertion (complete : below.Complete n) {condition : Expr} :
    GivesBack below n (.assertion h condition) := by
  intro before t a room wf sameTag sameLeading line shown boundary
  obtain ⟨begins, wfCondition⟩ := wf
  simp only [Element.content, Head.behind, List.length_append] at room
  simp only [Element.content, Spot.after_append] at boundary
  obtain ⟨shownCondition, shownBehind⟩ := Piece.shows_append.mp shown
  refine (takes_expression complete (by omega) wfCondition shownCondition
    (boundary.continuation?_of_trailing shownBehind)).bind fun condition' sameCondition => ?_
  refine (takes_trailing (by omega) begins.trailing shownBehind (boundary.ne_mark .colon)).map
    fun behind sameBehind => ?_
  rw [Element.erase, head_erase sameTag sameLeading sameBehind, sameCondition]
  rfl

theorem givesBack_invocation (complete : below.Complete n) {callee : Path} {args : List Expr} :
    GivesBack below n (.invocation h callee args) := by
  intro before t a room wf sameTag sameLeading line shown boundary
  obtain ⟨begins, wfCallee, wfArguments⟩ := wf
  simp only [Element.content, Head.behind, List.length_append] at room
  simp only [Element.content, Spot.after_append] at boundary
  obtain ⟨shownCallee, shown⟩ := Piece.shows_append.mp shown
  obtain ⟨shownArguments, shownBehind⟩ := Piece.shows_append.mp shown
  obtain ⟨opening, shownArguments⟩ := shownArguments
  have open' : (a.after callee.pieces).tokens.head.kind = .mark .openParen := opening.kind
  refine (takes_path (by omega) wfCallee shownCallee (by rw [open']; decide)).bind
    fun callee' sameCallee => ?_
  refine (takes_expect opening rfl).bind fun _ _ => ?_
  refine (takes_callArguments complete (by omega) wfArguments shownArguments).bind
    fun arguments' sameArguments => ?_
  refine (takes_trailing (by omega) begins.trailing shownBehind (boundary.ne_mark .colon)).map
    fun behind sameBehind => ?_
  rw [Element.erase, head_erase sameTag sameLeading sameBehind, sameCallee, sameArguments]
  rfl

theorem givesBack_result (complete : below.Complete n) {value : Option Expr} :
    GivesBack below n (.result h value) := by
  intro before t a room wf sameTag sameLeading line shown boundary
  obtain ⟨begins, wfValue⟩ := wf
  simp only [Element.content, Head.behind, List.length_append] at room
  simp only [Element.content, Spot.after_append] at boundary
  obtain ⟨shownValue, shownBehind⟩ := Piece.shows_append.mp shown
  refine (takes_resultValue complete line (by omega) wfValue shownValue
    (boundary.continuation?_of_trailing shownBehind) ?_).bind fun value' sameValue => ?_
  · rintro rfl
    exact boundary.bare_of_trailing shownBehind
  · refine (takes_trailing (by omega) begins.trailing shownBehind
      (boundary.ne_mark .colon)).map fun behind sameBehind => ?_
    rw [Element.erase, head_erase sameTag sameLeading sameBehind, sameValue]
    rfl

theorem givesBack_raising (complete : below.Complete n) {error : Expr} :
    GivesBack below n (.raising h error) := by
  intro before t a room wf sameTag sameLeading line shown boundary
  obtain ⟨begins, wfError⟩ := wf
  simp only [Element.content, Head.behind, List.length_append] at room
  simp only [Element.content, Spot.after_append] at boundary
  obtain ⟨shownError, shownBehind⟩ := Piece.shows_append.mp shown
  refine (takes_expression complete (by omega) wfError shownError
    (boundary.continuation?_of_trailing shownBehind)).bind fun error' sameError => ?_
  refine (takes_trailing (by omega) begins.trailing shownBehind (boundary.ne_mark .colon)).map
    fun behind sameBehind => ?_
  rw [Element.erase, head_erase sameTag sameLeading sameBehind, sameError]
  rfl

theorem givesBack_traversal (complete : below.Complete n) {variableName : Path} {iterable : Expr}
    {body : List Element} : GivesBack below n (.traversal h variableName iterable body) := by
  intro before t a room wf sameTag sameLeading line shown boundary
  obtain ⟨begins, wfName, wfIterable, wfBody⟩ := wf
  simp only [Element.content, Head.behind, List.length_append, List.length_cons] at room
  obtain ⟨shownName, shown⟩ := Piece.shows_append.mp shown
  obtain ⟨shownBehind, word, shown⟩ := Piece.shows_append.mp shown
  obtain ⟨shownIterable, shownBody⟩ := Piece.shows_append.mp shown
  have inner := boundary_of_closedBody wfBody shownBody
  have kind : ((a.after variableName.pieces).after (Piece.trailing h.trailing)).tokens.head.kind
    = .identifier := word.kind
  have nameEnds := Piece.holds_of_trailing (fun kind => kind ≠ .mark .dot) shownBehind
    (by decide) (by rw [kind]; decide)
  refine (takes_path (by omega) wfName shownName nameEnds).bind fun name' sameName => ?_
  refine (takes_trailing (by omega) begins.trailing shownBehind (by rw [kind]; decide)).bind
    fun behind sameBehind => ?_
  refine (takes_expectText word rfl rfl).bind fun _ _ => ?_
  refine (takes_expression complete (by omega) wfIterable shownIterable inner.continuation?).bind
    fun iterable' sameIterable => ?_
  refine (takes_closedBody complete (by omega) wfBody shownBody).map fun body' sameBody => ?_
  rw [Element.erase, head_erase sameTag sameLeading sameBehind, sameName, sameIterable, sameBody]
  rfl

theorem givesBack_loop (complete : below.Complete n) {kind : LoopKind} {condition : Expr}
    {body : List Element} : GivesBack below n (.loop kind h condition body) := by
  intro before t a room wf sameTag sameLeading line shown boundary
  obtain ⟨begins, wfCondition, wfBody⟩ := wf
  simp only [Element.content, Head.behind, List.length_append] at room
  obtain ⟨shownCondition, shown⟩ := Piece.shows_append.mp shown
  obtain ⟨shownBehind, shownBody⟩ := Piece.shows_append.mp shown
  have inner := boundary_of_closedBody wfBody shownBody
  refine (takes_expression complete (by omega) wfCondition shownCondition
    (inner.continuation?_of_trailing shownBehind)).bind fun condition' sameCondition => ?_
  refine (takes_trailing (by omega) begins.trailing shownBehind (inner.ne_mark .colon)).bind
    fun behind sameBehind => ?_
  refine (takes_closedBody complete (by omega) wfBody shownBody).map fun body' sameBody => ?_
  rw [Element.erase, head_erase sameTag sameLeading sameBehind, sameCondition, sameBody]
  rfl

theorem givesBack_assignment (complete : below.Complete n) {assignee : Path} {operator : Token}
    {value : Expr} : GivesBack below n (.assignment h assignee operator value) := by
  intro before t a room wf sameTag sameLeading line shown boundary
  obtain ⟨begins, wfAssignee, assigns, wfValue⟩ := wf
  simp only [Element.content, Head.behind, List.length_append, List.length_cons] at room
  simp only [Element.content, Spot.after_append, Spot.after_cons] at boundary
  obtain ⟨shownAssignee, shown⟩ := Piece.shows_append.mp shown
  obtain ⟨shownBehind, shownOperator, shownValue⟩ := Piece.shows_append.mp shown
  have others : ∀ m ∈ assignmentMarks, m ≠ .colon ∧ m ≠ .dot := by decide
  obtain ⟨m, hm, kind⟩ := assigns
  have here : ((a.after assignee.pieces).after (Piece.trailing h.trailing)).tokens.head.kind
    = .mark m := shownOperator.kind.trans kind
  have nameEnds := Piece.holds_of_trailing (fun kind => kind ≠ .mark .dot) shownBehind
    (by decide) (by rw [here]; simp [(others m hm).2])
  refine (takes_path (by omega) wfAssignee shownAssignee nameEnds).bind
    fun assignee' sameAssignee => ?_
  refine (takes_trailing (by omega) begins.trailing shownBehind
    (by rw [here]; simp [(others m hm).1])).bind fun behind sameBehind => ?_
  refine (takes_assignmentOperator ⟨m, hm, kind⟩ shownOperator).bind
    fun operator' sameOperator => ?_
  refine (takes_expression complete (by omega) wfValue shownValue boundary.continuation?).map
    fun value' sameValue => ?_
  rw [Element.erase, head_erase sameTag sameLeading sameBehind, sameAssignee, sameOperator,
    sameValue]
  rfl

/-- Every handler gives back what follows its tag. -/
theorem givesBack (complete : below.Complete n) (e : Element) : GivesBack below n e := by
  cases e with
  | scope => exact givesBack_scope complete
  | callable => exact givesBack_callable complete
  | binding => exact givesBack_binding complete
  | symbol => exact givesBack_symbol
  | branch => exact givesBack_branch complete
  | exemption => exact givesBack_exemption complete
  | selection => exact givesBack_selection complete
  | check => exact givesBack_check complete
  | assertion => exact givesBack_assertion complete
  | invocation => exact givesBack_invocation complete
  | result => exact givesBack_result complete
  | raising => exact givesBack_raising complete
  | traversal => exact givesBack_traversal complete
  | loop => exact givesBack_loop complete
  | assignment => exact givesBack_assignment complete

end Handlers

section Dispatch

/-- The construct of an element is found by its tag and by the word behind it. -/
theorem takes_construct {word : String} {c : Construct}
    (candidate : c ∈ Registry.standard.candidates word)
    (second : ∀ w ∈ c.second, a.tokens.tail.head.text = w) :
    (construct .standard word).Takes a [] fun o => o = some c := by
  have found := Registry.find?_candidates candidate
  rw [construct]
  split at found
  · rename_i single
    rw [if_pos single]
    exact takes_done found
  · rename_i several
    obtain ⟨hasSecond, unique⟩ := found
    obtain ⟨w, hw⟩ := Option.isSome_iff_exists.mp hasSecond
    rw [if_neg several]
    refine takes_lookSecond_bind ?_
    rw [second w hw, ← hw, unique]
    exact takes_done rfl

/-- Behind the tag and the second word, the line of the tag has been reached. -/
theorem line_after_tag {h : Head} {kind : ElementKind} (wf : h.Begins kind) :
    (a.after (.held h.tag :: h.second kind)).line = a.line := by
  obtain ⟨c, candidate, rfl⟩ := wf.construct
  have words : ∀ w ∈ ["type", "for", "until", "while"], w.toList.count '\n' = 0 := by decide
  have name : h.tag.text.toList.count '\n' = 0 :=
    Registry.count_newline_of_isConstructTag wf.isConstructTag
  have first : (a.past (.held h.tag)).line = a.line := by
    show a.line + h.tag.text.toList.count '\n' = a.line
    rw [name, Nat.add_zero]
  rw [Head.second, Registry.second?_of_mem_candidates candidate, Spot.after_cons]
  cases hw : c.second with
  | none => exact first
  | some w =>
      show (a.past (.held h.tag)).line + w.toList.count '\n' = a.line
      rw [words w (Registry.second_mem_of_mem_candidates candidate hw), first, Nat.add_zero]

/-- An element is given back from its tag on. -/
theorem takes_dispatched (complete : below.Complete n) {e : Element} {before : List Annotation}
    {c : Construct} (room : e.content.length < n) (wf : e.WellFormed)
    (sameLeading : before.map Annotation.erase = e.head.leading.map Annotation.erase)
    (candidate : c ∈ Registry.standard.candidates e.head.tag.tagName) (sort : c.kind = e.kind)
    (shown : Piece.Shows ((.held e.head.tag :: e.head.second e.kind) ++ e.content) a)
    (boundary : (a.after ((.held e.head.tag :: e.head.second e.kind) ++ e.content)).Boundary) :
    (dispatched .standard n below before c).Takes a
      ((.held e.head.tag :: e.head.second e.kind) ++ e.content) fun x => x.erase = e.erase := by
  obtain ⟨⟨tag, shownSecond⟩, shownContent⟩ := Piece.shows_append.mp shown
  rw [Spot.after_append] at boundary
  have line : a.tokens.head.position.line =
      (a.after (.held e.head.tag :: e.head.second e.kind)).line := by
    rw [line_after_tag (Element.begins_of_wellFormed wf)]
    exact tag.line
  have content := givesBack complete e before _ _ room wf tag.erase_head sameLeading line
    shownContent boundary
  have second : e.head.second e.kind = (c.second.map Piece.identifier).toList := by
    rw [Head.second, ← sort, Registry.second?_of_mem_candidates candidate]
  have taken : next.Takes a [.held e.head.tag] fun t => t = a.tokens.head := takes_next rfl
  refine taken.bind fun t ht => ?_
  subst ht
  rw [second] at shownSecond content ⊢
  rw [sort]
  cases hw : c.second with
  | none =>
      rw [hw] at content
      exact content
  | some w =>
      rw [hw] at content shownSecond
      exact (takes_expectText shownSecond.1 rfl rfl).bind fun _ _ => content

theorem takes_element (complete : below.Complete n) {e : Element} (room : e.pieces.length ≤ n)
    (wf : e.WellFormed) (shown : Piece.Shows e.pieces a) (boundary : (a.after e.pieces).Boundary) :
    (element .standard n below).Takes a e.pieces fun x => x.erase = e.erase := by
  have begins := Element.begins_of_wellFormed wf
  obtain ⟨c, candidate, sort⟩ := begins.construct
  have length := e.length_leading_add_length_content_lt
  rw [Element.after_pieces, Spot.after_append] at boundary
  rw [Element.shows_pieces, Piece.shows_append] at shown
  obtain ⟨shownLeading, shownTag⟩ := shown
  have tag : (Piece.held e.head.tag).Shown (a.nextLine.after (Piece.leading e.head.leading)) :=
    shownTag.1
  have isTag := begins.isConstructTag_of_shown tag
  have kind := Registry.kind_of_isConstructTag tag.regular isTag
  have kinds : ∀ kind ∈ TokenKind.constructTags, kind.annotates = false ∧ kind.isFault = false := by
    decide
  obtain ⟨bare, noFault⟩ := kinds _ kind
  rw [Parse.Takes, Element.after_pieces]
  refine (takes_leading (by omega) begins.leading shownLeading bare).bind
    fun before sameLeading => ?_
  refine takes_look_bind ?_
  have dispatches : Registry.dispatches
      (a.nextLine.after (Piece.leading e.head.leading)).tokens.head = true := by
    rw [Registry.isConstructTag, Bool.and_eq_true] at isTag
    exact isTag.1
  have name : (a.nextLine.after (Piece.leading e.head.leading)).tokens.head.tagName =
      e.head.tag.tagName := Token.tagName_congr tag.text
  rw [noFault, if_neg Bool.false_ne_true, if_pos dispatches, name]
  have found : (construct .standard e.head.tag.tagName).Takes
      (a.nextLine.after (Piece.leading e.head.leading)) [] fun o => o = some c := by
    refine takes_construct candidate fun w hw => ?_
    have second : e.head.second e.kind = [.identifier w] := by
      rw [Head.second, ← sort, Registry.second?_of_mem_candidates candidate, hw]
      rfl
    have shownSecond := shownTag
    rw [second] at shownSecond
    exact shownSecond.2.1.text
  refine found.bind fun o ho => ?_
  subst ho
  exact takes_dispatched complete (by omega) wf sameLeading candidate sort shownTag boundary

/-- Every level of nesting gives back what has fewer pieces. -/
theorem complete_level (n : Nat) : (level .standard n).Complete n := by
  induction n with
  | zero =>
      refine ⟨writesExpr_level 0, ?_⟩
      intro e a room
      cases room
  | succ n ih =>
      refine ⟨writesExpr_level (n + 1), ?_⟩
      intro e a room wf shown boundary
      exact takes_element ih (Nat.le_of_lt_succ room) wf shown boundary

end Dispatch

end Grammar

end TagLang
