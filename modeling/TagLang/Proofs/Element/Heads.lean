import TagLang.Proofs.Element.Boundary
import TagLang.Proofs.Piece.Loops

/-!
# What the parsers of heads give back

Annotations, names and parameters hold no elements, so they are given back wherever they are
shown. Each of them ends before a token that does not continue it; what may stand behind a
list of annotations may stand before it too, or else a colon does (`holds_of_trailing`).
-/

namespace TagLang

open Parse

namespace Piece

variable {a : Spot}

/-- What holds of colons and of the token behind a list of annotations holds of the token
before it. -/
theorem holds_of_trailing (holds : TokenKind → Prop) {xs : List Annotation}
    (shown : Shows (trailing xs) a) (colon : holds (.mark .colon))
    (behind : holds (a.after (trailing xs)).tokens.head.kind) : holds a.tokens.head.kind := by
  cases xs with
  | nil => exact behind
  | cons x xs =>
      have kind : a.tokens.head.kind = .mark .colon := shown.1.kind
      rw [kind]
      exact colon

end Piece

namespace Spot.Boundary

variable {a : Spot} {xs : List Annotation}

/-- Before a list of annotations in front of a boundary, no name goes on. -/
theorem ne_dot_of_trailing (h : (a.after (Piece.trailing xs)).Boundary)
    (shown : Piece.Shows (Piece.trailing xs) a) : a.tokens.head.kind ≠ .mark .dot :=
  Piece.holds_of_trailing (fun kind => kind ≠ .mark .dot) shown (by decide) (h.ne_mark .dot)

/-- Before a list of annotations in front of a boundary, no expression goes on. -/
theorem continuation?_of_trailing (h : (a.after (Piece.trailing xs)).Boundary)
    (shown : Piece.Shows (Piece.trailing xs) a) :
    Registry.standard.continuation? a.tokens.head.kind = none :=
  Piece.holds_of_trailing (fun kind => Registry.standard.continuation? kind = none) shown
    (by decide) h.continuation?

/-- Before a list of annotations in front of a boundary, no value begins. -/
theorem bare_of_trailing (h : (a.after (Piece.trailing xs)).Boundary)
    (shown : Piece.Shows (Piece.trailing xs) a) : a.Bare := by
  cases xs with
  | nil => exact h.bare
  | cons x xs =>
      have kind : a.tokens.head.kind = .mark .colon := shown.1.kind
      refine .inl ?_
      rw [kind]
      decide

end Spot.Boundary

namespace Annotation

variable {x : Annotation} {a : Spot}

/-- The token of an annotation is taken for the annotation. -/
theorem erase_ofToken_head (wf : x.WellFormed) (shown : (Piece.held x.token).Shown a) :
    erase (ofToken a.tokens.head) = x.erase := by
  have kind : a.tokens.head.kind = x.token.kind := shown.kind
  have same := shown.erase_head
  cases x with
  | documentation t =>
      have comment : a.tokens.head.kind = .documentation := kind.trans wf
      rw [ofToken, if_pos comment]
      exact congrArg documentation same
  | named t =>
      have identifier : a.tokens.head.kind = .identifier := kind.trans wf
      rw [ofToken, identifier, if_neg (by decide)]
      exact congrArg named same

end Annotation

namespace Grammar

variable {n : Nat} {a : Spot}

theorem annotates_of_shown {x : Annotation} (wf : x.WellFormed)
    (shown : (Piece.held x.token).Shown a) : a.tokens.head.kind.annotates = true := by
  have kind : a.tokens.head.kind = x.token.kind := shown.kind
  rw [kind]
  exact x.annotates_of_wellFormed wf

/-- An annotation that comes next is taken. -/
theorem takes_annotation {x : Annotation} (wf : x.WellFormed)
    (shown : (Piece.held x.token).Shown a) :
    (next.bind fun t => done (some (.ofToken t : Annotation))).Takes a [.held x.token] fun o =>
      ∃ y, o = some y ∧ y.erase = x.erase := by
  have taken : next.Takes a [.held x.token] fun t => Annotation.erase (.ofToken t) = x.erase :=
    takes_next (x.erase_ofToken_head wf shown)
  exact taken.map fun t same => ⟨_, rfl, same⟩

/-- Annotations before a tag end before what is none. -/
theorem takes_leading {xs : List Annotation} (room : (Piece.leading xs).length < n)
    (wf : ∀ x ∈ xs, x.WellFormed) (shown : Piece.Shows (Piece.leading xs) a)
    (ends : (a.after (Piece.leading xs)).tokens.head.kind.annotates = false) :
    (leading n).Takes a (Piece.leading xs) fun ys =>
      ys.map Annotation.erase = xs.map Annotation.erase := by
  have shape : Piece.leading xs = xs.flatMap fun x => [.held x.token] := List.map_eq_flatMap
  rw [Piece.leading, List.length_map] at room
  rw [shape] at shown ends ⊢
  have loop := @takes_gather _ _ leadingOne (fun x : Annotation => [Piece.held x.token])
    (fun y x => y.erase = x.erase) (fun _ => True) xs n a ?_ ?_ trivial ?_ room shown
  · exact loop.mono fun ys same => List.map_eq_map_of_forall₂ same
  · intro x hx b shown _
    refine takes_look_bind ?_
    rw [if_pos (annotates_of_shown (wf x hx) shown.1)]
    exact takes_annotation (wf x hx) shown.1
  · exact fun _ _ _ _ => trivial
  · refine takes_look_bind ?_
    rw [ends]
    exact takes_done rfl

/-- Annotations behind a head end before what is no colon. -/
theorem takes_trailing {xs : List Annotation} (room : (Piece.trailing xs).length < n)
    (wf : ∀ x ∈ xs, x.WellFormed) (shown : Piece.Shows (Piece.trailing xs) a)
    (ends : (a.after (Piece.trailing xs)).tokens.head.kind ≠ .mark .colon) :
    (trailing n).Takes a (Piece.trailing xs) fun ys =>
      ys.map Annotation.erase = xs.map Annotation.erase := by
  have enough : xs.length ≤ (Piece.trailing xs).length :=
    Piece.length_flatMap_ge fun _ _ => by simp
  have loop := @takes_gather _ _ trailingOne
    (fun x : Annotation => [.mark .colon, Piece.held x.token])
    (fun y x => y.erase = x.erase) (fun _ => True) xs n a ?_ ?_ trivial ?_
    (Nat.lt_of_le_of_lt enough room) shown
  · exact loop.mono fun ys same => List.map_eq_map_of_forall₂ same
  · intro x hx b shown _
    refine takes_accept_bind shown.1.kind (takes_look_bind ?_)
    rw [if_pos (annotates_of_shown (wf x hx) shown.2.1)]
    exact takes_annotation (wf x hx) shown.2.1
  · exact fun _ _ _ _ => trivial
  · exact takes_accept_bind_of_ne ends (takes_done rfl)

/-- A name ends before what is no dot. -/
theorem takes_path {p : Path} (room : p.pieces.length < n) (wf : p.WellFormed)
    (shown : Piece.Shows p.pieces a)
    (ends : (a.after p.pieces).tokens.head.kind ≠ .mark .dot) :
    (path n).Takes a p.pieces fun q => q.erase = p.erase := by
  have enough : p.more.length ≤ (Path.furtherPieces p.more).length :=
    Piece.length_flatMap_ge fun _ _ => by simp
  rw [Path.pieces, List.length_cons] at room
  obtain ⟨first, others⟩ := shown
  have loop := @takes_gather _ _ furtherEntry (fun t : Token => [.mark .dot, Piece.held t])
    (fun u t => u.erase = t.erase) (fun _ => True) p.more n (a.past (.held p.first)) ?_ ?_ trivial
    ?_ (by omega) others
  · have name := wf p.first List.mem_cons_self
    refine (takes_expect first name).bind fun t same => ?_
    refine loop.map fun ts sameMore => ?_
    have sameFirst : t.erase = p.first.erase := Token.erase_eq_iff.mpr same
    rw [Path.erase, Path.erase, sameFirst, List.map_eq_map_of_forall₂ sameMore]
  · intro t ht b shown _
    have name := wf t (List.mem_cons_of_mem _ ht)
    refine takes_accept_bind shown.1.kind ?_
    exact (takes_expect shown.2.1 name).map fun u same => ⟨u, rfl, Token.erase_eq_iff.mpr same⟩
  · exact fun _ _ _ _ => trivial
  · exact takes_accept_bind_of_ne ends (takes_done rfl)

theorem takes_parameters {ps : List Parameter} (room : (Parameter.listPieces ps).length < n)
    (wf : ∀ p ∈ ps, p.WellFormed) (shown : Piece.Shows (Parameter.listPieces ps) a) :
    (parameters n).Takes a (Parameter.listPieces ps) fun qs =>
      qs.map Parameter.erase = ps.map Parameter.erase := by
  have enough : ps.length ≤ (Piece.separated (ps.map Parameter.pieces)).length :=
    Piece.length_separated_ge fun _ _ => by simp [Parameter.pieces, Path.pieces]
  simp only [Parameter.listPieces, List.length_cons, List.length_append] at room
  obtain ⟨opening, others⟩ := shown
  have loop := @takes_items _ _ (parameter n) Parameter.pieces (fun q p => q.erase = p.erase) ps n
    (a.past (.mark .openParen)) ?_ ?_ (by omega) others
  · refine (takes_expect opening rfl).bind fun _ _ => ?_
    exact loop.mono fun qs same => List.map_eq_map_of_forall₂ same
  · intro p hp b shown behind
    have fits : p.pieces.length ≤ (Piece.separated (ps.map Parameter.pieces)).length :=
      Piece.length_le_length_separated hp
    rw [Parameter.pieces, List.length_append] at fits
    rw [Parameter.pieces, Piece.shows_append] at shown
    rw [Parameter.pieces, Spot.after_append] at behind
    have kinds : ∀ kind ∈ [TokenKind.mark .comma, .mark .closeParen],
        kind ≠ .mark .colon ∧ kind ≠ .mark .dot := by
      decide
    obtain ⟨noColon, noDot⟩ := kinds _ behind
    have ends := Piece.holds_of_trailing (fun kind => kind ≠ .mark .dot) shown.2 (by decide) noDot
    refine (takes_path (by omega) (wf p hp).1 shown.1 ends).bind fun name sameName => ?_
    refine (takes_trailing (by omega) (wf p hp).2 shown.2 noColon).map fun behind sameBehind => ?_
    rw [Parameter.erase, Parameter.erase, sameName, sameBehind]
  · intro p hp b shown closed
    have name : b.tokens.head.kind = p.name.first.kind := shown.1.kind
    have identifier := (wf p hp).1 p.name.first List.mem_cons_self
    rw [name, identifier] at closed
    cases closed

end Grammar

end TagLang
