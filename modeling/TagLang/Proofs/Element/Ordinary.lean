import TagLang.Proofs.Element.Boundary
import TagLang.Proofs.Expr.Completeness

/-!
# What elements imply

All that a well-formed unit holds no token for is among the marks and the fixed words of the
language, whatever the unit is, so its text can be read again if its tokens can.
-/

namespace TagLang

namespace Piece

variable {ps : List Piece}

theorem ordinary_beginLine (h : Ordinary ps) : Ordinary (beginLine ps) := by
  cases ps with
  | nil => exact h
  | cons p ps => exact List.forall_mem_cons.mpr (List.forall_mem_cons.mp h)

theorem ordinary_flatMap {β : Type} {shape : β → List Piece} {bs : List β}
    (h : ∀ b ∈ bs, Ordinary (shape b)) : Ordinary (bs.flatMap shape) :=
  List.forall_mem_flatMap.mpr h

theorem ordinary_leading (xs : List Annotation) : Ordinary (leading xs) := by
  simp [leading, Ordinary]

@[simp] theorem ordinary_trailing (xs : List Annotation) : Ordinary (trailing xs) :=
  ordinary_flatMap fun x _ => by simp [Content.implied]

theorem ordinary_separated {items : List (List Piece)} (h : ∀ ps ∈ items, Ordinary ps) :
    Ordinary (separated items) := by
  cases items with
  | nil => exact ordinary_nil
  | cons ps items =>
      obtain ⟨first, others⟩ := List.forall_mem_cons.mp h
      refine ordinary_append.mpr ⟨first, ordinary_flatMap fun qs hqs => ?_⟩
      simp [Content.implied, others qs hqs]

theorem ordinary_else : (tag "else").content.Ordinary := by
  simp [Content.implied]

theorem ordinary_regardless : (tag "regardless").content.Ordinary := by
  simp [Content.implied]

end Piece

@[simp] theorem Path.ordinary_pieces (p : Path) : Piece.Ordinary p.pieces := by
  refine Piece.ordinary_cons.mpr ⟨trivial, Piece.ordinary_flatMap fun t _ => ?_⟩
  simp [Piece.Content.implied]

@[simp] theorem Parameter.ordinary_listPieces (ps : List Parameter) :
    Piece.Ordinary (Parameter.listPieces ps) := by
  have items : Piece.Ordinary (Piece.separated (ps.map Parameter.pieces)) := by
    refine Piece.ordinary_separated fun qs hqs => ?_
    obtain ⟨p, -, rfl⟩ := List.mem_map.mp hqs
    simp [Parameter.pieces]
  simp [Parameter.listPieces, items, Piece.Content.implied]

@[simp] theorem Expr.ordinary_pieces (e : Expr) : Piece.Ordinary e.pieces :=
  e.written.ordinary_pieces

@[simp] theorem Expr.ordinary_argumentPieces (es : List Expr) :
    Piece.Ordinary (Expr.argumentPieces es) := by
  simp [Expr.argumentPieces, Written.ordinary_argumentPieces, Piece.Content.implied]

@[simp] theorem Expr.ordinary_initialPieces (value : Option Expr) :
    Piece.Ordinary (Expr.initialPieces value) := by
  cases value <;> simp [Expr.initialPieces, Piece.Content.implied]

theorem Head.ordinary_opening {h : Head} {kind : ElementKind} (wf : h.Begins kind) :
    Piece.Ordinary (h.opening kind) := by
  obtain ⟨c, candidate, rfl⟩ := wf.construct
  have words : ∀ w ∈ ["type", "for", "until", "while"],
      Piece.Content.identifier w ∈ Piece.Content.implied := by
    simp [Piece.Content.implied]
  refine Piece.ordinary_beginLine (Piece.ordinary_append.mpr ⟨Piece.ordinary_leading _, ?_⟩)
  rw [Registry.second?_of_mem_candidates candidate]
  refine Piece.ordinary_cons.mpr ⟨trivial, ?_⟩
  cases hw : c.second with
  | none => exact Piece.ordinary_nil
  | some w =>
      have ordinary := words w (Registry.second_mem_of_mem_candidates candidate hw)
      simpa using ordinary

namespace Element

mutual

theorem ordinary_content {e : Element} (wf : e.WellFormed) : Piece.Ordinary e.content := by
  cases e with
  | scope kind h name body =>
      simp [content, Head.behind, ordinary_bodyPieces wf.2.2, Piece.Content.implied]
  | callable kind h name parameters body =>
      simp [content, Head.behind, ordinary_bodyPieces wf.2.2.2, Piece.Content.implied]
  | binding kind h name value => simp [content, Head.behind]
  | symbol h name => simp [content, Head.behind]
  | branch h guard body others otherwise =>
      obtain ⟨-, -, wfBody, wfOthers, wfOtherwise, -⟩ := wf
      simp [content, Head.behind, ordinary_bodyPieces wfBody,
        ordinary_guardedPieces (Piece.ordinary_cons.mpr ⟨Piece.ordinary_else, Piece.ordinary_nil⟩)
          wfOthers,
        ordinary_bodyPiecesAfter Piece.ordinary_else wfOtherwise, Piece.Content.implied]
  | exemption h guard body otherwise =>
      obtain ⟨-, -, wfBody, wfOtherwise⟩ := wf
      simp [content, Head.behind, ordinary_bodyPieces wfBody,
        ordinary_bodyPiecesAfter Piece.ordinary_else wfOtherwise, Piece.Content.implied]
  | selection h subject cases otherwise =>
      obtain ⟨-, -, wfCases, wfOtherwise⟩ := wf
      simp [content, Head.behind, ordinary_guardedPieces Piece.ordinary_nil wfCases,
        ordinary_bodyPiecesAfter Piece.ordinary_else wfOtherwise, Piece.Content.implied]
  | check h body detections regardless =>
      obtain ⟨-, wfBody, wfDetections, wfRegardless⟩ := wf
      simp [content, Head.behind, ordinary_bodyPieces wfBody, ordinary_detectionPieces wfDetections,
        ordinary_bodyPiecesAfter Piece.ordinary_regardless wfRegardless, Piece.Content.implied]
  | assertion h condition => simp [content, Head.behind]
  | invocation h callee arguments => simp [content, Head.behind]
  | result h value => cases value <;> simp [content, Head.behind]
  | raising h error => simp [content, Head.behind]
  | traversal h variableName iterable body =>
      simp [content, Head.behind, ordinary_bodyPieces wf.2.2.2, Piece.Content.implied]
  | loop kind h condition body =>
      simp [content, Head.behind, ordinary_bodyPieces wf.2.2, Piece.Content.implied]
  | assignment h assignee operator value => simp [content, Head.behind]

theorem ordinary_bodyPieces {es : List Element} (wf : AllWellFormed es) :
    Piece.Ordinary (bodyPieces es) := by
  cases es with
  | nil => simp [bodyPieces]
  | cons e es =>
      have opening := Head.ordinary_opening (begins_of_wellFormed wf.1)
      simp [bodyPieces, Element.opening, opening, ordinary_content wf.1, ordinary_bodyPieces wf.2]

theorem ordinary_guardedPieces {before : List Piece} (ordinary : Piece.Ordinary before)
    {tag : String} {gs : List Guarded} (wf : AllGuarded tag gs) :
    Piece.Ordinary (guardedPieces before gs) := by
  cases gs with
  | nil => simp [guardedPieces]
  | cons g gs =>
      obtain ⟨x, guard, body⟩ := g
      obtain ⟨-, -, wfBody, wf⟩ := wf
      simp [guardedPieces, ordinary, ordinary_bodyPieces wfBody, ordinary_guardedPieces ordinary wf]

theorem ordinary_detectionPieces {ds : List Detection} (wf : AllDetections ds) :
    Piece.Ordinary (detectionPieces ds) := by
  cases ds with
  | nil => simp [detectionPieces]
  | cons d ds =>
      obtain ⟨x, name, behind, body⟩ := d
      obtain ⟨-, -, -, wfBody, wf⟩ := wf
      simp [detectionPieces, ordinary_bodyPieces wfBody, ordinary_detectionPieces wf]

theorem ordinary_bodyPiecesAfter {tag : String}
    (ordinary : (Piece.tag tag).content.Ordinary) {body : Option (List Element)}
    (wf : OtherwiseWellFormed body) : Piece.Ordinary (bodyPiecesAfter tag body) := by
  cases body with
  | none => simp [bodyPiecesAfter]
  | some es => exact Piece.ordinary_cons.mpr ⟨ordinary, ordinary_bodyPieces wf⟩

end

end Element

/-- What a unit only implies is legible. -/
theorem CompilationUnit.ordinary_pieces {u : CompilationUnit} (wf : u.WellFormed) :
    Piece.Ordinary u.pieces := by
  refine Piece.ordinary_append.mpr ⟨Piece.ordinary_flatMap fun x _ => ?_,
    Element.ordinary_bodyPieces wf.2.1⟩
  obtain ⟨tag, path, synonym⟩ := x
  cases synonym <;> simp [Use.pieces, Piece.Content.implied]

end TagLang
