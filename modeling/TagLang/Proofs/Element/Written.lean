import TagLang.Grammar.Unit
import TagLang.Proofs.Expr.Grouped
import TagLang.Proofs.Registry.Constructs

/-!
# Elements as they are written

The pieces of an element are its opening, which is the annotations before its tag, the
tag and the fixed second word, and its content, in which the bodies are elements again.
An element begins a line; all else goes on behind what comes before. A tree that a parser
returns has in every place a token of the kind that the place asks for: it is well
formed.
-/

namespace TagLang

namespace Annotation

/-- A comment is a documentation token, and a name is an identifier. -/
def WellFormed : Annotation → Prop
  | .documentation t => t.kind = .documentation
  | .named t => t.kind = .identifier

instance : DecidablePred WellFormed
  | .documentation t => inferInstanceAs (Decidable (t.kind = .documentation))
  | .named t => inferInstanceAs (Decidable (t.kind = .identifier))

end Annotation

namespace Piece

/-- Annotations before a tag. -/
def leading (annotations : List Annotation) : List Piece :=
  annotations.map fun a => held a.token

/-- Annotations behind a head, each after a colon. -/
def trailing (annotations : List Annotation) : List Piece :=
  annotations.flatMap fun a => [mark .colon, held a.token]

end Piece

namespace Path

/-- Every entry is an identifier. -/
def WellFormed (p : Path) : Prop := ∀ t ∈ p.entries, t.kind = .identifier

instance (p : Path) : Decidable p.WellFormed :=
  inferInstanceAs (Decidable (∀ t ∈ p.entries, t.kind = .identifier))

/-- The entries behind the first one, each after a dot. -/
def furtherPieces (entries : List Token) : List Piece :=
  entries.flatMap fun t => [.mark .dot, .held t]

/-- The entries with a dot between each two. -/
def pieces (p : Path) : List Piece := .held p.first :: furtherPieces p.more

end Path

namespace Parameter

def WellFormed (p : Parameter) : Prop := p.name.WellFormed ∧ ∀ a ∈ p.trailing, a.WellFormed

instance (p : Parameter) : Decidable p.WellFormed :=
  inferInstanceAs (Decidable (p.name.WellFormed ∧ ∀ a ∈ p.trailing, a.WellFormed))

def pieces (p : Parameter) : List Piece := p.name.pieces ++ Piece.trailing p.trailing

/-- Parameters between parentheses. -/
def listPieces (parameters : List Parameter) : List Piece :=
  .mark .openParen :: (Piece.separated (parameters.map pieces) ++ [.mark .closeParen])

end Parameter

namespace Expr

/-- Arguments between parentheses. -/
def argumentPieces (arguments : List Expr) : List Piece :=
  .mark .openParen :: (Written.argumentPieces (writtens arguments) ++ [.mark .closeParen])

/-- An initial value behind an equals sign, if there is one. -/
def initialPieces : Option Expr → List Piece
  | none => []
  | some e => .mark .equals :: e.pieces

end Expr

namespace Head

/-- The tag begins elements of the given sort, and the annotations are well formed. -/
structure Begins (h : Head) (kind : ElementKind) : Prop where
  dispatches : Registry.dispatches h.tag = true
  construct : ∃ c ∈ Registry.standard.candidates h.tag.tagName, c.kind = kind
  leading : ∀ a ∈ h.leading, a.WellFormed
  trailing : ∀ a ∈ h.trailing, a.WellFormed

/-- The first token. -/
def first (h : Head) : Token := (h.leading.head?.map Annotation.token).getD h.tag

/-- The annotations before the tag, the tag and the second word. -/
def opening (h : Head) (kind : ElementKind) : List Piece :=
  Piece.beginLine (Piece.leading h.leading ++ .held h.tag ::
    ((kind.second? h.tag.tagName).map Piece.identifier).toList)

/-- The annotations behind. -/
def behind (h : Head) : List Piece := Piece.trailing h.trailing

end Head

/-- The token is this tag. -/
def Token.IsTag (t : Token) (tag : String) : Prop := t.kind = .tag ∧ t.tagName = tag

namespace Element

/-- The annotations before the tag of an element, the tag and the second word. -/
def opening (e : Element) : List Piece := e.head.opening e.kind

/-- The first token of an element. -/
def first (e : Element) : Token := e.head.first

mutual

/-- The pieces of an element behind its opening. -/
@[simp] def content : Element → List Piece
  | .scope _ head name body =>
    name.pieces ++ (head.behind ++ (bodyPieces body ++ [.word .endWord]))
  | .callable _ head name parameters body =>
    name.pieces ++ (Parameter.listPieces parameters ++ (head.behind ++
      (bodyPieces body ++ [.word .endWord])))
  | .binding _ head name value => name.pieces ++ (head.behind ++ Expr.initialPieces value)
  | .symbol head name => name.pieces ++ head.behind
  | .branch head guard body others otherwise =>
    guard.pieces ++ (head.behind ++ (bodyPieces body ++ (guardedPieces [.tag "else"] others ++
      (bodyPiecesAfter "else" otherwise ++ [.word .endWord]))))
  | .exemption head guard body otherwise =>
    guard.pieces ++ (head.behind ++ (bodyPieces body ++
      (bodyPiecesAfter "else" otherwise ++ [.word .endWord])))
  | .selection head subject cases otherwise =>
    subject.pieces ++ (head.behind ++ (guardedPieces [] cases ++
      (bodyPiecesAfter "else" otherwise ++ [.word .endWord])))
  | .check head body detections regardless =>
    head.behind ++ (bodyPieces body ++ (detectionPieces detections ++
      (bodyPiecesAfter "regardless" regardless ++ [.word .endWord])))
  | .assertion head condition => condition.pieces ++ head.behind
  | .invocation head callee arguments =>
    callee.pieces ++ (Expr.argumentPieces arguments ++ head.behind)
  | .result head value => (value.map Expr.pieces).getD [] ++ head.behind
  | .raising head error => error.pieces ++ head.behind
  | .traversal head variableName iterable body =>
    variableName.pieces ++ (head.behind ++ (.identifier "in" :: (iterable.pieces ++
      (bodyPieces body ++ [.word .endWord]))))
  | .loop _ head condition body =>
    condition.pieces ++ (head.behind ++ (bodyPieces body ++ [.word .endWord]))
  | .assignment head assignee operator value =>
    assignee.pieces ++ (head.behind ++ (.held operator :: value.pieces))

/-- The pieces of elements, one after another. -/
def bodyPieces : List Element → List Piece
  | [] => []
  | e :: es => e.opening ++ (e.content ++ bodyPieces es)

/-- The pieces of guarded bodies, with others before each tag. -/
def guardedPieces (before : List Piece) : List Guarded → List Piece
  | [] => []
  | .mk tag guard body :: rest =>
    before ++ .held tag :: (guard.pieces ++ (bodyPieces body ++ guardedPieces before rest))

/-- The pieces of detections. -/
def detectionPieces : List Detection → List Piece
  | [] => []
  | .mk tag name trailing body :: rest =>
    .held tag :: (name.pieces ++ (Piece.trailing trailing ++
      (bodyPieces body ++ detectionPieces rest)))

/-- The pieces of a body after a tag, if there is one. -/
def bodyPiecesAfter (tag : String) : Option (List Element) → List Piece
  | none => []
  | some body => .tag tag :: bodyPieces body

end

/-- The pieces of an element. -/
def pieces (e : Element) : List Piece := e.opening ++ e.content

mutual

/-- Every token of an element is of the kind that its place asks for. -/
def WellFormed : Element → Prop
  | .scope kind head name body =>
    head.Begins (.scope kind) ∧ name.WellFormed ∧ AllWellFormed body
  | .callable kind head name parameters body =>
    head.Begins (.callable kind) ∧ name.WellFormed ∧ (∀ p ∈ parameters, p.WellFormed) ∧
      AllWellFormed body
  | .binding kind head name value =>
    head.Begins (.binding kind) ∧ name.WellFormed ∧ ∀ e ∈ value, e.WellFormed
  | .symbol head name => head.Begins .symbol ∧ name.WellFormed
  | .branch head guard body others otherwise =>
    head.Begins .branch ∧ guard.WellFormed ∧ AllWellFormed body ∧ AllGuarded "if" others ∧
      OtherwiseWellFormed otherwise ∧
      ∀ es ∈ otherwise, ∀ e ∈ es.head?, ¬ e.first.IsTag "if"
  | .exemption head guard body otherwise =>
    head.Begins .exemption ∧ guard.WellFormed ∧ AllWellFormed body ∧
      OtherwiseWellFormed otherwise
  | .selection head subject cases otherwise =>
    head.Begins .selection ∧ subject.WellFormed ∧ AllGuarded "where" cases ∧
      OtherwiseWellFormed otherwise
  | .check head body detections regardless =>
    head.Begins .check ∧ AllWellFormed body ∧ AllDetections detections ∧
      OtherwiseWellFormed regardless
  | .assertion head condition => head.Begins .assertion ∧ condition.WellFormed
  | .invocation head callee arguments =>
    head.Begins .invocation ∧ callee.WellFormed ∧ Expr.AllWellFormed arguments
  | .result head value => head.Begins .result ∧ ∀ e ∈ value, e.WellFormed
  | .raising head error => head.Begins .raising ∧ error.WellFormed
  | .traversal head variableName iterable body =>
    head.Begins .traversal ∧ variableName.WellFormed ∧ iterable.WellFormed ∧ AllWellFormed body
  | .loop kind head condition body =>
    head.Begins (.loop kind) ∧ condition.WellFormed ∧ AllWellFormed body
  | .assignment head assignee operator value =>
    head.Begins .assignment ∧ assignee.WellFormed ∧
      (∃ m ∈ Grammar.assignmentMarks, operator.kind = .mark m) ∧ value.WellFormed

/-- All elements of a body are well formed. -/
def AllWellFormed : List Element → Prop
  | [] => True
  | e :: es => e.WellFormed ∧ AllWellFormed es

/-- Guarded bodies are well formed, each with the given tag. -/
def AllGuarded (tag : String) : List Guarded → Prop
  | [] => True
  | .mk t guard body :: rest =>
    t.IsTag tag ∧ guard.WellFormed ∧ AllWellFormed body ∧ AllGuarded tag rest

/-- Detections are well formed. -/
def AllDetections : List Detection → Prop
  | [] => True
  | .mk t name trailing body :: rest =>
    t.IsTag "detect" ∧ name.WellFormed ∧ (∀ a ∈ trailing, a.WellFormed) ∧ AllWellFormed body ∧
      AllDetections rest

/-- A body that may be absent is well formed. -/
def OtherwiseWellFormed : Option (List Element) → Prop
  | none => True
  | some body => AllWellFormed body

end

theorem bodyPieces_eq (es : List Element) : bodyPieces es = es.flatMap pieces := by
  induction es with
  | nil => rfl
  | cons e es ih => rw [bodyPieces, ih, List.flatMap_cons, pieces, List.append_assoc]

theorem allWellFormed_iff {es : List Element} : AllWellFormed es ↔ ∀ e ∈ es, e.WellFormed := by
  induction es with
  | nil => simp [AllWellFormed]
  | cons e es ih => simp [AllWellFormed, ih]

theorem guardedPieces_eq (before : List Piece) (gs : List Guarded) :
    guardedPieces before gs = gs.flatMap fun g => guardedPieces before [g] := by
  induction gs with
  | nil => rfl
  | cons g gs ih =>
      obtain ⟨tag, guard, body⟩ := g
      simp [guardedPieces, ih]

theorem allGuarded_iff {tag : String} {gs : List Guarded} :
    AllGuarded tag gs ↔ ∀ g ∈ gs, AllGuarded tag [g] := by
  induction gs with
  | nil => simp [AllGuarded]
  | cons g gs ih =>
      obtain ⟨x, guard, body⟩ := g
      simp [AllGuarded, ih, and_assoc]

theorem detectionPieces_eq (ds : List Detection) :
    detectionPieces ds = ds.flatMap fun d => detectionPieces [d] := by
  induction ds with
  | nil => rfl
  | cons d ds ih =>
      obtain ⟨tag, name, trailing, body⟩ := d
      simp [detectionPieces, ih]

theorem allDetections_iff {ds : List Detection} :
    AllDetections ds ↔ ∀ d ∈ ds, AllDetections [d] := by
  induction ds with
  | nil => simp [AllDetections]
  | cons d ds ih =>
      obtain ⟨x, name, trailing, body⟩ := d
      simp [AllDetections, ih, and_assoc]

end Element

namespace Use

def WellFormed (u : Use) : Prop :=
  u.tag.kind = .word .useWord ∧ u.path.WellFormed ∧ ∀ t ∈ u.synonym, t.kind = .identifier

instance (u : Use) : Decidable u.WellFormed :=
  inferInstanceAs (Decidable
    (u.tag.kind = .word .useWord ∧ u.path.WellFormed ∧ ∀ t ∈ u.synonym, t.kind = .identifier))

/-- The word, the path and the synonym of a use. -/
def pieces (u : Use) : List Piece :=
  .held u.tag :: (u.path.pieces ++
    (u.synonym.map fun t => [.word .asWord, Piece.held t]).getD [])

end Use

namespace CompilationUnit

/-- Every token of a unit is of the kind that its place asks for. -/
def WellFormed (u : CompilationUnit) : Prop :=
  (∀ x ∈ u.uses, x.WellFormed) ∧ Element.AllWellFormed u.elements ∧ u.eof.kind = .eof

/-- The pieces of a unit up to the end of the source. -/
def pieces (u : CompilationUnit) : List Piece :=
  u.uses.flatMap Use.pieces ++ Element.bodyPieces u.elements

end CompilationUnit

end TagLang
