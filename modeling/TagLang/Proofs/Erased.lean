import TagLang.Element
import TagLang.SyntaxError

/-!
# Trees without positions

Erasing puts the same position everywhere, so two trees are equal without positions if
their erasures are equal. Where a tree is read from is then forgotten, and what it says
is kept.
-/

namespace TagLang

namespace Token

/-- The token at no position. -/
def erase (t : Token) : Token := { t with position := .null }

theorem erase_eq_iff {t u : Token} : t.erase = u.erase ↔ t.kind = u.kind ∧ t.text = u.text := by
  obtain ⟨kind, text, position⟩ := t
  obtain ⟨kind', text', position'⟩ := u
  simp [erase]

end Token

namespace Path

def erase (p : Path) : Path := ⟨p.first.erase, p.more.map Token.erase⟩

end Path

namespace Annotation

def erase : Annotation → Annotation
  | .documentation t => .documentation t.erase
  | .named t => .named t.erase

end Annotation

namespace Head

def erase (h : Head) : Head :=
  ⟨h.tag.erase, h.leading.map .erase, h.trailing.map .erase⟩

end Head

namespace Parameter

def erase (p : Parameter) : Parameter := ⟨p.name.erase, p.trailing.map .erase⟩

end Parameter

namespace Expr

mutual

def erase : Expr → Expr
  | .literal value => .literal ⟨value.kind, value.token.erase⟩
  | .identifier name => .identifier name.erase
  | .unary operator operand => .unary operator.erase operand.erase
  | .binary left operator right => .binary left.erase operator.erase right.erase
  | .call callee arguments => .call callee.erase (erases arguments)
  | .member object operator name => .member object.erase operator.erase name.erase

def erases : List Expr → List Expr
  | [] => []
  | e :: es => e.erase :: erases es

end

theorem erases_eq_map (es : List Expr) : erases es = es.map erase := by
  induction es with
  | nil => rfl
  | cons e es ih => rw [erases, ih, List.map_cons]

end Expr

namespace Element

mutual

def erase : Element → Element
  | .scope kind head name body => .scope kind head.erase name.erase (erases body)
  | .callable kind head name parameters body =>
    .callable kind head.erase name.erase (parameters.map .erase) (erases body)
  | .binding kind head name value => .binding kind head.erase name.erase (value.map .erase)
  | .symbol head name => .symbol head.erase name.erase
  | .branch head guard body others otherwise =>
    .branch head.erase guard.erase (erases body) (eraseGuarded others) (eraseOtherwise otherwise)
  | .exemption head guard body otherwise =>
    .exemption head.erase guard.erase (erases body) (eraseOtherwise otherwise)
  | .selection head subject cases otherwise =>
    .selection head.erase subject.erase (eraseGuarded cases) (eraseOtherwise otherwise)
  | .check head body detections regardless =>
    .check head.erase (erases body) (eraseDetections detections) (eraseOtherwise regardless)
  | .assertion head condition => .assertion head.erase condition.erase
  | .invocation head callee arguments =>
    .invocation head.erase callee.erase (arguments.map .erase)
  | .result head value => .result head.erase (value.map .erase)
  | .raising head error => .raising head.erase error.erase
  | .traversal head variableName iterable body =>
    .traversal head.erase variableName.erase iterable.erase (erases body)
  | .loop kind head condition body => .loop kind head.erase condition.erase (erases body)
  | .assignment head assignee operator value =>
    .assignment head.erase assignee.erase operator.erase value.erase

def erases : List Element → List Element
  | [] => []
  | e :: es => e.erase :: erases es

def eraseGuarded : List Guarded → List Guarded
  | [] => []
  | .mk tag guard body :: rest => .mk tag.erase guard.erase (erases body) :: eraseGuarded rest

def eraseDetections : List Detection → List Detection
  | [] => []
  | .mk tag name trailing body :: rest =>
    .mk tag.erase name.erase (trailing.map .erase) (erases body) :: eraseDetections rest

def eraseOtherwise : Option (List Element) → Option (List Element)
  | none => none
  | some body => some (erases body)

end

theorem erases_eq_map (es : List Element) : erases es = es.map erase := by
  induction es with
  | nil => rfl
  | cons e es ih => rw [erases, ih, List.map_cons]

theorem eraseGuarded_cons (g : Guarded) (gs : List Guarded) :
    eraseGuarded (g :: gs) = eraseGuarded [g] ++ eraseGuarded gs := by
  obtain ⟨tag, guard, body⟩ := g
  rfl

theorem eraseDetections_cons (d : Detection) (ds : List Detection) :
    eraseDetections (d :: ds) = eraseDetections [d] ++ eraseDetections ds := by
  obtain ⟨tag, name, trailing, body⟩ := d
  rfl

end Element

namespace Guarded

def erase : Guarded → Guarded
  | .mk tag guard body => .mk tag.erase guard.erase (Element.erases body)

end Guarded

namespace Detection

def erase : Detection → Detection
  | .mk tag name trailing body =>
    .mk tag.erase name.erase (trailing.map .erase) (Element.erases body)

end Detection

namespace Element

theorem eraseGuarded_eq_map (gs : List Guarded) : eraseGuarded gs = gs.map Guarded.erase := by
  induction gs with
  | nil => rfl
  | cons g gs ih =>
    obtain ⟨tag, guard, body⟩ := g
    rw [eraseGuarded, ih, List.map_cons, Guarded.erase]

theorem eraseDetections_eq_map (ds : List Detection) :
    eraseDetections ds = ds.map Detection.erase := by
  induction ds with
  | nil => rfl
  | cons d ds ih =>
    obtain ⟨tag, name, trailing, body⟩ := d
    rw [eraseDetections, ih, List.map_cons, Detection.erase]

end Element

namespace Use

def erase (u : Use) : Use := ⟨u.tag.erase, u.path.erase, u.synonym.map .erase⟩

end Use

namespace CompilationUnit

def erase (u : CompilationUnit) : CompilationUnit :=
  ⟨u.uses.map .erase, u.elements.map .erase, u.eof.erase⟩

end CompilationUnit

namespace SyntaxError

/-- The error at no position. -/
def erase (e : SyntaxError) : SyntaxError := { e with position := .null }

end SyntaxError

end TagLang
