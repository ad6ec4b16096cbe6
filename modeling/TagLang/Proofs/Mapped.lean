import TagLang.Element

/-!
# Trees with other tokens

A function on tokens is applied to every token of a tree. The tree keeps its shape, so two
trees are the same to a view of tokens if what the view makes of them is equal.
-/

namespace TagLang

variable {f : Token → Token}

namespace Path

def map (f : Token → Token) (p : Path) : Path := ⟨f p.first, p.more.map f⟩

end Path

namespace Annotation

def map (f : Token → Token) : Annotation → Annotation
  | .documentation t => .documentation (f t)
  | .named t => .named (f t)

/-- What a token annotates as depends on its kind only. -/
theorem map_ofToken_congr {t t' : Token} (kind : t.kind = t'.kind) (same : f t = f t') :
    (ofToken t).map f = (ofToken t').map f := by
  rw [ofToken, ofToken, ← kind]
  split
  · exact congrArg documentation same
  · exact congrArg named same

end Annotation

namespace Head

def map (f : Token → Token) (h : Head) : Head :=
  ⟨f h.tag, h.leading.map (.map f), h.trailing.map (.map f)⟩

end Head

namespace Parameter

def map (f : Token → Token) (p : Parameter) : Parameter :=
  ⟨p.name.map f, p.trailing.map (.map f)⟩

end Parameter

namespace Expr

mutual

def map (f : Token → Token) : Expr → Expr
  | .literal value => .literal ⟨value.kind, f value.token⟩
  | .identifier name => .identifier (f name)
  | .unary operator operand => .unary (f operator) (operand.map f)
  | .binary left operator right => .binary (left.map f) (f operator) (right.map f)
  | .call callee arguments => .call (callee.map f) (mapAll f arguments)
  | .member object operator name => .member (object.map f) (f operator) (f name)

def mapAll (f : Token → Token) : List Expr → List Expr
  | [] => []
  | e :: es => e.map f :: mapAll f es

end

theorem mapAll_eq (es : List Expr) : mapAll f es = es.map (.map f) := by
  induction es with
  | nil => rfl
  | cons e es ih => rw [mapAll, ih, List.map_cons]

end Expr

mutual

def Element.map (f : Token → Token) : Element → Element
  | .scope kind head name body => .scope kind (head.map f) (name.map f) (Element.mapAll f body)
  | .callable kind head name parameters body =>
    .callable kind (head.map f) (name.map f) (parameters.map (.map f)) (Element.mapAll f body)
  | .binding kind head name value =>
    .binding kind (head.map f) (name.map f) (value.map (.map f))
  | .symbol head name => .symbol (head.map f) (name.map f)
  | .branch head guard body others otherwise =>
    .branch (head.map f) (guard.map f) (Element.mapAll f body) (Guarded.mapAll f others)
      (Element.mapOtherwise f otherwise)
  | .exemption head guard body otherwise =>
    .exemption (head.map f) (guard.map f) (Element.mapAll f body)
      (Element.mapOtherwise f otherwise)
  | .selection head subject cases otherwise =>
    .selection (head.map f) (subject.map f) (Guarded.mapAll f cases)
      (Element.mapOtherwise f otherwise)
  | .check head body detections regardless =>
    .check (head.map f) (Element.mapAll f body) (Detection.mapAll f detections)
      (Element.mapOtherwise f regardless)
  | .assertion head condition => .assertion (head.map f) (condition.map f)
  | .invocation head callee arguments =>
    .invocation (head.map f) (callee.map f) (arguments.map (.map f))
  | .result head value => .result (head.map f) (value.map (.map f))
  | .raising head error => .raising (head.map f) (error.map f)
  | .traversal head variableName iterable body =>
    .traversal (head.map f) (variableName.map f) (iterable.map f) (Element.mapAll f body)
  | .loop kind head condition body =>
    .loop kind (head.map f) (condition.map f) (Element.mapAll f body)
  | .assignment head assignee operator value =>
    .assignment (head.map f) (assignee.map f) (f operator) (value.map f)

def Guarded.map (f : Token → Token) : Guarded → Guarded
  | .mk tag guard body => .mk (f tag) (guard.map f) (Element.mapAll f body)

def Detection.map (f : Token → Token) : Detection → Detection
  | .mk tag name trailing body =>
    .mk (f tag) (name.map f) (trailing.map (.map f)) (Element.mapAll f body)

def Element.mapAll (f : Token → Token) : List Element → List Element
  | [] => []
  | e :: es => e.map f :: Element.mapAll f es

def Guarded.mapAll (f : Token → Token) : List Guarded → List Guarded
  | [] => []
  | g :: gs => g.map f :: Guarded.mapAll f gs

def Detection.mapAll (f : Token → Token) : List Detection → List Detection
  | [] => []
  | d :: ds => d.map f :: Detection.mapAll f ds

def Element.mapOtherwise (f : Token → Token) : Option (List Element) → Option (List Element)
  | none => none
  | some body => some (Element.mapAll f body)

end

theorem Element.mapAll_eq (es : List Element) : mapAll f es = es.map (.map f) := by
  induction es with
  | nil => rfl
  | cons e es ih => rw [mapAll, ih, List.map_cons]

theorem Guarded.mapAll_eq (gs : List Guarded) : mapAll f gs = gs.map (.map f) := by
  induction gs with
  | nil => rfl
  | cons g gs ih => rw [mapAll, ih, List.map_cons]

theorem Detection.mapAll_eq (ds : List Detection) : mapAll f ds = ds.map (.map f) := by
  induction ds with
  | nil => rfl
  | cons d ds ih => rw [mapAll, ih, List.map_cons]

theorem Element.mapOtherwise_eq (body : Option (List Element)) :
    mapOtherwise f body = body.map (.map (.map f)) := by
  cases body with
  | none => rfl
  | some body => rw [mapOtherwise, mapAll_eq, Option.map_some]

namespace Use

def map (f : Token → Token) (u : Use) : Use := ⟨f u.tag, u.path.map f, u.synonym.map f⟩

end Use

namespace CompilationUnit

def map (f : Token → Token) (u : CompilationUnit) : CompilationUnit :=
  ⟨u.uses.map (.map f), u.elements.map (.map f), f u.eof⟩

end CompilationUnit

end TagLang
