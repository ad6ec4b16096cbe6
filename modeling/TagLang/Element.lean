import TagLang.Expr
import TagLang.Path

/-!
# Code elements

A code element is a declaration or a statement. Elements of one shape share a
constructor: what opens a scope of its own, what can be called, what binds a
name to a value. Every element has a head with its tag and its annotations.
-/

namespace TagLang

/-- The elements that hold a body under a name. -/
inductive ScopeKind
  | moduleScope | package | enumerationType | objectType | structureType | variantType
  | graphType | edgeType | vertexType
deriving DecidableEq, Repr, Inhabited

/-- The elements that hold a body under a name with parameters. -/
inductive CallableKind
  | function | behavior
deriving DecidableEq, Repr, Inhabited

/-- The elements that bind a name to a value. -/
inductive BindingKind
  | constant | value | variableSlot
deriving DecidableEq, Repr, Inhabited

/-- The loops that test a condition. -/
inductive LoopKind
  | untilTrue | whileTrue
deriving DecidableEq, Repr, Inhabited

/-- The sorts of code elements, one for each construct. -/
inductive ElementKind
  | scope (kind : ScopeKind)
  | callable (kind : CallableKind)
  | binding (kind : BindingKind)
  | symbol
  | branch
  | exemption
  | selection
  | check
  | assertion
  | invocation
  | result
  | raising
  | traversal
  | loop (kind : LoopKind)
  | assignment
deriving DecidableEq, Repr, Inhabited

namespace ElementKind

/-- The name a sort of elements is reported under. -/
def name : ElementKind → String
  | .scope .moduleScope => "Module"
  | .scope .package => "Package"
  | .scope .enumerationType => "EnumerationType"
  | .scope .objectType => "ObjectType"
  | .scope .structureType => "StructureType"
  | .scope .variantType => "VariantType"
  | .scope .graphType => "GraphType"
  | .scope .edgeType => "EdgeType"
  | .scope .vertexType => "VertexType"
  | .callable .function => "Function"
  | .callable .behavior => "Behavior"
  | .binding .constant => "Constant"
  | .binding .value => "Value"
  | .binding .variableSlot => "Variable"
  | .symbol => "Symbol"
  | .branch => "If"
  | .exemption => "Unless"
  | .selection => "Match"
  | .check => "Check"
  | .assertion => "Assert"
  | .invocation => "Call"
  | .result => "Return"
  | .raising => "Raise"
  | .traversal => "RepeatFor"
  | .loop .untilTrue => "RepeatUntil"
  | .loop .whileTrue => "RepeatWhile"
  | .assignment => "Assignment"

end ElementKind

/-- The tag of an element and the annotations before and behind it. -/
structure Head where
  tag : Token
  leading : List Annotation
  trailing : List Annotation
deriving DecidableEq, Repr, Inhabited

/-- A parameter of a callable element. -/
structure Parameter where
  name : Path
  trailing : List Annotation
deriving DecidableEq, Repr, Inhabited

mutual

/-- A declaration or a statement. -/
inductive Element
  | scope (kind : ScopeKind) (head : Head) (name : Path) (body : List Element)
  | callable (kind : CallableKind) (head : Head) (name : Path) (parameters : List Parameter)
      (body : List Element)
  | binding (kind : BindingKind) (head : Head) (name : Path) (value : Option Expr)
  | symbol (head : Head) (name : Path)
  /-- A guarded body, further ones that are tried in order, and a body for the
  case that no guard holds. -/
  | branch (head : Head) (guard : Expr) (body : List Element) (others : List Guarded)
      (otherwise : Option (List Element))
  | exemption (head : Head) (guard : Expr) (body : List Element)
      (otherwise : Option (List Element))
  | selection (head : Head) (subject : Expr) (cases : List Guarded)
      (otherwise : Option (List Element))
  /-- A body, what to do on failures of it, and what to do in any case. -/
  | check (head : Head) (body : List Element) (detections : List Detection)
      (regardless : Option (List Element))
  | assertion (head : Head) (condition : Expr)
  | invocation (head : Head) (callee : Path) (arguments : List Expr)
  | result (head : Head) (value : Option Expr)
  | raising (head : Head) (error : Expr)
  | traversal (head : Head) (variableName : Path) (iterable : Expr) (body : List Element)
  | loop (kind : LoopKind) (head : Head) (condition : Expr) (body : List Element)
  | assignment (head : Head) (assignee : Path) (operator : Token) (value : Expr)

/-- A body under a guard, with the tag before the guard. -/
inductive Guarded
  | mk (tag : Token) (guard : Expr) (body : List Element)

/-- A body for the failures of one name, with the tag before the name. -/
inductive Detection
  | mk (tag : Token) (name : Path) (trailing : List Annotation) (body : List Element)

end

instance : Inhabited Element := ⟨.symbol default default⟩

namespace Element

/-- The sort of an element. -/
def kind : Element → ElementKind
  | .scope kind .. => .scope kind
  | .callable kind .. => .callable kind
  | .binding kind .. => .binding kind
  | .symbol .. => .symbol
  | .branch .. => .branch
  | .exemption .. => .exemption
  | .selection .. => .selection
  | .check .. => .check
  | .assertion .. => .assertion
  | .invocation .. => .invocation
  | .result .. => .result
  | .raising .. => .raising
  | .traversal .. => .traversal
  | .loop kind .. => .loop kind
  | .assignment .. => .assignment

/-- The tag and the annotations of an element. -/
def head : Element → Head
  | .scope _ head .. => head
  | .callable _ head .. => head
  | .binding _ head .. => head
  | .symbol head _ => head
  | .branch head .. => head
  | .exemption head .. => head
  | .selection head .. => head
  | .check head .. => head
  | .assertion head _ => head
  | .invocation head .. => head
  | .result head _ => head
  | .raising head _ => head
  | .traversal head .. => head
  | .loop _ head .. => head
  | .assignment head .. => head

/-- The name an element declares, if it declares one. -/
def name? : Element → Option Path
  | .scope _ _ name _ => some name
  | .callable _ _ name .. => some name
  | .binding _ _ name _ => some name
  | .symbol _ name => some name
  | _ => none

/-- The elements of the body that belongs to an element as a whole. The bodies
that a guard selects are not among them. -/
def children : Element → List Element
  | .scope _ _ _ body => body
  | .callable _ _ _ _ body => body
  | .check _ body .. => body
  | .traversal _ _ _ body => body
  | .loop _ _ _ body => body
  | _ => []

end Element

/-- A use of names from elsewhere, optionally under another name. -/
structure Use where
  tag : Token
  path : Path
  synonym : Option Token
deriving DecidableEq, Repr, Inhabited

/-- All of a source: its uses, its elements, and the token at its end. -/
structure CompilationUnit where
  uses : List Use
  elements : List Element
  eof : Token

namespace CompilationUnit

/-- The first element. -/
def first? (u : CompilationUnit) : Option Element := u.elements.head?

end CompilationUnit

end TagLang
