import TagLang.Grammar.Expression

/-!
# The grammar of code elements

An element is dispatched on its tag: annotations before the tag, then what the
construct of that tag consists of. A body is a sequence of elements up to `end`,
the end of the source or an auxiliary tag, which its owner then interprets.
-/

namespace TagLang.Grammar

open Parse

variable {κ : Type}

/-- The next token as an annotation, if it is one. -/
def leadingOne : Parse (Option Annotation) := do
  if (← look).kind.annotates then return some (.ofToken (← next)) else return none

/-- The annotations before a tag. -/
def leading (n : Nat) : Parse (List Annotation) := gather leadingOne n []

/-- A colon and an annotation, if a colon comes next. -/
def trailingOne : Parse (Option Annotation) := do
  if ← accept (.mark .colon) then
    let t ← look
    if t.kind.annotates then return some (.ofToken (← next))
    else failAt t (.annotationMissing t.kind t.text)
  else return none

/-- The annotations behind a head, each after a colon. -/
def trailing (n : Nat) : Parse (List Annotation) := gather trailingOne n []

/-- A dot and an entry of a path, if a dot comes next. -/
def furtherEntry : Parse (Option Token) := do
  if ← accept (.mark .dot) then return some (← expect .identifier) else return none

/-- A dotted name. -/
def path (n : Nat) : Parse Path := do
  let first ← expect .identifier
  return ⟨first, ← gather furtherEntry n []⟩

/-- A name with annotations. -/
def parameter (n : Nat) : Parse Parameter := do
  let name ← path n
  return ⟨name, ← trailing n⟩

/-- Parameters between parentheses. -/
def parameters (n : Nat) : Parse (List Parameter) := do
  let _ ← expect (.mark .openParen)
  items n (parameter n)

/-- Whether the next token is this tag. -/
def nextIsTag (tag : String) : Parse Bool := do
  let t ← look
  return t.kind == .tag && t.tagName == tag

/-- Consume the next token if it is this tag. -/
def acceptTag (tag : String) : Parse (Option Token) := do
  if ← nextIsTag tag then return some (← next) else return none

/-- Whether a token ends a sequence of elements. -/
def endsSequence (r : Registry κ) (t : Token) : Bool :=
  match t.kind with
  | .word .endWord | .eof => true
  | .tag => (r.owner? t.tagName).isSome
  | _ => false

/-- Whether a sequence of elements ends here. -/
def atSequenceEnd (r : Registry κ) : Parse Bool := do
  return endsSequence r (← look)

/-- An element, unless the sequence ends here. -/
def furtherElement (r : Registry κ) (below : Level) : Parse (Option Element) := do
  if ← atSequenceEnd r then return none else return some (← below.element)

/-- A sequence of elements. What ends it is left. -/
def elements (r : Registry κ) (n : Nat) (below : Level) : Parse (List Element) :=
  gather (furtherElement r below) n []

/-- The word that ends a construct. -/
def closing : Parse Token := expect (.word .endWord)

/-- A body and the word that ends its construct. -/
def closedBody (r : Registry κ) (n : Nat) (below : Level) : Parse (List Element) := do
  let body ← elements r n below
  let _ ← closing
  return body

/-- A body after the given tag, if the tag comes next. -/
def bodyAfter (r : Registry κ) (n : Nat) (below : Level) (tag : String) :
    Parse (Option (List Element)) := do
  match ← acceptTag tag with
  | some _ => return some (← elements r n below)
  | none => return none

/-- A guard and the body under it. -/
def guarded (r : Registry κ) (n : Nat) (below : Level) (tag : Token) : Parse Guarded := do
  let guard ← below.expression
  return .mk tag guard (← elements r n below)

/-- The branches after the first one, at most `k` of them, and the body for the case
that no guard holds. -/
def otherBranches (r : Registry κ) (n : Nat) (below : Level) :
    Nat → List Guarded → Parse (List Guarded × Option (List Element))
  | 0, _ => refuse
  | k + 1, gathered => do
    match ← acceptTag "else" with
    | none => return (gathered.reverse, none)
    | some _ =>
      match ← acceptTag "if" with
      | some tag =>
        let branch ← guarded r n below tag
        otherBranches r n below k (branch :: gathered)
      | none => return (gathered.reverse, some (← elements r n below))

/-- A case of a selection, if one comes next. -/
def selectionCase (r : Registry κ) (n : Nat) (below : Level) : Parse (Option Guarded) := do
  match ← acceptTag "where" with
  | some tag => return some (← guarded r n below tag)
  | none => return none

/-- A detection of a check, if one comes next. -/
def detection (r : Registry κ) (n : Nat) (below : Level) : Parse (Option Detection) := do
  match ← acceptTag "detect" with
  | some tag =>
    let name ← path n
    let annotations ← trailing n
    return some (.mk tag name annotations (← elements r n below))
  | none => return none

/-- Whether the next two tokens are an annotated element on a later line than `tag`. The
name that comes next would otherwise read as a value. -/
def annotatedElementNext (r : Registry κ) (tag : Token) : Parse Bool := do
  let name ← look
  if name.kind = .identifier ∧ tag.position.line < name.position.line then
    let following ← lookSecond
    return following.kind.annotates || r.isConstructTag following
  else return false

/-- The value of a result, if one comes next. -/
def resultValue (r : Registry κ) (below : Level) (tag : Token) : Parse (Option Expr) := do
  if ← canBegin r then
    if ← annotatedElementNext r tag then return none
    else return some (← below.expression)
  else return none

/-- The operators that assign. -/
def assignmentMarks : List Mark :=
  [.equals, .plusEquals, .dashEquals, .starEquals, .slashEquals, .ampersandEquals, .caretEquals]

/-- An operator that assigns. -/
def assignmentOperator : Parse Token := do
  let t ← look
  if assignmentMarks.any fun m => t.kind == .mark m then next
  else expect (.mark .equals)

/-- The value after an equals sign, if there is one. -/
def initialValue (below : Level) : Parse (Option Expr) := do
  if ← accept (.mark .equals) then return some (← below.expression) else return none

/-- What follows the tag of an element of the given sort. -/
def elementOf (r : Registry κ) (n : Nat) (below : Level) (before : List Annotation) (tag : Token) :
    ElementKind → Parse Element
  | .scope kind => do
    let name ← path n
    let behind ← trailing n
    return .scope kind ⟨tag, before, behind⟩ name (← closedBody r n below)
  | .callable kind => do
    let name ← path n
    let parameters ← parameters n
    let behind ← trailing n
    return .callable kind ⟨tag, before, behind⟩ name parameters (← closedBody r n below)
  | .binding kind => do
    let name ← path n
    let behind ← trailing n
    return .binding kind ⟨tag, before, behind⟩ name (← initialValue below)
  | .symbol => do
    let name ← path n
    return .symbol ⟨tag, before, ← trailing n⟩ name
  | .branch => do
    let guard ← below.expression
    let behind ← trailing n
    let body ← elements r n below
    let others ← otherBranches r n below n []
    let _ ← closing
    return .branch ⟨tag, before, behind⟩ guard body others.1 others.2
  | .exemption => do
    let guard ← below.expression
    let behind ← trailing n
    let body ← elements r n below
    let otherwise ← bodyAfter r n below "else"
    let _ ← closing
    return .exemption ⟨tag, before, behind⟩ guard body otherwise
  | .selection => do
    let subject ← below.expression
    let behind ← trailing n
    let cases ← gather (selectionCase r n below) n []
    let otherwise ← bodyAfter r n below "else"
    let _ ← closing
    return .selection ⟨tag, before, behind⟩ subject cases otherwise
  | .check => do
    let behind ← trailing n
    let body ← elements r n below
    let detections ← gather (detection r n below) n []
    let regardless ← bodyAfter r n below "regardless"
    let _ ← closing
    return .check ⟨tag, before, behind⟩ body detections regardless
  | .assertion => do
    let condition ← below.expression
    return .assertion ⟨tag, before, ← trailing n⟩ condition
  | .invocation => do
    let callee ← path n
    let _ ← expect (.mark .openParen)
    let arguments ← arguments n below
    return .invocation ⟨tag, before, ← trailing n⟩ callee arguments
  | .result => do
    let value ← resultValue r below tag
    return .result ⟨tag, before, ← trailing n⟩ value
  | .raising => do
    let error ← below.expression
    return .raising ⟨tag, before, ← trailing n⟩ error
  | .traversal => do
    let name ← path n
    let behind ← trailing n
    let _ ← expectText .identifier "in"
    let iterable ← below.expression
    return .traversal ⟨tag, before, behind⟩ name iterable (← closedBody r n below)
  | .loop kind => do
    let condition ← below.expression
    let behind ← trailing n
    return .loop kind ⟨tag, before, behind⟩ condition (← closedBody r n below)
  | .assignment => do
    let assignee ← path n
    let behind ← trailing n
    let operator ← assignmentOperator
    return .assignment ⟨tag, before, behind⟩ assignee operator (← below.expression)

/-- The construct that a tag begins. Only if the word after the tag decides between
several is it looked at; then one of the candidates must fit. -/
def construct (r : Registry κ) (tag : String) : Parse (Option (Construct κ)) :=
  let candidates := r.candidates tag
  if candidates.all fun c => c.second.isNone then return candidates.head?
  else do
    let second ← lookSecond
    match (candidates.find? fun c => c.second == some second.text).or
        (candidates.find? fun c => c.second.isNone) with
    | some c => return some c
    | none => failAt second (.unrecognizedElement s!"{tag} {second.text}")

/-- How the elements of a sort are parsed, behind the annotations and the tag that are given. -/
abbrev Handler (κ : Type) := List Annotation → Token → κ → Parse Element

/-- An element of a construct whose tag comes next, parsed as its sort is handled. -/
def dispatchedBy (handle : Handler κ) (before : List Annotation) (c : Construct κ) :
    Parse Element := do
  let tag ← next
  match c.second with
  | some word =>
    let _ ← expectText .identifier word
    handle before tag c.kind
  | none => handle before tag c.kind

/-- An element of any sort that is handled, or the reason why none begins here. -/
def elementBy (handle : Handler κ) (r : Registry κ) (n : Nat) : Parse Element := do
  let before ← leading n
  let t ← look
  if t.kind.isFault then failAt t (.lexical t.kind t.text)
  else if Registry.dispatches t then
    match ← construct r t.tagName with
    | some c => dispatchedBy handle before c
    | none =>
      match r.owner? t.tagName with
      | some owner => failAt t (.misplacedAuxiliary t.tagName owner)
      | none => failAt t (.unrecognizedElement t.text)
  else failAt t (.unrecognizedElement t.text)

/-- An element of a construct whose tag comes next. -/
def dispatched (r : Registry) (n : Nat) (below : Level) (before : List Annotation)
    (c : Construct) : Parse Element :=
  dispatchedBy (elementOf r n below) before c

/-- An element, or the reason why none begins here. -/
def element (r : Registry) (n : Nat) (below : Level) : Parse Element :=
  elementBy (elementOf r n below) r n

end TagLang.Grammar
