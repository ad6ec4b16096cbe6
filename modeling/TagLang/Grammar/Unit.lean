import TagLang.Grammar.Element

/-!
# The grammar of a whole source

Levels are stacked on one another, each with the loops of its own bound. A unit
consists of uses and then of exactly one element; a script may hold any number.
-/

namespace TagLang.Grammar

open Parse

variable {κ : Type}

/-- How the elements of every sort are parsed with these constructs, this bound for loops and
this level below. -/
abbrev Handling (κ : Type) := Registry κ → Nat → Level → Handler κ

/-- The sorts of the language are handled as ever, and other sorts as `own` has it. -/
def withOwn {η : Type} (own : Registry (ElementKind ⊕ η) → Nat → Level → Handler η) :
    Handling (ElementKind ⊕ η)
  | r, n, below, before, tag, .inl kind => elementOf r n below before tag kind
  | r, n, below, before, tag, .inr kind => own r n below before tag kind

/-- The parses of at most `n` levels of nesting, with elements parsed as their sorts are
handled. -/
def levelBy (handle : Handling κ) (r : Registry κ) : Nat → Level
  | 0 => .bottom
  | n + 1 =>
    let below := levelBy handle r n
    ⟨elementBy (handle r n below) r n, expr r n below⟩

/-- The parses of at most `n` levels of nesting. -/
def level (r : Registry) (n : Nat) : Level := levelBy elementOf r n

/-- The word that introduces a use, its path and its synonym, if a use comes next. -/
def use (n : Nat) : Parse (Option Use) := do
  if ← nextIs (.word .useWord) then
    let tag ← next
    let name ← path n
    if ← accept (.word .asWord) then return some ⟨tag, name, some (← expect .identifier)⟩
    else return some ⟨tag, name, none⟩
  else return none

/-- The uses at the beginning of a source. -/
def uses (n : Nat) : Parse (List Use) := gather (use n) n []

/-- Uses and exactly one element. -/
def unitOf (top : Level) (n : Nat) : Parse CompilationUnit := do
  let uses ← uses n
  let element ← top.element
  return ⟨uses, [element], ← expect .eof⟩

/-- An element, unless the source ends here. -/
def furtherTopLevel (top : Level) : Parse (Option Element) := do
  if ← nextIs .eof then return none else return some (← top.element)

/-- Uses and any number of elements. -/
def scriptOf (top : Level) (n : Nat) : Parse CompilationUnit := do
  let uses ← uses n
  let elements ← gather (furtherTopLevel top) n []
  return ⟨uses, elements, ← expect .eof⟩

/-- Uses and exactly one element of the language. -/
def compilationUnit (r : Registry) (n : Nat) : Parse CompilationUnit := unitOf (level r n) n

/-- Uses and any number of elements of the language. -/
def scriptUnit (r : Registry) (n : Nat) : Parse CompilationUnit := scriptOf (level r n) n

end TagLang.Grammar
