import TagLang.Token.Basic

/-!
# Paths and annotations

A path is a dotted name. An annotation is a documentation comment or a bare
name; annotations stand before the tag of a construct and, after a colon each,
behind its head.
-/

namespace TagLang

/-- A dotted name. It has at least one entry. -/
structure Path where
  first : Token
  more : List Token
deriving DecidableEq, Repr, Inhabited

namespace Path

/-- The entries, in order. -/
def entries (p : Path) : List Token := p.first :: p.more

/-- A path with one more entry at its end. -/
def extend (p : Path) (entry : Token) : Path := { p with more := p.more ++ [entry] }

/-- The number of entries. -/
def length (p : Path) : Nat := p.entries.length

/-- The last entry. -/
def last (p : Path) : Token := p.more.getLast?.getD p.first

/-- The entries as they are spelled, with a dot between each two. -/
def joined (p : Path) : String := ".".intercalate (p.entries.map Token.text)

@[simp] theorem entries_extend (p : Path) (entry : Token) :
    (p.extend entry).entries = p.entries ++ [entry] := rfl

theorem entries_ne_nil (p : Path) : p.entries ≠ [] := by
  simp [entries]

end Path

/-- What annotates a construct. -/
inductive Annotation
  | documentation (token : Token)
  | named (token : Token)
deriving DecidableEq, Repr, Inhabited

namespace Annotation

/-- The token of an annotation. -/
def token : Annotation → Token
  | .documentation t => t
  | .named t => t

/-- A token as what annotates: a comment by its kind, and otherwise a name. -/
def ofToken (t : Token) : Annotation :=
  if t.kind = .documentation then .documentation t else .named t

@[simp] theorem token_ofToken (t : Token) : (ofToken t).token = t := by
  unfold ofToken
  split <;> rfl

end Annotation

end TagLang
