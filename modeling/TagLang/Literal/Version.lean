/-!
# Versions

A version has three parts of digits and underscores, separated by dots, then
optionally a dash with the label of a prerelease and a plus sign with that of a
build.
-/

namespace TagLang

/-- A version: three parts, and labels for a prerelease and a build. -/
structure Version where
  major : String
  minor : String
  patch : String
  prerelease : Option String
  build : Option String
deriving DecidableEq, Repr, Inhabited

namespace Version

/-- The characters of a numeric part. -/
def isPartChar (c : Char) : Bool := c.isDigit || c == '_'

/-- The characters of a label. -/
def isLabelChar (c : Char) : Bool := c.isAlphanum || c == '_'

/-- A nonempty run of characters that satisfy `p`, and what follows it. -/
def run? (p : Char → Bool) (s : List Char) : Option (List Char × List Char) :=
  if s.takeWhile p = [] then none else some (s.takeWhile p, s.dropWhile p)

/-- The character `ch` and a run after it; nothing if `ch` does not come next. -/
def label? (ch : Char) : List Char → Option (Option (List Char) × List Char)
  | [] => some (none, [])
  | c :: r =>
    if c == ch then (run? isLabelChar r).map fun (label, rest) => (some label, rest)
    else some (none, c :: r)

/-- A part of a version after a dot. -/
def dotPart? : List Char → Option (List Char × List Char)
  | '.' :: r => run? isPartChar r
  | _ => none

/-- Read a version. -/
def ofText? (s : List Char) : Option Version := do
  let (major, r) ← run? isPartChar s
  let (minor, r) ← dotPart? r
  let (patch, r) ← dotPart? r
  let (prerelease, r) ← label? '-' r
  let (build, r) ← label? '+' r
  if r = [] then
    return ⟨String.ofList major, String.ofList minor, String.ofList patch,
      prerelease.map String.ofList, build.map String.ofList⟩
  else none

end Version

end TagLang
