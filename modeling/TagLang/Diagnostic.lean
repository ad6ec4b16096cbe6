import TagLang.SyntaxError

/-!
# Diagnostics

A diagnostic shows the line of a source that an error stands on, without its
indentation, and a caret under the offending character.
-/

namespace TagLang

namespace Text

/-- The lines of a text, without the line feeds between them. -/
def lines : List Char → List (List Char)
  | [] => [[]]
  | c :: r =>
    if c = '\n' then [] :: lines r
    else
      match lines r with
      | [] => [[c]]
      | l :: ls => (c :: l) :: ls

/-- A text without the longest run at its end that satisfies `p`. -/
def trimEnd (p : Char → Bool) (s : List Char) : List Char := (s.reverse.dropWhile p).reverse

end Text

/-- The line of a source with this number, counted from one, without the carriage
returns at its end. -/
def lineOf? (source : String) (line : Nat) : Option String :=
  if line = 0 then none
  else
    (Text.lines source.toList)[line - 1]?.map fun l =>
      String.ofList (Text.trimEnd (· == '\r') l)

namespace SyntaxError

/-- The characters that indent a line. -/
def isIndentation (c : Char) : Bool := c == ' ' || c == '\t'

/-- The width of the column of line numbers. -/
def gutter (e : SyntaxError) : Nat := (toString e.position.line).length + 2

/-- The separator of the gutter, flush right in it. -/
def separator (e : SyntaxError) : String := String.ofList (List.replicate (e.gutter - 1) ' ' ++ ['|'])

/-- Dashes up to a caret in the given column. -/
def caret (column : Nat) : String := String.ofList (List.replicate (column - 1) '-' ++ ['^'])

/-- The name of the cause, with its tip in parentheses if it has one. -/
def headline (e : SyntaxError) : String :=
  match e.cause.tip with
  | some tip => s!"Error: {e.cause.name} ({tip})"
  | none => s!"Error: {e.cause.name}"

/-- The rows of a diagnostic. A line that the source does not have counts as empty. -/
def rows (e : SyntaxError) (source : String) : List String :=
  let line := ((lineOf? source e.position.line).getD "").toList
  let shown := String.ofList (Text.trimEnd Unicode.isWhiteSpace (line.dropWhile isIndentation))
  let column := e.position.column - (line.takeWhile isIndentation).length
  [e.headline,
    s!"-> {e.position.file}",
    e.separator,
    s!"{e.position.line} | {shown}",
    s!"{e.separator} {caret column}"]

/-- The rows of a diagnostic, joined by line feeds. -/
def render (e : SyntaxError) (source : String) : String := "\n".intercalate (e.rows source)

end SyntaxError

end TagLang
