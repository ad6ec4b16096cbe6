/-!
# Places and positions

A place is a line and a column, both counted from one in characters; only a
line feed starts a new line. A position is a place with the label of its file.
-/

namespace TagLang

/-- A line and a column. -/
structure Place where
  line : Nat
  column : Nat
deriving DecidableEq, Repr, Inhabited

namespace Place

/-- The place of the first character of any text. -/
def start : Place := ⟨1, 1⟩

/-- The place just after a character. -/
def next (p : Place) (c : Char) : Place :=
  if c = '\n' then ⟨p.line + 1, 1⟩ else ⟨p.line, p.column + 1⟩

/-- The place just after a text. -/
def after (p : Place) (text : List Char) : Place := text.foldl next p

@[simp] theorem after_nil (p : Place) : p.after [] = p := rfl

@[simp] theorem after_cons (p : Place) (c : Char) (text : List Char) :
    p.after (c :: text) = (p.next c).after text := rfl

@[simp] theorem after_append (p : Place) (a b : List Char) :
    p.after (a ++ b) = (p.after a).after b := by
  simp [after, List.foldl_append]

theorem line_after (p : Place) (text : List Char) :
    (p.after text).line = p.line + text.count '\n' := by
  induction text generalizing p with
  | nil => rfl
  | cons c text ih =>
    rw [after_cons, ih, List.count_cons]
    by_cases feed : c = '\n'
    · simp only [next, feed, if_true, beq_self_eq_true]
      omega
    · simp [next, feed]

end Place

/-- A place in a labelled file. -/
structure Position where
  file : String
  line : Nat
  column : Nat
deriving DecidableEq, Repr, Inhabited

namespace Position

/-- The position of a place in a file. -/
def ofPlace (file : String) (place : Place) : Position := ⟨file, place.line, place.column⟩

/-- The position of what has no source. -/
def null : Position := ⟨"<null>", 0, 0⟩

/-- File, line and column, separated by colons. -/
def render (p : Position) : String := s!"{p.file}:{p.line}:{p.column}"

end Position

end TagLang
