import TagLang.Proofs.Lexer.Positions
import TagLang.Proofs.Parser.Places
import TagLang.Proofs.Text.Lines

/-!
# The caret of a diagnostic

A diagnostic ends with two rows that begin with a gutter of one width: the line that the error
stands on, and dashes up to a caret. Its line is shown without its indentation, and the caret
is moved to the left by as much. No error of a source stands on the indentation of its line, so
the caret is in the column of the character that the error is about.
-/

namespace TagLang

namespace SyntaxError

/-- What stands in the gutter beside the line: its number. -/
def margin (e : SyntaxError) : List Char := (toString e.position.line).toList ++ [' ']

/-- A line beside its number. -/
def lineRow (e : SyntaxError) (shown : List Char) : List Char := e.margin ++ '|' :: ' ' :: shown

/-- A caret behind some dashes beside an empty margin. -/
def caretRow (e : SyntaxError) (dashes : Nat) : List Char :=
  List.replicate e.margin.length ' ' ++ '|' :: ' ' :: (List.replicate dashes '-' ++ ['^'])

/-- The diagnostic ends with a line of the source and a caret under the character that the
error is about. -/
structure PointsAt (e : SyntaxError) (source : String) (line shown : List Char) (dashes : Nat) :
    Prop where
  /-- The line is that with the number of the error. -/
  number : ∃ i, e.position.line = i + 1 ∧ (source.toList.splitOn '\n')[i]? = some line
  /-- It is shown without its indentation and the white space at its end. -/
  trimmed : shown = (line.dropWhile isIndentation).rdropWhile Unicode.isWhiteSpace
  rows : ∃ above, (e.render source).toList.splitOn '\n' =
    above ++ [e.lineRow shown, e.caretRow dashes]
  /-- Up to the caret, there are as many dashes as the error has characters of the line in
  front of it, without the indentation. -/
  column : (line.takeWhile isIndentation).length + dashes + 1 = e.position.column
  /-- A character that the error stands on is above the caret, unless it is white space. -/
  under : ∀ c, (line)[e.position.column - 1]? = some c → Unicode.isWhiteSpace c = false →
    (e.lineRow shown)[(e.caretRow dashes).length - 1]? = some c

variable {e : SyntaxError} {source : String} {line shown front rest : List Char} {dashes i : Nat}
  {c : Char}

theorem lineOf?_eq (here : (source.toList.splitOn '\n')[i]? = some line) :
    lineOf? source (i + 1) = some (String.ofList (Text.trimEnd (· == '\r') line)) := by
  rw [lineOf?, if_neg (Nat.succ_ne_zero i), Text.lines_eq_splitOn, Nat.add_sub_cancel, here]
  rfl

/-- A carriage return is no indentation, but it is white space. -/
theorem class_of_return : ∀ c, (c == '\r') = true →
    isIndentation c = false ∧ Unicode.isWhiteSpace c = true := by
  intro c same
  rw [beq_iff_eq.mp same]
  decide

/-- Carriage returns at the end of a line make no difference to how it is shown. -/
theorem trimEnd_dropWhile_trimEnd (line : List Char) :
    Text.trimEnd Unicode.isWhiteSpace ((Text.trimEnd (· == '\r') line).dropWhile isIndentation) =
      (line.dropWhile isIndentation).rdropWhile Unicode.isWhiteSpace := by
  have returns : ∀ c ∈ line.rtakeWhile (· == '\r'), Unicode.isWhiteSpace c = true := fun c mem =>
    (class_of_return c (List.mem_rtakeWhile_imp (p := (· == '\r')) mem)).2
  rw [← Text.dropWhile_trimEnd (fun c is => (class_of_return c is).1) line]
  exact (Text.trimEnd_append returns).symm

theorem toList_lineRow (e : SyntaxError) (shown : List Char) :
    (s!"{e.position.line} | {String.ofList shown}").toList = e.lineRow shown := by
  show (toString e.position.line ++ " | " ++ String.ofList shown).toList = _
  rw [String.toList_append, String.toList_append, String.toList_ofList, lineRow, margin]
  simp

theorem toList_caretRow (e : SyntaxError) (column : Nat) :
    (s!"{e.separator} {caret column}").toList = e.caretRow (column - 1) := by
  show (e.separator ++ " " ++ caret column).toList = _
  have width : e.gutter - 1 = e.margin.length := by
    rw [gutter, margin, List.length_append, String.length_toList]
    rfl
  rw [String.toList_append, String.toList_append, separator, caret, String.toList_ofList,
    String.toList_ofList, width, caretRow]
  simp

/-- The rows that a diagnostic ends with, where the error stands on this line. -/
theorem exists_toList_render (number : e.position.line = i + 1)
    (here : (source.toList.splitOn '\n')[i]? = some line) :
    ∃ above, (e.render source).toList = above ++ '\n' ::
      (e.lineRow ((line.dropWhile isIndentation).rdropWhile Unicode.isWhiteSpace) ++ '\n' ::
        e.caretRow (e.position.column - (line.takeWhile isIndentation).length - 1)) := by
  have found : lineOf? source e.position.line = some _ := number ▸ lineOf?_eq here
  have indented := Text.takeWhile_trimEnd (fun c is => (class_of_return c is).1) line
  refine ⟨e.headline.toList ++ '\n' :: (s!"-> {e.position.file}".toList ++ '\n' ::
    e.separator.toList), ?_⟩
  rw [render, rows, String.toList_intercalate, found]
  simp only [Option.getD_some, String.toList_ofList, trimEnd_dropWhile_trimEnd, indented,
    List.map_cons, List.map_nil, toList_lineRow, toList_caretRow]
  simp [List.intercalate]

/-- Numbers are written in digits, and so the margin is on one line. -/
theorem feed_notMem_margin (e : SyntaxError) : '\n' ∉ e.margin := by
  intro mem
  rw [margin, Nat.toString_eq_repr, Nat.toList_repr, List.mem_append] at mem
  rcases mem with digit | blank
  · exact absurd (Nat.isDigit_of_mem_toDigits (by decide) (by decide) digit) (by decide)
  · exact absurd blank (by decide)

theorem feed_notMem_lineRow (line : '\n' ∉ shown) : '\n' ∉ e.lineRow shown := by
  simp [lineRow, e.feed_notMem_margin, line]

theorem feed_notMem_caretRow (e : SyntaxError) (dashes : Nat) : '\n' ∉ e.caretRow dashes := by
  simp [caretRow]

/-- The character above the caret. -/
theorem getElem?_lineRow (e : SyntaxError) (shown : List Char) (dashes : Nat) :
    (e.lineRow shown)[(e.caretRow dashes).length - 1]? = shown[dashes]? := by
  have width : (e.caretRow dashes).length - 1 = e.margin.length + (dashes + 2) := by
    simp only [caretRow, List.length_append, List.length_replicate, List.length_cons,
      List.length_nil]
    omega
  rw [lineRow, width, List.getElem?_append_right (Nat.le_add_right _ _), Nat.add_sub_cancel_left]
  rfl

/-- A run of a text ends where something comes behind it that it does not belong to. -/
theorem length_takeWhile_append_le {p : Char → Bool} (stops : ∀ c ∈ rest.head?, p c = false) :
    ((front ++ rest).takeWhile p).length ≤ front.length := by
  have nothing : rest.takeWhile p = [] := by
    cases rest with
    | nil => rfl
    | cons c rest => simp [stops c rfl]
  rw [List.takeWhile_append, nothing, List.append_nil]
  split
  · exact Nat.le_refl _
  · exact (List.takeWhile_prefix p).length_le

/-- A diagnostic points at the character that the error stands on if that is not in the
indentation of its line. -/
theorem pointsAt_of_lt (number : e.position.line = i + 1)
    (here : (source.toList.splitOn '\n')[i]? = some line) (feedless : '\n' ∉ line)
    (behind : (line.takeWhile isIndentation).length < e.position.column) :
    e.PointsAt source line ((line.dropWhile isIndentation).rdropWhile Unicode.isWhiteSpace)
      (e.position.column - (line.takeWhile isIndentation).length - 1) where
  number := ⟨i, number, here⟩
  trimmed := rfl
  rows := by
    obtain ⟨above, rendered⟩ := exists_toList_render number here
    have shown : '\n' ∉ (line.dropWhile isIndentation).rdropWhile Unicode.isWhiteSpace := fun mem =>
      feedless ((List.dropWhile_sublist _).mem ((List.rdropWhile_prefix _ _).sublist.mem mem))
    refine ⟨above.splitOn '\n', ?_⟩
    rw [rendered, List.splitOn_append_cons_self, List.splitOn_append_cons_self,
      List.splitOn_eq_singleton (feed_notMem_lineRow shown),
      List.splitOn_eq_singleton (e.feed_notMem_caretRow _)]
    rfl
  column := by omega
  under := by
    intro c on dark
    have back : e.position.column - 1 = (line.takeWhile isIndentation).length +
        (e.position.column - (line.takeWhile isIndentation).length - 1) := by omega
    rw [← line.takeWhile_append_dropWhile (p := isIndentation), back,
      List.getElem?_append_right (Nat.le_add_right _ _), Nat.add_sub_cancel_left] at on
    rw [getElem?_lineRow]
    exact Text.getElem?_trimEnd on dark

/-- An error that stands on no blank does not stand in the indentation of its line. -/
theorem exists_pointsAt_of_place (file : String) (split : source.toList = front ++ rest)
    (position : e.position = .ofPlace file (Place.start.after front))
    (solid : ∀ c ∈ rest.head?, isBlank c = false) :
    ∃ line shown dashes, e.PointsAt source line shown dashes := by
  let before := (front.reverse.takeWhile (· ≠ '\n')).reverse
  let line := before ++ rest.takeWhile (· ≠ '\n')
  rw [Place.after_start] at position
  have number : e.position.line = front.count '\n' + 1 := by
    rw [position, Nat.add_comm]
    rfl
  have column : e.position.column = 1 + before.length := by
    rw [position, List.length_reverse]
    rfl
  have here : (source.toList.splitOn '\n')[front.count '\n']? = some line := by
    rw [split]
    exact Text.getElem?_splitOn_append front rest
  have feedless : '\n' ∉ line := by
    simp only [line, before, List.mem_append, List.mem_reverse]
    rintro (mem | mem) <;> simpa using List.mem_takeWhile_imp mem
  have indented : (line.takeWhile isIndentation).length ≤ before.length := by
    refine length_takeWhile_append_le fun c first => ?_
    rw [List.head?_takeWhile, Option.mem_filter_iff] at first
    have other := solid c first.1
    simp_all [isBlank, isIndentation]
  exact ⟨line, _, _, pointsAt_of_lt number here feedless (by omega)⟩

end SyntaxError

/-- Where a source cannot be parsed, the diagnostic ends with the line of the error beside its
number and a caret under the character that the error stands on. The line loses its
indentation and the white space at its end, and the error never stands in the indentation, so
the caret is behind the gutter, moved to the left by exactly what the line has lost. -/
theorem exists_pointsAt_of_error {source : String} {file : Option String} {e : SyntaxError}
    (failed : parse source file = .error e ∨ parseScript source file = .error e) :
    ∃ line shown dashes, e.PointsAt source line shown dashes := by
  obtain ⟨front, rest, split, position, solid⟩ := exists_place_of_error failed
  exact SyntaxError.exists_pointsAt_of_place _ split position solid

/-- A comma in the second line, behind a tab, a blank and a letter of two bytes. -/
theorem exists_pointsAt_of_error_comma :
    ∃ e, parseScript "module m\n\t call f(é +,\r\nend" none = .error e ∧
      ∃ line shown dashes, e.PointsAt "module m\n\t call f(é +,\r\nend" line shown dashes := by
  have fails : (parseScript "module m\n\t call f(é +,\r\nend" none).isOk = false := by
    decide +kernel
  obtain ⟨e, failed⟩ := Except.exists_eq_error fails
  exact ⟨e, failed, exists_pointsAt_of_error (.inr failed)⟩

end TagLang
