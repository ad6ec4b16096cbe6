import TagLang.Lexeme.Basic

/-!
# Text literals

A text literal stands between single or double quotes, or between triples of
them, and may hold escapes. One in single delimiters must close on its line; a
faulty escape spoils the literal but not its end.
-/

namespace TagLang.Lexeme

/-- How an escape came out. An unclosed one ran into the end of its literal. -/
inductive EscapeVerdict
  | valid | invalid | unclosed
deriving DecidableEq, Repr

/-- Where a text literal has to end: at its closing delimiter, and before a line
break unless it may span lines. -/
structure TextStyle where
  closing : List Char
  multiline : Bool
deriving DecidableEq, Repr

namespace TextStyle

/-- Whether no literal of this style can go on here. -/
def stops (style : TextStyle) : List Char → Bool
  | [] => true
  | c :: _ => !style.multiline && (c == '\n' || c == '\r')

end TextStyle

/-- The characters a backslash may stand before, besides `u`. -/
def isSimpleEscape (c : Char) : Bool :=
  c == 'b' || c == 'f' || c == 'n' || c == 'r' || c == 't' || c == '"' || c == '\'' || c == '\\'

/-- Take up to `n` hexadecimal digits. -/
def hexDigits : Nat → List Char → Cut
  | n + 1, c :: r => if isHexDigit c then (hexDigits n r).after [c] else Cut.nothing (c :: r)
  | _, s => Cut.nothing s

/-- The verdict on an escape that breaks off before this text. -/
def brokenOff (style : TextStyle) (s : List Char) : EscapeVerdict :=
  if style.stops s then .unclosed else .invalid

/-- The escape after a backslash. An unknown character is taken with it; the one
that ends an unfinished code point is not. -/
def escape (style : TextStyle) : List Char → EscapeVerdict × Cut
  | [] => (.unclosed, Cut.nothing [])
  | c :: r =>
    if style.stops (c :: r) then (.unclosed, Cut.nothing (c :: r))
    else if c == 'u' then
      match r with
      | '{' :: r' =>
        let name := Cut.run Unicode.isAlphanumeric r'
        match name.text, name.rest with
        | _ :: _, '}' :: r'' => (.valid, ⟨['u', '{'] ++ name.text ++ ['}'], r''⟩)
        | _, _ => (brokenOff style name.rest, name.after ['u', '{'])
      | _ =>
        let digits := hexDigits 4 r
        if digits.text.length = 4 then (.valid, digits.after ['u'])
        else (brokenOff style digits.rest, digits.after ['u'])
    else (if isSimpleEscape c then .valid else .invalid, ⟨[c], r⟩)

/-- How a text literal came out. A faulty one is closed but holds a faulty escape. -/
inductive TextVerdict
  | proper | faulty | unclosed
deriving DecidableEq, Repr

namespace TextVerdict

/-- The verdict after a faulty escape. -/
def spoil : TextVerdict → TextVerdict
  | .proper => .faulty
  | v => v

end TextVerdict

theorem of_hexDigits (n : Nat) (s : List Char) : (hexDigits n s).Of s := by
  induction n generalizing s with
  | zero => exact Cut.of_nothing s
  | succ n ih =>
    cases s with
    | nil => rfl
    | cons c r =>
      unfold hexDigits
      split
      · exact (ih r).after [c]
      · exact Cut.of_nothing _

theorem of_escape (style : TextStyle) (s : List Char) : (escape style s).2.Of s := by
  unfold escape
  split
  · rfl
  · rename_i c r
    split
    · exact Cut.of_nothing _
    · split
      · rename_i hu
        obtain rfl : c = 'u' := by simpa using hu
        split
        · have name := Cut.of_run Unicode.isAlphanumeric
          dsimp only
          split
          · rename_i r' _ _ _ _ _ _ _ hrest
            have joined : _ ++ _ = r' := name r'
            rw [hrest] at joined
            simpa [Cut.Of] using joined
          · exact (name _).after _
        · dsimp only
          split <;> exact (of_hexDigits 4 _).after ['u']
      · rfl

section Escapes

variable {style : TextStyle}

theorem exists_eq_cons {c : Char} {t : List Char} (h : t.head?.any (· == c) = true) : ∃ r, t = c :: r := by
  cases t with
  | nil => cases h
  | cons d t => exact ⟨t, by simpa using h⟩

/-- The code point with this name between braces, behind the first of them. -/
def bracedPoint (style : TextStyle) (name : Cut) : EscapeVerdict × Cut :=
  match name.text, name.rest with
  | _ :: _, '}' :: r => (.valid, ⟨name.text ++ ['}'], r⟩)
  | _, _ => (brokenOff style name.rest, name)

/-- The code point of four digits. -/
def codedPoint (style : TextStyle) (t : List Char) : EscapeVerdict × Cut :=
  let digits := hexDigits 4 t
  (if digits.text.length = 4 then .valid else brokenOff style digits.rest, digits)

/-- The code point behind the letter that announces it. -/
def point (style : TextStyle) (t : List Char) : EscapeVerdict × Cut :=
  match t with
  | '{' :: r =>
    let closed := bracedPoint style (Cut.run Unicode.isAlphanumeric r)
    (closed.1, closed.2.after ['{'])
  | _ => codedPoint style t

theorem point_brace (style : TextStyle) (t : List Char) :
    point style ('{' :: t) =
      ((bracedPoint style (Cut.run Unicode.isAlphanumeric t)).1,
        (bracedPoint style (Cut.run Unicode.isAlphanumeric t)).2.after ['{']) := rfl

theorem point_of_apart {t : List Char} (h : t.head?.any (· == '{') = false) :
    point style t = codedPoint style t := by
  unfold point
  split
  · cases h
  · rfl

theorem bracedPoint_of_closed (a : Char) (t r : List Char) :
    bracedPoint style ⟨a :: t, '}' :: r⟩ = (.valid, ⟨a :: t ++ ['}'], r⟩) := rfl

theorem bracedPoint_of_open {name : Cut}
    (h : name.text ≠ [] → name.rest.head?.any (· == '}') = false) :
    bracedPoint style name = (brokenOff style name.rest, name) := by
  unfold bracedPoint
  split
  · rename_i text rest
    simp [text, rest] at h
  · rfl

theorem escape_of_stops {t : List Char} (h : style.stops t = true) :
    escape style t = (.unclosed, Cut.nothing t) := by
  cases t with
  | nil => rfl
  | cons c t => exact if_pos h

theorem escape_simple {c : Char} {t : List Char} (goes : ¬ style.stops (c :: t) = true)
    (plain : c ≠ 'u') :
    escape style (c :: t) = (if isSimpleEscape c then .valid else .invalid, ⟨[c], t⟩) :=
  (if_neg goes).trans (if_neg (by simpa using plain))

theorem escape_point (style : TextStyle) (t : List Char) :
    escape style ('u' :: t) = ((point style t).1, (point style t).2.after ['u']) := by
  have goes : ¬ style.stops ('u' :: t) = true := by simp [TextStyle.stops]
  by_cases brace : t.head?.any (· == '{') = true
  · obtain ⟨t, rfl⟩ := exists_eq_cons brace
    simp only [escape, if_neg goes, beq_self_eq_true, if_true, point_brace]
    generalize Cut.run Unicode.isAlphanumeric t = name
    obtain ⟨text, rest⟩ := name
    unfold bracedPoint
    split <;> simp_all [Cut.after]
  · rw [point_of_apart (Bool.eq_false_iff.mpr brace), codedPoint]
    refine (if_neg goes).trans ((if_pos (by rfl)).trans ?_)
    split
    · exact absurd rfl brace
    · dsimp only
      split <;> rfl

end Escapes

/-- The body of a text literal with its closing delimiter, if it is closed. -/
def textBody (style : TextStyle) (s : List Char) : TextVerdict × Cut :=
  if style.stops s then (.unclosed, Cut.nothing s)
  else if style.closing.isPrefixOf s then
    (.proper, ⟨style.closing, s.drop style.closing.length⟩)
  else
    match s with
    | [] => (.unclosed, Cut.nothing [])
    | c :: r =>
      if c == '\\' then
        let spelled := (escape style r).2
        match (escape style r).1 with
        | .unclosed => (.unclosed, spelled.after [c])
        | .valid =>
          let tail := textBody style spelled.rest
          (tail.1, tail.2.after (c :: spelled.text))
        | .invalid =>
          let tail := textBody style spelled.rest
          (tail.1.spoil, tail.2.after (c :: spelled.text))
      else
        let tail := textBody style r
        (tail.1, tail.2.after [c])
termination_by s.length
decreasing_by
  · exact Nat.lt_succ_of_le (of_escape _ r).length_le
  · exact Nat.lt_succ_of_le (of_escape _ r).length_le
  · exact Nat.lt_succ_self _

theorem of_textBody (style : TextStyle) (s : List Char) : (textBody style s).2.Of s := by
  fun_induction textBody style s with
  | case1 s h => exact Cut.of_nothing s
  | case2 s h hc =>
    obtain ⟨t, rfl⟩ := List.isPrefixOf_iff_prefix.mp hc
    simp [Cut.Of]
  | case3 => rfl
  | case4 c r => exact (of_escape style r).after [c]
  | case5 c r h hc hq spelled hv tail ih =>
    simpa [Cut.after] using ((of_escape style r).under ih).after [c]
  | case6 c r h hc hq spelled hv tail ih =>
    simpa [Cut.after] using ((of_escape style r).under ih).after [c]
  | case7 c r h hc hq tail ih => exact ih.after [c]

/-- The kind of a text literal, by its verdict. -/
def textKind (form : LiteralForm) : TextVerdict → TokenKind
  | .proper => .literal form
  | .faulty => .fault .invalidText
  | .unclosed => .fault .unclosedText

/-- The lexeme at a quote. -/
def quoted (quote : Char) (r : List Char) : Lexeme :=
  if [quote, quote].isPrefixOf r then
    let body := textBody ⟨[quote, quote, quote], true⟩ (r.drop 2)
    let form := if quote == '"' then .doubleQuotedMultiline else .singleQuotedMultiline
    ofCut (textKind form body.1) (body.2.after [quote, quote, quote])
  else
    let body := textBody ⟨[quote], false⟩ r
    let form := if quote == '"' then .doubleQuoted else .singleQuoted
    ofCut (textKind form body.1) (body.2.after [quote])

theorem splits_quoted (quote : Char) (r : List Char) : (quoted quote r).Splits (quote :: r) := by
  unfold quoted
  split
  · rename_i h
    obtain ⟨t, rfl⟩ := List.isPrefixOf_iff_prefix.mp h
    exact splits_ofCut ((of_textBody _ _).after [quote, quote, quote]) (by simp)
  · exact splits_ofCut ((of_textBody _ _).after [quote]) (by simp)

end TagLang.Lexeme
