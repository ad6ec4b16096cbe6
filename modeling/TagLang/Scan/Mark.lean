import TagLang.Lexeme.Read
import TagLang.Scan.Delimited

/-!
# Scanning marks

The marks that begin alike are told apart by a tree of decisions over the characters
behind the first. Each tree comes to the longest mark that begins the text: where it ends
with a mark, every way to lengthen that mark has been asked for on the way (`Munches`).
-/

namespace TagLang

namespace Mark

/-- The texts that make a longer mark behind this one. -/
def extensions (m : Mark) : List (List Char) :=
  (all.filter fun n => m.spelling <+: n.spelling ∧ n ≠ m).map fun n =>
    n.spelling.drop m.spelling.length

theorem longest?_append_of_extensions {m : Mark} {r : List Char}
    (h : ∀ w ∈ m.extensions, ¬ w <+: r) : longest? (m.spelling ++ r) = some m := by
  obtain ⟨n, found, le⟩ :=
    exists_longest? (s := m.spelling ++ r) (List.prefix_append _ _)
  have begins : n.spelling <+: m.spelling ++ r := begins_of_longestOf? found
  have above : m.spelling <+: n.spelling :=
    List.prefix_of_prefix_length_le (List.prefix_append _ _) begins le
  by_cases same : n = m
  · exact same ▸ found
  · obtain ⟨w, spelled⟩ := above
    have mem : w ∈ m.extensions := by
      refine List.mem_map.mpr ⟨n, List.mem_filter.mpr ⟨mem_all n, ?_⟩, ?_⟩
      · simpa [same] using ⟨w, spelled⟩
      · rw [← spelled, List.drop_left]
    rw [← spelled] at begins
    exact absurd ((List.prefix_append_right_inj _).mp begins) (h w mem)

theorem longest?_eq_none {c : Char} (h : ∀ m ∈ all, m.spelling.head? ≠ some c) (r : List Char) :
    longest? (c :: r) = none := by
  cases found : longest? (c :: r) with
  | none => rfl
  | some m =>
    have begins := begins_of_longest? found
    cases spelled : m.spelling with
    | nil => exact absurd spelled m.spelling_ne_nil
    | cons d w =>
      rw [Begins, spelled, List.cons_prefix_cons] at begins
      exact absurd (by rw [spelled, List.head?_cons, begins.1]) (h m (mem_all m))

end Mark

namespace Scan

/-- Move over a text on the line if it comes next, and go on either way. -/
def ifText (text : List Char) (found other : Scan TokenKind) : Scan TokenKind := do
  if ← hasText text then
    sameLine text.length
    found
  else other

/-- A mark. -/
def mark (m : Mark) : Scan TokenKind := return .mark m

/-- Whether the next character is `next` decides between two marks. -/
def eitherMark (next : Char) (long short : Mark) : Scan TokenKind :=
  either next (.mark long) (.mark short)

/-- Behind a dot. -/
def dot : Scan TokenKind := do
  if ← advanceOver '.' then
    if ← advanceOver '<' then mark .rangeExclusive
    else eitherMark '.' .dotDotDot .rangeInclusive
  else eitherMark '?' .dotQuestion .dot

/-- Behind a dash. -/
def dash : Scan TokenKind := do
  if ← advanceOver '=' then mark .dashEquals
  else if ← advanceOver '>' then mark .rightArrow
  else ifText ['-', '>'] (eitherMark '>' .rightLongDoubleArrow .rightLongArrow) <|
    ifText ['-', '-'] (mark .longLine) <|
    ifText ['-', '<', '>'] (mark .rightLongDiamondArrow) (mark .dash)

/-- Behind a colon. -/
def colon : Scan TokenKind := do
  if ← advanceOver ':' then eitherMark '>' .colonColonGreater .colonColon
  else eitherMark '>' .colonGreater .colon

/-- Behind an equals sign. -/
def equals : Scan TokenKind := do
  if ← advanceOver '>' then mark .fatArrow
  else if ← advanceOver '=' then
    if ← advanceOver '>' then eitherMark '>' .rightFatLongDoubleArrow .rightFatLongArrow
    else ifText ['<', '>'] (mark .rightFatLongDiamondArrow) (mark .equalsEquals)
  else mark .equals

/-- An arrow to the left with one or two characters of its shaft, and then perhaps one to
the right. -/
def leftArrow (shaft : Char) (short shortBoth long longBoth : Mark) (other : Scan TokenKind) :
    Scan TokenKind :=
  ifText [shaft, shaft] (eitherMark '>' longBoth long) <|
    ifText [shaft] (eitherMark '>' shortBoth short) other

/-- Behind a less-than sign. -/
def less : Scan TokenKind :=
  ifText ['=', '='] (eitherMark '>' .leftRightFatLongArrow .leftFatLongArrow) <|
  ifText ['=', '>'] (mark .compare) <|
  ifText ['='] (mark .lessEquals) <|
  leftArrow '-' .leftArrow .leftRightArrow .leftLongArrow .leftRightLongArrow <|
  leftArrow '~' .leftTildeArrow .leftRightTildeArrow .leftTildeLongArrow
    .leftRightTildeLongArrow <|
  ifText [':'] (eitherMark '>' .leftRightColonArrow .leftColonArrow) (mark .less)

/-- The operators spelled as a word between tildes, behind the first tilde. -/
def wordOperators : List (List Char × Mark) := [
  (['a', 'n', 'd', '~'], .bitwiseAnd),
  (['n', 'a', 'n', 'd', '~'], .bitwiseNand),
  (['n', 'o', 'r', '~'], .bitwiseNor),
  (['n', 'o', 't', '~'], .bitwiseNot),
  (['o', 'r', '~'], .bitwiseOr),
  (['s', 'h', 'l', '~'], .shiftLeft),
  (['s', 'h', 'r', '~'], .shiftRight),
  (['x', 'o', 'r', '~'], .bitwiseXor),
  (['z', 's', 'h', 'r', '~'], .zeroShiftRight)]

/-- The first of the operators that comes next. -/
def wordOperator : List (List Char × Mark) → Scan TokenKind → Scan TokenKind
  | [], other => other
  | (word, m) :: operators, other => ifText word (mark m) (wordOperator operators other)

/-- Behind a tilde, where no regular expression begins. -/
def tildeMark : Scan TokenKind :=
  wordOperator wordOperators do
    if ← advanceOver '=' then mark .tildeEquals
    else if ← advanceOver '>' then mark .tildeArrow
    else ifText ['~', '>'] (eitherMark '>' .tildeLongDoubleArrow .tildeLongArrow) <|
      ifText ['~', '~'] (mark .tildeLongLine) <|
      ifText ['~', '<', '>'] (mark .tildeLongDiamondArrow) (mark .tilde)

/-- Behind a tilde. -/
def tilde : Scan TokenKind := do
  if ← advanceOver '/' then regularExpression else tildeMark

/-- Behind a slash. -/
def slash : Scan TokenKind := do
  if ← advanceOver '/' then lineComment
  else if ← advanceOver '*' then blockComment
  else eitherMark '=' .slashEquals .slash

/-- Behind a percent sign. -/
def percent : Scan TokenKind := ifText ['%', ']'] (mark .graphEnd) (mark .percent)

/-- Behind an opening bracket. -/
def openBracket : Scan TokenKind := ifText ['%', '%'] (mark .graphStart) (mark .openBracket)

/-- Behind an opening curly bracket. -/
def openCurly : Scan TokenKind := ifText ['{', '{'] template (mark .openCurly)

/-- What must not come next behind `w`, where none of `others` comes next before it. -/
def behind (w : List Char) (others : List (List Char)) : List (List Char) :=
  (others.filter (w.isPrefixOf ·)).map (·.drop w.length)

/-- Behind the characters `t` the scan comes to the longest mark that begins the text,
unless one of `others` comes next. -/
def Munches (p : Scan TokenKind) (t : List Char) (others : List (List Char)) : Prop :=
  ∀ r, (∀ w ∈ others, ¬ w <+: r) → ∃ m x, p.Takes t r (.mark m) x ∧
    t ++ x.text = m.spelling ∧ Mark.longest? (t ++ r) = some m

section Munches

variable {p found other : Scan TokenKind} {f : Bool → Scan TokenKind} {t : List Char}
  {others : List (List Char)}

/-- The scan may end with a mark once every extension of it begins with a text that does
not come next. -/
theorem munches_mark {m : Mark} (ends : ∀ e ∈ m.extensions, ∃ w ∈ others, w <+: e) :
    (mark m).Munches m.spelling others := by
  intro r none
  refine ⟨m, .nothing r, takes_pure _, List.append_nil _, ?_⟩
  refine Mark.longest?_append_of_extensions fun e mem begins => ?_
  obtain ⟨w, among, start⟩ := ends e mem
  exact none w among (start.trans begins)

theorem Munches.mono {others' : List (List Char)} (h : p.Munches t others')
    (sub : others' ⊆ others) : p.Munches t others :=
  fun r none => h r fun w mem => none w (sub mem)

/-- A scan behind more of the text, once that part of the text has been passed. -/
theorem Munches.under {q : Scan TokenKind} {w r : List Char}
    (h : p.Munches (t ++ w) (behind w others)) (none : ∀ o ∈ others, ¬ o <+: w ++ r)
    (passes : ∀ {kind x}, p.Takes (t ++ w) r kind x → q.Takes t (w ++ r) kind (x.after w)) :
    ∃ m x, q.Takes t (w ++ r) (.mark m) x ∧ t ++ x.text = m.spelling ∧
      Mark.longest? (t ++ (w ++ r)) = some m := by
  have noneBehind : ∀ u ∈ behind w others, ¬ u <+: r := by
    rintro u mem begins
    obtain ⟨o, among, rfl⟩ := List.mem_map.mp mem
    obtain ⟨among, start⟩ := List.mem_filter.mp among
    obtain ⟨u, rfl⟩ : w <+: o := by simpa using start
    rw [List.drop_left] at begins
    exact none _ among ((List.prefix_append_right_inj w).mpr begins)
  obtain ⟨m, x, takes, spelled, longest⟩ := h r noneBehind
  refine ⟨m, x.after w, passes takes, ?_, ?_⟩
  · rw [← spelled, Cut.text_after, List.append_assoc]
  · rw [← longest, List.append_assoc]

theorem munches_ifText {w : List Char} (line : '\n' ∉ w)
    (hf : found.Munches (t ++ w) (behind w others)) (ho : other.Munches t (w :: others)) :
    (ifText w found other).Munches t others := by
  intro r none
  by_cases next : w <+: r
  · obtain ⟨r, rfl⟩ := next
    refine hf.under none fun takes => takes_hasText_bind w (takes_then ?_ ?_)
    · exact List.isPrefixOf_iff_prefix.mpr (List.prefix_append w r)
    · exact (takes_sameLine line).bind takes
  · obtain ⟨m, x, takes, spelled, longest⟩ := ho r (by simpa [next] using none)
    refine ⟨m, x, takes_hasText_bind w (takes_else ?_ takes), spelled, longest⟩
    simpa using next

theorem munches_advanceOver {ch : Char} (hf : (f true).Munches (t ++ [ch]) (behind [ch] others))
    (ho : (f false).Munches t ([ch] :: others)) : (advanceOver ch >>= f).Munches t others := by
  intro r none
  by_cases next : [ch] <+: r
  · obtain ⟨r, rfl⟩ := next
    exact hf.under none fun takes => takes_advanceOver_cons.bind takes
  · obtain ⟨m, x, takes, spelled, longest⟩ := ho r (by simpa [next] using none)
    refine ⟨m, x, takes_advanceIf_bind_of_not ?_ takes, spelled, longest⟩
    cases r with
    | nil => rfl
    | cons c r =>
      have apart : c ≠ ch := by
        rintro rfl
        exact next (by simp)
      simpa using apart

theorem munches_eitherMark {ch : Char} {long short : Mark}
    (h : t = short.spelling ∧ t ++ [ch] = long.spelling ∧ long.extensions = [] ∧
      ∀ e ∈ short.extensions, ∃ w ∈ [ch] :: others, w <+: e) :
    (eitherMark ch long short).Munches t others := by
  obtain ⟨rfl, spelled, longEnds, shortEnds⟩ := h
  refine munches_advanceOver ?_ (munches_mark shortEnds)
  rw [spelled]
  exact munches_mark (by simp [longEnds])

theorem munches_wordOperator {operators : List (List Char × Mark)}
    (words : ∀ o ∈ operators, '\n' ∉ o.1 ∧ t ++ o.1 = o.2.spelling ∧ o.2.extensions = [])
    (ho : other.Munches t (operators.map Prod.fst ++ others)) :
    (wordOperator operators other).Munches t others := by
  induction operators generalizing others with
  | nil => exact ho
  | cons o operators ih =>
    obtain ⟨line, spelled, ends⟩ := words o List.mem_cons_self
    refine munches_ifText line ?_ (ih (fun o mem => words o (List.mem_cons_of_mem _ mem)) ?_)
    · rw [spelled]
      exact munches_mark (by simp [ends])
    · exact ho.mono List.perm_middle.symm.subset

theorem munches_dot : dot.Munches ['.'] [] :=
  munches_advanceOver
    (munches_advanceOver (munches_mark (m := .rangeExclusive) (by decide))
      (munches_eitherMark (by decide)))
    (munches_eitherMark (by decide))

theorem munches_dash : dash.Munches ['-'] [] :=
  munches_advanceOver (munches_mark (m := .dashEquals) (by decide)) <|
  munches_advanceOver (munches_mark (m := .rightArrow) (by decide)) <|
  munches_ifText (by decide) (munches_eitherMark (by decide)) <|
  munches_ifText (by decide) (munches_mark (m := .longLine) (by decide)) <|
  munches_ifText (by decide) (munches_mark (m := .rightLongDiamondArrow) (by decide)) <|
  munches_mark (m := .dash) (by decide)

theorem munches_colon : colon.Munches [':'] [] :=
  munches_advanceOver (munches_eitherMark (by decide)) (munches_eitherMark (by decide))

theorem munches_equals : equals.Munches ['='] [] :=
  munches_advanceOver (munches_mark (m := .fatArrow) (by decide)) <|
  munches_advanceOver
    (munches_advanceOver (munches_eitherMark (by decide)) <|
      munches_ifText (by decide) (munches_mark (m := .rightFatLongDiamondArrow) (by decide)) <|
      munches_mark (m := .equalsEquals) (by decide)) <|
  munches_mark (m := .equals) (by decide)

theorem munches_less : less.Munches ['<'] [] :=
  munches_ifText (by decide) (munches_eitherMark (by decide)) <|
  munches_ifText (by decide) (munches_mark (m := .compare) (by decide)) <|
  munches_ifText (by decide) (munches_mark (m := .lessEquals) (by decide)) <|
  munches_ifText (by decide) (munches_eitherMark (by decide)) <|
  munches_ifText (by decide) (munches_eitherMark (by decide)) <|
  munches_ifText (by decide) (munches_eitherMark (by decide)) <|
  munches_ifText (by decide) (munches_eitherMark (by decide)) <|
  munches_ifText (by decide) (munches_eitherMark (by decide)) <|
  munches_mark (m := .less) (by decide)

theorem munches_tildeMark : tildeMark.Munches ['~'] [] :=
  munches_wordOperator (by decide) <|
  munches_advanceOver (munches_mark (m := .tildeEquals) (by decide)) <|
  munches_advanceOver (munches_mark (m := .tildeArrow) (by decide)) <|
  munches_ifText (by decide) (munches_eitherMark (by decide)) <|
  munches_ifText (by decide) (munches_mark (m := .tildeLongLine) (by decide)) <|
  munches_ifText (by decide) (munches_mark (m := .tildeLongDiamondArrow) (by decide)) <|
  munches_mark (m := .tilde) (by decide)

theorem munches_percent : percent.Munches ['%'] [] :=
  munches_ifText (by decide) (munches_mark (m := .graphEnd) (by decide)) <|
  munches_mark (m := .percent) (by decide)

theorem munches_openBracket : openBracket.Munches ['['] [] :=
  munches_ifText (by decide) (munches_mark (m := .graphStart) (by decide)) <|
  munches_mark (m := .openBracket) (by decide)

theorem Munches.completes {ch : Char} (h : p.Munches [ch] []) (r : List Char) :
    p.Completes [ch] r (Lexeme.mark ch r) := by
  obtain ⟨m, x, takes, spelled, longest⟩ := h r (by simp)
  refine ⟨.mark m, x, takes, ?_⟩
  rw [List.cons_append, List.nil_append] at longest
  have whole : ch :: r = m.spelling ++ x.rest := by
    rw [← spelled, List.append_assoc, takes.of]
    rfl
  rw [Lexeme.mark, longest]
  dsimp only
  rw [whole, List.drop_left, ← spelled]
  rfl

end Munches

end Scan

end TagLang
