import TagLang.Scan.DateTime
import TagLang.Scan.Mark
import TagLang.Scan.Number
import TagLang.Scan.Quoted
import TagLang.Scan.Word

/-!
# Scanning a lexeme

The first character decides which scan goes on behind it. Whatever the text, a scan never
moves over a line feed by counting columns and never goes round in place: behind an empty
pending span `lexeme` takes what `Lexeme.read` takes and comes to its kind.
-/

namespace TagLang

namespace Scan

/-- The characters that begin several kinds of lexemes, and the scans behind them. -/
def branchings : List (Char × Scan TokenKind) := [
  ('\x60', code), ('$', dateTime), ('#', hashTag), ('~', tilde), ('.', dot), ('-', dash),
  (':', colon), ('=', equals), ('<', less), ('/', slash), ('%', percent), ('[', openBracket),
  ('{', openCurly)]

/-- The characters behind which the next one decides between a longer and a shorter mark. -/
def choices : List (Char × Char × Mark × Mark) := [
  ('>', '=', .greaterEquals, .greater),
  ('&', '=', .ampersandEquals, .ampersand),
  ('*', '=', .starEquals, .star),
  ('^', '=', .caretEquals, .caret),
  ('+', '=', .plusEquals, .plus),
  ('?', '?', .questionQuestion, .question),
  ('@', '|', .atBar, .at)]

/-- The characters that are a mark by themselves. -/
def singles : List (Char × Mark) := [
  ('|', .bar), (']', .closeBracket), ('}', .closeCurly), ('(', .openParen), (')', .closeParen),
  (',', .comma), (';', .semicolon)]

/-- The characters that begin no word, number or text, and the scans behind them. -/
def symbols : List (Char × Scan TokenKind) :=
  branchings ++ choices.map (fun o => (o.1, eitherMark o.2.1 o.2.2.1 o.2.2.2)) ++
    singles.map fun o => (o.1, mark o.2)

/-- Behind a character that begins no word, number or text. -/
def symbol (ch : Char) : Scan TokenKind :=
  (symbols.lookup ch).getD (return .fault .unexpectedCharacter)

/-- A run of blanks behind its first. -/
def blanks : Scan TokenKind := do
  advanceWhile isBlank
  return .whiteSpace

/-- Behind the first character of a lexeme. -/
def lexemeFrom (ch : Char) : Scan TokenKind :=
  if isBlank ch then blanks
  else if Unicode.isAlphabetic ch then identifierOrKeyword
  else if ch == '_' then underscore
  else if ch.isDigit then number ch
  else if ch == '"' || ch == '\'' then text ch
  else symbol ch

/-- The next lexeme. At the end of the text nothing is read. -/
def lexeme : Scan TokenKind := do
  match ← char with
  | none => return .eof
  | some ch => lexemeFrom ch

section Completes

variable {t r w : List Char} {ch : Char} {x : Lexeme} {found other : Scan TokenKind}
  {f : Bool → Scan TokenKind}

theorem completes_advanceOver (h : (f true).Completes (t ++ [ch]) r x) :
    (advanceOver ch >>= f).Completes t (ch :: r) x := by
  obtain ⟨kind, y, takes, joined⟩ := h
  exact ⟨kind, y.after [ch], takes_advanceOver_cons.bind takes, by rw [← Cut.after_append, joined]⟩

theorem completes_advanceOver_of_not (next : r.head? ≠ some ch) (h : (f false).Completes t r x) :
    (advanceOver ch >>= f).Completes t r x := by
  obtain ⟨kind, y, takes, joined⟩ := h
  refine ⟨kind, y, takes_advanceIf_bind_of_not ?_ takes, joined⟩
  cases r <;> simp_all

theorem completes_ifText (line : '\n' ∉ w) (h : found.Completes (t ++ w) r x) :
    (ifText w found other).Completes t (w ++ r) x := by
  obtain ⟨kind, y, takes, joined⟩ := h
  refine ⟨kind, y.after w, takes_hasText_bind w (takes_then ?_ ?_), ?_⟩
  · exact List.isPrefixOf_iff_prefix.mpr (List.prefix_append w r)
  · exact (takes_sameLine line).bind takes
  · rw [← Cut.after_append, joined]

theorem completes_ifText_of_not (next : ¬ w <+: r) (h : other.Completes t r x) :
    (ifText w found other).Completes t r x := by
  obtain ⟨kind, y, takes, joined⟩ := h
  exact ⟨kind, y, takes_hasText_bind w (takes_else (by simpa using next) takes), joined⟩

theorem completes_tilde (r : List Char) :
    tilde.Completes ['~'] r ((Lexeme.marked? ('~' :: r)).getD (Lexeme.mark '~' r)) := by
  by_cases next : r.head? = some '/'
  · obtain ⟨r, rfl⟩ := List.head?_eq_some_iff.mp next
    exact completes_advanceOver (completes_regularExpression r)
  · have none : Lexeme.marked? ('~' :: r) = none := by
      unfold Lexeme.marked?
      split <;> simp_all
    rw [none]
    exact completes_advanceOver_of_not next (munches_tildeMark.completes r)

theorem completes_slash (r : List Char) :
    slash.Completes ['/'] r ((Lexeme.marked? ('/' :: r)).getD (Lexeme.mark '/' r)) := by
  by_cases line : r.head? = some '/'
  · obtain ⟨r, rfl⟩ := List.head?_eq_some_iff.mp line
    exact completes_advanceOver (completes_lineComment r)
  by_cases block : r.head? = some '*'
  · obtain ⟨r, rfl⟩ := List.head?_eq_some_iff.mp block
    exact completes_advanceOver_of_not line (completes_advanceOver (completes_blockComment r))
  · have none : Lexeme.marked? ('/' :: r) = none := by
      unfold Lexeme.marked?
      split <;> simp_all
    have munches : (eitherMark '=' .slashEquals .slash).Munches ['/'] [] :=
      munches_eitherMark (by decide)
    rw [none]
    exact completes_advanceOver_of_not line
      (completes_advanceOver_of_not block (munches.completes r))

theorem completes_openCurly (r : List Char) :
    openCurly.Completes ['{'] r ((Lexeme.marked? ('{' :: r)).getD (Lexeme.mark '{' r)) := by
  by_cases next : ['{', '{'] <+: r
  · obtain ⟨r, rfl⟩ := next
    exact completes_ifText (by decide) (completes_template r)
  · have none : Lexeme.marked? ('{' :: r) = none := by
      unfold Lexeme.marked?
      split <;> simp_all
    have munches : (mark .openCurly).Munches ['{'] [] := munches_mark (by decide)
    rw [none]
    exact completes_ifText_of_not next (munches.completes r)

theorem mark_of_not_head {c : Char} (h : ∀ m ∈ Mark.all, m.spelling.head? ≠ some c)
    (r : List Char) : Lexeme.mark c r = ⟨.fault .unexpectedCharacter, [c], r⟩ := by
  rw [Lexeme.mark, Mark.longest?_eq_none h]

theorem mark_dollar (r : List Char) : Lexeme.mark '$' r = ⟨.mark .dollar, ['$'], r⟩ := by
  have longest : Mark.longest? ('$' :: r) = some .dollar :=
    Mark.longest?_append_of_extensions (m := .dollar) (fun _ mem => nomatch mem)
  rw [Lexeme.mark, longest]
  rfl

/-- The first characters of the marks. -/
def markHeads : List Char := [
  '(', ')', '[', ']', '{', '}', '%', ',', ';', '.', '-', ':', '=', '<', '>', '~', '&', '*', '^',
  '+', '/', '?', '@', '|', '$']

theorem head_mem_markHeads : ∀ m ∈ Mark.all, ∀ c ∈ m.spelling.head?, c ∈ markHeads := by
  have table : (Mark.all.all fun m => m.spelling.head?.all (markHeads.contains ·)) = true := by
    decide +kernel
  intro m mem c head
  have listed := List.all_eq_true.mp table m mem
  rw [Option.mem_def.mp head] at listed
  exact List.contains_iff_mem.mp listed

/-- The lexeme of a character that begins no word, number or text. -/
def symbolLexeme (ch : Char) (r : List Char) : Lexeme :=
  (Lexeme.marked? (ch :: r)).getD (Lexeme.mark ch r)

theorem Munches.completes_symbol {p : Scan TokenKind} (h : p.Munches [ch] [])
    (unmarked : ∀ r, Lexeme.marked? (ch :: r) = none) (r : List Char) :
    p.Completes [ch] r (symbolLexeme ch r) := by
  rw [symbolLexeme, unmarked]
  exact h.completes r

theorem completes_of_mem_branchings (r : List Char) :
    ∀ o ∈ branchings, o.2.Completes [o.1] r (symbolLexeme o.1 r) := by
  have dollar : dateTime.Completes ['$'] r (symbolLexeme '$' r) := by
    rw [symbolLexeme, mark_dollar]
    exact completes_dateTime r
  have hash : hashTag.Completes ['#'] r (symbolLexeme '#' r) := by
    rw [symbolLexeme, mark_of_not_head (by decide)]
    exact completes_hashTag r
  simp only [branchings, List.forall_mem_cons]
  exact ⟨completes_code r, dollar, hash, completes_tilde r, munches_dot.completes r,
    munches_dash.completes r, munches_colon.completes r, munches_equals.completes r,
    munches_less.completes r, completes_slash r, munches_percent.completes r,
    munches_openBracket.completes r, completes_openCurly r, fun _ mem => nomatch mem⟩

/-- The characters that begin a lexeme with a form of its own. -/
def formHeads : List Char := ['\x60', '{', '~', '/', '#', '$']

theorem marked?_eq_none (h : ch ∉ formHeads) (r : List Char) :
    Lexeme.marked? (ch :: r) = none := by
  unfold Lexeme.marked?
  split <;> simp_all [formHeads]

theorem munches_of_mem_choices :
    ∀ o ∈ choices, (eitherMark o.2.1 o.2.2.1 o.2.2.2).Munches [o.1] [] ∧ o.1 ∉ formHeads := by
  have tells : ∀ o ∈ choices, ([o.1] = o.2.2.2.spelling ∧ [o.1] ++ [o.2.1] = o.2.2.1.spelling ∧
      o.2.2.1.extensions = [] ∧ ∀ e ∈ o.2.2.2.extensions, ∃ w ∈ [[o.2.1]], w <+: e) ∧
      o.1 ∉ formHeads := by decide +kernel
  exact fun o mem => ⟨munches_eitherMark (tells o mem).1, (tells o mem).2⟩

theorem munches_of_mem_singles : ∀ o ∈ singles, (mark o.2).Munches [o.1] [] ∧ o.1 ∉ formHeads := by
  have stands : ∀ o ∈ singles, [o.1] = o.2.spelling ∧ o.2.extensions = [] ∧ o.1 ∉ formHeads := by
    decide +kernel
  intro o mem
  obtain ⟨spelled, ends, unmarked⟩ := stands o mem
  rw [spelled]
  exact ⟨munches_mark (by simp [ends]), unmarked⟩

theorem completes_of_mem_symbols (r : List Char) :
    ∀ o ∈ symbols, o.2.Completes [o.1] r (symbolLexeme o.1 r) := by
  have munched {c : Char} {p : Scan TokenKind} (h : p.Munches [c] [] ∧ c ∉ formHeads) :
      p.Completes [c] r (symbolLexeme c r) := h.1.completes_symbol (marked?_eq_none h.2) r
  simp only [symbols, List.forall_mem_append, List.forall_mem_map]
  exact ⟨⟨completes_of_mem_branchings r, fun o mem => munched (munches_of_mem_choices o mem)⟩,
    fun o mem => munched (munches_of_mem_singles o mem)⟩

theorem completes_symbol (ch : Char) (r : List Char) :
    (symbol ch).Completes [ch] r (symbolLexeme ch r) := by
  unfold symbol
  cases found : symbols.lookup ch with
  | some p =>
    obtain ⟨before, behind, split, -⟩ := List.lookup_eq_some_iff.mp found
    have mem : (ch, p) ∈ symbols := by simp [split]
    exact completes_of_mem_symbols r _ mem
  | none =>
    have table : ((markHeads ++ formHeads).all ((symbols.map Prod.fst).contains ·)) = true := by
      decide +kernel
    have listed (c : Char) (mem : c ∈ markHeads ++ formHeads) : c ∈ symbols.map Prod.fst :=
      List.contains_iff_mem.mp (List.all_eq_true.mp table c mem)
    have apart : ch ∉ symbols.map Prod.fst := by
      intro mem
      obtain ⟨o, among, same⟩ := List.mem_map.mp mem
      have other := List.lookup_eq_none_iff.mp found o among
      simp [same] at other
    have head : ∀ m ∈ Mark.all, m.spelling.head? ≠ some ch := fun m mem spelled =>
      apart (listed ch (List.mem_append_left _ (head_mem_markHeads m mem ch spelled)))
    have form : ch ∉ formHeads := fun mem => apart (listed ch (List.mem_append_right _ mem))
    rw [symbolLexeme, marked?_eq_none form, Option.getD_none, mark_of_not_head head]
    exact ⟨_, _, takes_pure _, rfl⟩

theorem completes_blanks {c : Char} (h : isBlank c = true) (r : List Char) :
    blanks.Completes [c] r (Lexeme.blanks (c :: r)) := by
  refine ⟨_, _, (takes_advanceWhile isBlank r).bind_pure rfl, ?_⟩
  rw [Lexeme.blanks, Cut.run_cons h]

theorem completes_lexemeFrom (ch : Char) (r : List Char) :
    (lexemeFrom ch).Completes [ch] r (Lexeme.read (ch :: r)) := by
  unfold lexemeFrom
  rw [Lexeme.read]
  by_cases blank : isBlank ch = true
  · rw [if_pos blank, if_pos blank]
    exact completes_blanks blank r
  rw [if_neg blank, if_neg blank]
  by_cases letter : Unicode.isAlphabetic ch = true
  · have word : (Unicode.isAlphabetic ch || ch == '_') = true := by rw [letter, Bool.true_or]
    rw [if_pos letter, if_pos word]
    exact completes_identifierOrKeyword letter r
  rw [if_neg letter]
  by_cases score : (ch == '_') = true
  · obtain rfl : ch = '_' := by simpa using score
    exact completes_underscore r
  have noWord : ¬ (Unicode.isAlphabetic ch || ch == '_') = true := by
    rw [Bool.or_eq_true]
    exact not_or.mpr ⟨letter, score⟩
  rw [if_neg score, if_neg noWord]
  by_cases digit : ch.isDigit = true
  · rw [if_pos digit, if_pos digit]
    exact completes_number digit r
  rw [if_neg digit, if_neg digit]
  by_cases quote : (ch == '"' || ch == '\'') = true
  · rw [if_pos quote, if_pos quote]
    refine completes_text ?_ r
    rintro rfl
    exact absurd blank (by decide)
  · rw [if_neg quote, if_neg quote]
    exact completes_symbol ch r

end Completes

/-- Behind an empty pending span a scan takes the next lexeme of the text and comes to its
kind. -/
theorem takes_lexeme (s : List Char) :
    lexeme.Takes [] s (Lexeme.read s).kind ⟨(Lexeme.read s).text, (Lexeme.read s).rest⟩ := by
  cases s with
  | nil => exact takes_char_nil.bind_still (takes_pure _)
  | cons ch r =>
    obtain ⟨kind, y, takes, joined⟩ := completes_lexemeFrom ch r
    rw [← joined]
    exact takes_char_cons.bind takes

theorem lexeme_eq {c : Cursor} (fresh : c.span = []) :
    lexeme c = some ((Lexeme.read c.rest).kind, c.skip (Lexeme.read c.rest).text.length) :=
  (takes_lexeme c.rest).eq c fresh rfl

end Scan

end TagLang
