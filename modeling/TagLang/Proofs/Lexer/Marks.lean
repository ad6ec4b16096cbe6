import TagLang.Proofs.Lexer.Reading

/-!
# The marks of a source

The longest mark that begins a text is unique, since marks of one length that begin the same
text are spelled alike. It is the next token of a lexer in front of the text, unless the
text goes on behind the first character of the mark as a comment, a regular expression, a
template or a date does.
-/

namespace TagLang

namespace Mark

/-- The mark begins the text, and no longer mark does. -/
structure Longest (m : Mark) (s : List Char) : Prop where
  begins : m.Begins s
  longest : ∀ n : Mark, n.Begins s → n.spelling.length ≤ m.spelling.length

variable {m n : Mark} {s : List Char} {c : Char} {r : List Char}

theorem Longest.unique (hm : m.Longest s) (hn : n.Longest s) : m = n := by
  have short : m.spelling <+: n.spelling :=
    List.prefix_of_prefix_length_le hm.begins hn.begins (hn.longest m hm.begins)
  exact eq_of_spelling_eq (short.eq_of_length_le (hm.longest n hn.begins))

theorem longest?_eq_some_iff : longest? s = some m ↔ m.Longest s := by
  have found {k : Mark} (h : longest? s = some k) : k.Longest s := by
    refine ⟨begins_of_longest? h, fun n begins => ?_⟩
    obtain ⟨k', same, le⟩ := exists_longest? begins
    cases h.symm.trans same
    exact le
  refine ⟨found, fun longest => ?_⟩
  obtain ⟨k, here, -⟩ := exists_longest? longest.begins
  rw [here, (found here).unique longest]

/-- The characters that a mark may begin with are in no other family of lexemes, but for the
marks that open one. -/
def isFirst (c : Char) : Bool :=
  !isBlank c && !(Unicode.isAlphabetic c || c == '_') && !c.isDigit && !(c == '"' || c == '\'') &&
    c != '\x60' && c != '#'

theorem isFirst_of_begins (begins : m.Begins (c :: r)) : isFirst c = true := by
  have firsts : ∀ m ∈ all, m.spelling.head?.all isFirst = true := by decide
  have first := firsts m (mem_all m)
  cases spelled : m.spelling with
  | nil => exact absurd spelled m.spelling_ne_nil
  | cons d w =>
    rw [Begins, spelled, List.cons_prefix_cons] at begins
    rw [spelled] at first
    exact begins.1 ▸ first

end Mark

namespace Lexeme

/-- The text begins with a mark, and what follows makes it open a comment, a regular
expression, a template, a date or a time. -/
inductive Opens : List Char → Prop
  | lineComment (s : List Char) : Opens ('/' :: '/' :: s)
  | blockComment (s : List Char) : Opens ('/' :: '*' :: s)
  | regularExpression (s : List Char) : Opens ('~' :: '/' :: s)
  | template (s : List Char) : Opens ('{' :: '{' :: '{' :: s)
  | date {d : Char} (digit : d.isDigit = true) (s : List Char) : Opens ('$' :: d :: s)
  | time {d : Char} (digit : d.isDigit = true) (s : List Char) : Opens ('$' :: 'T' :: d :: s)

variable {m : Mark} {c : Char} {r s : List Char}

theorem dateTime?_eq_none (plain : ¬ Opens ('$' :: s)) : dateTime? s = none := by
  refine if_neg fun next => plain ?_
  rcases Bool.or_eq_true_iff.mp next with digit | time
  · match s with
    | d :: s => exact .date digit s
  · unfold timeNext at time
    split at time
    · rename_i r
      match r with
      | d :: r => exact .time time r
    · cases time

theorem marked?_eq_none (begins : m.Begins s) (plain : ¬ Opens s) : marked? s = none := by
  unfold marked?
  split
  · exact absurd (Mark.isFirst_of_begins begins) (by decide)
  · exact absurd (.template _) plain
  · exact absurd (.regularExpression _) plain
  · exact absurd (.lineComment _) plain
  · exact absurd (.blockComment _) plain
  · exact absurd (Mark.isFirst_of_begins begins) (by decide)
  · exact dateTime?_eq_none plain
  · rfl

/-- Where a mark begins the text and opens nothing else, the longest mark is read. -/
theorem exists_read_eq_mark (begins : m.Begins s) (plain : ¬ Opens s) :
    ∃ n : Mark, n.Longest s ∧ read s = ⟨.mark n, n.spelling, s.drop n.spelling.length⟩ := by
  cases s with
  | nil => exact absurd (List.prefix_nil.mp begins) m.spelling_ne_nil
  | cons c r =>
    have first := Mark.isFirst_of_begins begins
    obtain ⟨n, found, -⟩ := Mark.exists_longest? begins
    refine ⟨n, Mark.longest?_eq_some_iff.mp found, ?_⟩
    have none := marked?_eq_none begins plain
    simp only [Mark.isFirst, Bool.and_eq_true, Bool.not_eq_true'] at first
    obtain ⟨⟨⟨⟨⟨blank, letter⟩, digit⟩, quote⟩, -⟩, -⟩ := first
    rw [read, blank, letter, digit, quote, none, Option.getD_none, mark, found]
    rfl

end Lexeme

namespace Lexer

/-- In front of a text that a mark begins, the next token is the longest mark that begins it,
unless the text opens a comment, a regular expression, a template, a date or a time. -/
theorem read_longest_mark (l : Lexer) (m : Mark) (begins : m.Begins l.cursor.rest)
    (plain : ¬ Lexeme.Opens l.cursor.rest) :
    ∃ n : Mark, n.Longest l.cursor.rest ∧ l.read.1.kind = .mark n ∧
      l.read.1.text.toList = n.spelling ∧
      n.spelling ++ l.read.2.cursor.rest = l.cursor.rest := by
  obtain ⟨n, longest, lexeme⟩ := Lexeme.exists_read_eq_mark begins plain
  have reads : ReadsLexeme l.read l.cursor.rest :=
    readsLexeme_of_not_isTrivia (by rw [lexeme]; rfl)
  have text : l.read.1.text.toList = n.spelling := by
    rw [reads.text, lexeme]
  refine ⟨n, longest, ?_, text, ?_⟩
  · rw [reads.kind, lexeme]
  · rw [← text, reads.text_append_rest]

/-- Two dashes and a bracket are no arrow unless a second bracket closes them. -/
theorem read_longest_mark_dash :
    Mark.dash.Begins "--<x".toList ∧ ¬ Lexeme.Opens "--<x".toList ∧
      ∃ n : Mark, n.Longest "--<x".toList ∧
        (ofSource "--<x" none .standard).read.1.kind = .mark n ∧
        (ofSource "--<x" none .standard).read.1.text.toList = n.spelling ∧
        n.spelling ++ (ofSource "--<x" none .standard).read.2.cursor.rest = "--<x".toList := by
  have plain : ¬ Lexeme.Opens "--<x".toList := nofun
  exact ⟨by decide, plain,
    read_longest_mark (ofSource "--<x" none .standard) .dash (by decide) plain⟩

end Lexer

end TagLang
