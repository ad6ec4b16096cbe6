import Mathlib.Data.List.Infix
import TagLang.Proofs.Lexeme.Enclosed
import TagLang.Proofs.Lexer.Reading
import TagLang.Proofs.Literal.Text

/-!
# The text literals of a source

Recognizing a text literal and decoding it are two readings of one grammar. A content
between its delimiters is one token wherever it stands, and the token stands for what the
content means. The other way around a token of text is written with items of the grammar,
but one escape of the grammar has no meaning: the code of a surrogate is recognized in four
digits and is not decoded, although it is kept as it is written between braces.
-/

namespace TagLang

namespace Lexer

/-- Every text literal of a source is written with items of the grammar between its
delimiters, and it has a value if and only if none of its escapes of four digits is the code
of a surrogate. The value is what the items mean. -/
theorem text?_of_mem_readAll (source : String) (file : Option String) (options : LexerOptions)
    (f : TextForm) (t : Token) (mem : t ∈ (ofSource source file options).readAll.1)
    (kind : t.kind = .literal f.literal) :
    ∃ items, (∀ i ∈ items, TextItem.Fits f i) ∧
      t.text.toList = f.delimiter ++ TextItem.written items ++ f.delimiter ∧
      ((Literal.mk (.ofForm f.literal) t).text?.isSome = true ↔ ∀ i ∈ items, i.Scalar) ∧
      ∀ value, (Literal.mk (.ofForm f.literal) t).text? = some value →
        value = String.ofList (items.flatMap TextItem.meaning) := by
  obtain ⟨s, sameKind, sameText⟩ := exists_read_of_mem_readAll mem
  obtain ⟨items, fits, text⟩ := Lexeme.exists_items_of_read (sameKind.symm.trans kind)
  have text := sameText.trans text
  have decoded := Literal.text?_written fits text
  refine ⟨items, fits, text, ?_, ?_⟩
  · rw [decoded]
    split <;> simp_all
  · intro value known
    rw [decoded] at known
    split at known
    · exact (Option.some.inj known).symm
    · cases known

/-- A literal with two escapes, one of which is kept as it is written. -/
theorem text?_of_mem_readAll_named :
    ∃ items, (∀ i ∈ items, TextItem.Fits ⟨.single, false⟩ i) ∧
      "'\\u0041\\u\x7bzz\x7d'".toList = ['\''] ++ TextItem.written items ++ ['\''] ∧
      ((Literal.mk .text
          ⟨.literal .singleQuoted, "'\\u0041\\u\x7bzz\x7d'", ⟨"shell", 1, 1⟩⟩).text?.isSome = true ↔
        ∀ i ∈ items, i.Scalar) ∧
      ∀ value, (Literal.mk .text
          ⟨.literal .singleQuoted, "'\\u0041\\u\x7bzz\x7d'", ⟨"shell", 1, 1⟩⟩).text? = some value →
        value = String.ofList (items.flatMap TextItem.meaning) :=
  text?_of_mem_readAll "'\\u0041\\u\x7bzz\x7d'" none .standard ⟨.single, false⟩
    ⟨.literal .singleQuoted, "'\\u0041\\u\x7bzz\x7d'", ⟨"shell", 1, 1⟩⟩ (by decide +kernel) rfl

/-- The code of a surrogate makes a text literal without a value. -/
theorem text?_surrogate :
    ∃ t ∈ (ofSource "\"\\uD800\"" none .standard).readAll.1,
      t.kind = .literal .doubleQuoted ∧ (Literal.mk .text t).text? = none := by
  have fits : ∀ i ∈ [TextItem.coded ['D', '8', '0', '0']], i.Fits ⟨.double, false⟩ :=
    List.forall_mem_singleton.mpr ⟨rfl, by decide⟩
  refine ⟨⟨.literal .doubleQuoted, "\"\\uD800\"", ⟨"shell", 1, 1⟩⟩, by decide +kernel, rfl, ?_⟩
  refine (Literal.text?_written fits (by decide)).trans (if_neg ?_)
  decide

/-- A content between its delimiters is read as one text literal, whatever follows it, and
the literal stands for what the content means. Two quotes alone are an empty literal unless
a third one follows. -/
theorem read_content (l : Lexer) (f : TextForm) (items : List TextItem) (s : List Char)
    (content : f.Content items) (scalar : ∀ i ∈ items, i.Scalar)
    (here : l.cursor.rest = f.delimiter ++ TextItem.written items ++ f.delimiter ++ s)
    (apart : f.multiline = false → items = [] → f.quote.char ∉ s.head?) :
    l.read.1.kind = .literal f.literal ∧
      l.read.1.text.toList = f.delimiter ++ TextItem.written items ++ f.delimiter ∧
      l.read.2.cursor.rest = s ∧
      (Literal.mk (.ofForm f.literal) l.read.1).text? =
        some (String.ofList (items.flatMap TextItem.meaning)) := by
  have lexeme := Lexeme.read_written content apart
  rw [← here] at lexeme
  have reads : ReadsLexeme l.read l.cursor.rest :=
    readsLexeme_of_not_isTrivia (by rw [lexeme]; rfl)
  have text : l.read.1.text.toList = f.delimiter ++ TextItem.written items ++ f.delimiter := by
    rw [reads.text, lexeme]
  refine ⟨?_, text, ?_, ?_⟩
  · rw [reads.kind, lexeme]
  · rw [reads.rest, lexeme]
  · rw [Literal.text?_written content.fits text, if_pos scalar]

/-- All sorts of items in single quotes, and quotes and a line feed between three of them. -/
theorem read_content_mixed :
    (Literal.mk .text
        (ofSource "'\"\\n\\u00e9\\u\x7b1F600\x7d\\u\x7bzz\x7d\\'' + x" none .standard).read.1).text? =
        some "\"\né😀\\u\x7bzz\x7d'" ∧
      (Literal.mk .multilineText
        (ofSource "'''a''\n\\u\x7b41\x7d''''" none .standard).read.1).text? = some "a''\nA" := by
  constructor
  · have reads := read_content
      (ofSource "'\"\\n\\u00e9\\u\x7b1F600\x7d\\u\x7bzz\x7d\\'' + x" none .standard) ⟨.single, false⟩
      [.plain '"', .simple .lineFeed, .coded ['0', '0', 'e', '9'], .named ['1', 'F', '6', '0', '0'],
        .named ['z', 'z'], .simple .singleQuote] " + x".toList
      ⟨by decide, fun triple => nomatch triple⟩ (by decide) (by decide) (by decide)
    exact reads.2.2.2.trans (by decide)
  · have reads := read_content (ofSource "'''a''\n\\u\x7b41\x7d''''" none .standard) ⟨.single, true⟩
      [.plain 'a', .plain '\'', .plain '\'', .plain '\n', .named ['4', '1']] ['\'']
      ⟨by decide, fun _ later suffix => by
        revert later
        simp only [← List.mem_tails]
        decide⟩ (by decide) (by decide) (by decide)
    exact reads.2.2.2.trans (by decide)

/-- A text literal that begins with one quote never leaves its line. It is proper if and only
if it is written with items of the grammar between two quotes, and unclosed if and only if
the line has no quote that closes it; then it takes the rest of the line. In all other cases
it ends with the quote that closes it, and an escape in it is faulty. -/
theorem read_on_line (l : Lexer) (q : TextQuote) (s : List Char)
    (here : l.read.1.text.toList ++ l.read.2.cursor.rest = q.char :: s)
    (single : ¬ [q.char, q.char] <+: s) :
    (∀ c ∈ l.read.1.text.toList, c ≠ '\n' ∧ c ≠ '\r') ∧
      (l.read.1.kind = .literal (TextForm.mk q false).literal ↔
        ∃ items, (∀ i ∈ items, TextItem.Fits ⟨q, false⟩ i) ∧
          l.read.1.text.toList = q.char :: (TextItem.written items ++ [q.char])) ∧
      (l.read.1.kind = .fault .unclosedText ↔ ¬ Reaches q.char s) ∧
      (l.read.1.kind = .fault .unclosedText →
        l.read.1.text.toList = q.char :: s.takeWhile inLine) ∧
      (l.read.1.kind ≠ .literal (TextForm.mk q false).literal →
        l.read.1.kind ≠ .fault .unclosedText →
        l.read.1.kind = .fault .invalidText ∧
          ∃ body, Inside q.char body ∧ l.read.1.text.toList = q.char :: (body ++ [q.char])) := by
  obtain ⟨t, reads⟩ := exists_readsLexeme l
  obtain rfl : t = q.char :: s := reads.text_append_rest.symm.trans here
  rw [reads.kind, reads.text]
  refine ⟨?_, ?_, ?_, ?_, ?_⟩
  · simpa [inLine] using Lexeme.inLine_read_char single
  · exact Lexeme.kind_read_char_eq_literal_iff single
  · exact Lexeme.kind_read_char_eq_unclosed_iff single
  · exact Lexeme.text_read_char_of_unclosed single
  · intro improper closed
    have faulty := ((Lexeme.kind_read_char_cases single).resolve_left improper).resolve_left closed
    exact ⟨faulty, Lexeme.exists_inside_of_read_char single closed⟩

/-- An escape that breaks off in front of the quote leaves the quote to close the literal. -/
theorem read_on_line_faulty :
    (ofSource " \"\\u\x7ba\" b" none .standard).read.1.kind = .fault .invalidText ∧
      ∃ body, Inside '"' body ∧
        (ofSource " \"\\u\x7ba\" b" none .standard).read.1.text.toList = '"' :: (body ++ ['"']) :=
  (read_on_line (ofSource " \"\\u\x7ba\" b" none .standard) .double "\\u\x7ba\" b".toList
    (by decide +kernel) (by decide)).2.2.2.2 (by decide +kernel) (by decide +kernel)

end Lexer

end TagLang
