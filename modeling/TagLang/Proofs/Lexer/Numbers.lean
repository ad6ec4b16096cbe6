import TagLang.Proofs.Lexer.Reading
import TagLang.Proofs.Literal.Integer

/-!
# The numbers of a source

In front of a digit a lexer reads a number or a version, and never a fault. Where words of
several forms begin the text, it reads the longest of them. The integers that it reads have
the values of their digits.
-/

namespace TagLang

namespace Lexer

/-- In front of a digit, the next token is the longest word of the grammar of numbers and
versions that begins the text, and a literal of the form of this word. -/
theorem read_longest_numeral (l : Lexer) (d : Char) (r : List Char)
    (here : l.cursor.rest = d :: r) (digit : d.isDigit = true) :
    ∃ form, l.read.1.kind = .literal form ∧
      Lexeme.Longest LiteralForm.numerals (d :: r) form l.read.1.text.toList ∧
      l.read.1.text.toList ++ l.read.2.cursor.rest = d :: r := by
  obtain ⟨form, kind, longest⟩ := Lexeme.reads_number digit r
  have lexeme : Lexeme.read l.cursor.rest = Lexeme.number (d :: r) := by
    rw [here, Lexeme.read_of_isDigit digit]
  have reads : ReadsLexeme l.read l.cursor.rest :=
    readsLexeme_of_not_isTrivia (by rw [lexeme, kind]; rfl)
  have whole := reads.text_append_rest
  rw [here] at whole
  refine ⟨form, ?_, ?_, whole⟩
  · rw [reads.kind, lexeme, kind]
  · rw [reads.text, lexeme]
    exact longest

/-- A range of integers is no number, and a failed exponent ends in front of its letter. -/
theorem read_longest_numeral_range :
    ∃ form, (ofSource "1..5e+" none .standard).read.1.kind = .literal form ∧
      Lexeme.Longest LiteralForm.numerals "1..5e+".toList form
        (ofSource "1..5e+" none .standard).read.1.text.toList ∧
      (ofSource "1..5e+" none .standard).read.1.text.toList ++
        (ofSource "1..5e+" none .standard).read.2.cursor.rest = "1..5e+".toList :=
  read_longest_numeral (ofSource "1..5e+" none .standard) '1' "..5e+".toList (by decide) (by decide)

/-- Every integer of a source is written with a mark of its base, digits and suffixes. It has
the positional value of the digits, whatever underscores stand among them, and it has none if
that does not fit into sixty-four bits. -/
theorem integer?_of_mem_readAll (source : String) (file : Option String) (options : LexerOptions)
    (b : Base) (t : Token) (mem : t ∈ (ofSource source file options).readAll.1)
    (kind : t.kind = .literal b.literal) :
    ∃ m ∈ b.marks, ∃ ds ∈ b.groups, ∃ x ∈ b.suffixes, t.text.toList = m ++ ds ++ x ∧
      Text.dropBytes? b.markSize (Literal.mk (.ofForm b.literal) t).ungrouped =
        some (Base.plain ds ++ x) ∧
      (Literal.mk (.ofForm b.literal) t).integer? =
        if Text.value b.radix (Base.plain ds) < 2 ^ 64 then
          some (Text.value b.radix (Base.plain ds)) else none := by
  obtain ⟨s, sameKind, sameText⟩ := exists_read_of_mem_readAll mem
  have origin : b.literal.origin = .number := by cases b <;> rfl
  have word := Lexeme.mem_numerals_of_read (sameKind.symm.trans kind) origin
  rw [← sameText] at word
  obtain ⟨m, hm, ds, hds, x, hx, text⟩ := Base.exists_of_mem_numerals word
  refine ⟨m, hm, ds, hds, x, hx, text, ?_, Base.integer?_eq hm hds hx text⟩
  rw [Base.ungrouped_eq hm hx text, List.append_assoc, Base.dropBytes?_marks hm]

/-- The largest integer, with leading zeros. -/
theorem integer?_of_mem_readAll_largest :
    ∃ m ∈ Base.hex.marks, ∃ ds ∈ Base.hex.groups, ∃ x ∈ Base.hex.suffixes,
      "0X00_ffff_FFFF_ffff_FFFF_".toList = m ++ ds ++ x ∧
      Text.dropBytes? 2 (Literal.mk .hexInteger
        ⟨.literal .hexInteger, "0X00_ffff_FFFF_ffff_FFFF_", ⟨"shell", 1, 1⟩⟩).ungrouped =
          some (Base.plain ds ++ x) ∧
      (Literal.mk .hexInteger
        ⟨.literal .hexInteger, "0X00_ffff_FFFF_ffff_FFFF_", ⟨"shell", 1, 1⟩⟩).integer? =
          if Text.value 16 (Base.plain ds) < 2 ^ 64 then some (Text.value 16 (Base.plain ds))
          else none :=
  integer?_of_mem_readAll "0X00_ffff_FFFF_ffff_FFFF_" none .standard .hex
    ⟨.literal .hexInteger, "0X00_ffff_FFFF_ffff_FFFF_", ⟨"shell", 1, 1⟩⟩ (by decide +kernel) rfl

end Lexer

end TagLang
