import TagLang.Proofs.Lexeme.DateTime
import TagLang.Proofs.Lexer.Reading

/-!
# The dates and times of a source

The grammar of dates and times is known to the lexer and to the view of a literal, and the
two agree: what the lexer takes is a date and time as it is written, and this is what the
view gives.
-/

namespace TagLang

namespace Lexer

/-- Every date-time literal of a source is the text of a date and time, with the seconds or,
where they are zero and have no fraction, without them, and is read as this date and time.
The other way round, the text of a date and time is one literal, whatever follows it, and is
read as this date and time. -/
theorem dateTime?_written :
    (∀ (source : String) (file : Option String) (options : LexerOptions),
      ∀ t ∈ (ofSource source file options).readAll.1, t.kind = .literal .dateTime →
        ∃ (d : DateTime) (shown : Bool), d.Proper ∧ d.Admits shown ∧
          t.text.toList = d.written shown ∧ (Literal.mk .dateTime t).dateTime? = some d) ∧
    ∀ (l : Lexer) (d : DateTime) (shown : Bool) (rest : List Char), d.Proper → d.Admits shown →
      l.cursor.rest = d.written shown ++ rest →
        l.read.1.kind = .literal .dateTime ∧ l.read.1.text.toList = d.written shown ∧
          l.read.2.cursor.rest = rest ∧ (Literal.mk .dateTime l.read.1).dateTime? = some d := by
  have view {d : DateTime} {shown : Bool} (proper : d.Proper) (admits : d.Admits shown) {t : Token}
      (text : t.text.toList = d.written shown) : (Literal.mk .dateTime t).dateTime? = some d := by
    rw [Literal.dateTime?, if_pos rfl, text]
    exact DateTime.ofText?_written proper admits
  constructor
  · intro source file options t mem kind
    obtain ⟨s, sameKind, sameText⟩ := exists_read_of_mem_readAll mem
    obtain ⟨d, shown, proper, admits, text⟩ :=
      Lexeme.exists_of_read_dateTime (sameKind.symm.trans kind)
    have text := sameText.trans text
    exact ⟨d, shown, proper, admits, text, view proper admits text⟩
  · intro l d shown rest proper admits here
    have lexeme := Lexeme.read_dateTime proper shown rest
    rw [← here] at lexeme
    have reads : ReadsLexeme l.read l.cursor.rest :=
      readsLexeme_of_not_isTrivia (by rw [lexeme]; rfl)
    have text : l.read.1.text.toList = d.written shown := by
      rw [reads.text, lexeme]
    refine ⟨?_, text, ?_, view proper admits text⟩
    · rw [reads.kind, lexeme]
    · rw [reads.rest, lexeme]

/-- A literal with all fields in a source, and one without seconds in front of an operator. -/
theorem dateTime?_written_all_fields :
    (∃ (d : DateTime) (shown : Bool), d.Proper ∧ d.Admits shown ∧
      "$0999-12-31T23:59:07.250-01:30$".toList = d.written shown ∧
      (Literal.mk .dateTime ⟨.literal .dateTime, "$0999-12-31T23:59:07.250-01:30$",
        ⟨"shell", 1, 1⟩⟩).dateTime? = some d) ∧
    (ofSource "$T08:05Z$+$" none .standard).read.1.kind = .literal .dateTime ∧
    (ofSource "$T08:05Z$+$" none .standard).read.1.text.toList = "$T08:05Z$".toList ∧
    (ofSource "$T08:05Z$+$" none .standard).read.2.cursor.rest = "+$".toList ∧
    (Literal.mk .dateTime (ofSource "$T08:05Z$+$" none .standard).read.1).dateTime? =
      some ⟨none, some (8, 5, 0), none, some "Z"⟩ := by
  constructor
  · exact dateTime?_written.1 "$0999-12-31T23:59:07.250-01:30$" none .standard
      ⟨.literal .dateTime, "$0999-12-31T23:59:07.250-01:30$", ⟨"shell", 1, 1⟩⟩
      (by decide +kernel) rfl
  · have proper : DateTime.Proper ⟨none, some (8, 5, 0), none, some "Z"⟩ :=
      ⟨.inr rfl, by decide, by decide, fun _ => nofun,
        fun w mem => Option.mem_some_iff.mp mem ▸ .zero, nofun⟩
    exact dateTime?_written.2 (ofSource "$T08:05Z$+$" none .standard)
      ⟨none, some (8, 5, 0), none, some "Z"⟩ false "+$".toList proper
      (fun _ => ⟨rfl, by decide⟩) (by decide)

end Lexer

end TagLang
