import TagLang.Proofs.Lexeme.Origin
import TagLang.Proofs.Lexer.Reading
import TagLang.Proofs.Literal.Version

/-!
# The version literals of a source

What is recognized as a version is written as one, with labels that are made as words are.
Letters of any script may stand in a word, but a version is read from ASCII only: a label in
another script is recognized, and the literal has no parts then.
-/

namespace TagLang

namespace Lexeme

open Version (IsRun isPartChar)

variable {introducer d : Char} {r s : List Char}

theorem isRun_run (p : Char → Bool) (first : p d = true) : IsRun p (Cut.run p (d :: r)).text := by
  refine ⟨?_, Cut.all_run p (d :: r)⟩
  rw [Cut.run, List.takeWhile_cons, if_pos first]
  exact List.cons_ne_nil _ _

theorem exists_text_dotDigits? {x : Cut} (h : dotDigits? s = some x) :
    ∃ w, IsRun isPartChar w ∧ x.text = '.' :: w := by
  unfold dotDigits? at h
  split at h
  · split at h
    · rename_i digit
      cases h
      exact ⟨_, isRun_run isDigitOrUnderscore (isDigitOrUnderscore_of_isDigit digit), rfl⟩
    · cases h
  · cases h

theorem exists_text_label (introducer : Char) (s : List Char) :
    ∃ l : Option String, (label introducer s).text = Version.labelled introducer l ∧
      ∀ w ∈ l, IsRun isWordBody w.toList := by
  have absent : ∃ l : Option String, [] = Version.labelled introducer l ∧
      ∀ w ∈ l, IsRun isWordBody w.toList :=
    ⟨none, rfl, fun _ mem => nomatch mem⟩
  have present {w : List Char} (run : IsRun isWordBody w) :
      ∃ l : Option String, introducer :: w = Version.labelled introducer l ∧
        ∀ w ∈ l, IsRun isWordBody w.toList :=
    ⟨some (String.ofList w), by simp [Version.labelled], by simpa using run⟩
  unfold label
  split
  · rename_i i c r
    split
    · rename_i here
      obtain rfl : i = introducer := by simpa using here
      split
      · rename_i letter
        exact present (isRun_run isWordBody (isWordBody_of_isAlphabetic letter))
      · split
        · rename_i digit
          exact present ((isRun_run Char.isDigit digit).imp fun _ _ => Unicode.isWordBody_of_isDigit)
        · exact absent
    · exact absent
  · exact absent

theorem exists_version_of_decimal (digit : d.isDigit = true)
    (h : (decimal (d :: r)).kind = .literal .version) :
    ∃ v : Version, v.Fits isWordBody ∧ (decimal (d :: r)).text = v.written := by
  have major : IsRun isPartChar (Cut.run isDigitOrUnderscore (d :: r)).text :=
    isRun_run isDigitOrUnderscore (isDigitOrUnderscore_of_isDigit digit)
  unfold decimal at h ⊢
  generalize Cut.run isDigitOrUnderscore (d :: r) = whole at h major ⊢
  cases second : dotDigits? whole.rest with
  | none =>
    cases power : exponent? whole.rest <;> simp [second, power, ofCut] at h
  | some minor =>
    cases third : dotDigits? minor.rest with
    | none => simp [second, third, ofCut] at h
    | some patch =>
      obtain ⟨b, minorRun, minorText⟩ := exists_text_dotDigits? second
      obtain ⟨c, patchRun, patchText⟩ := exists_text_dotDigits? third
      obtain ⟨prerelease, dash, prereleaseRun⟩ := exists_text_label '-' patch.rest
      obtain ⟨build, plus, buildRun⟩ := exists_text_label '+' (label '-' patch.rest).rest
      let v : Version :=
        ⟨String.ofList whole.text, String.ofList b, String.ofList c, prerelease, build⟩
      have fits : v.Fits isWordBody :=
        ⟨by simpa [v] using major, by simpa [v] using minorRun, by simpa [v] using patchRun,
          prereleaseRun, buildRun⟩
      refine ⟨v, fits, ?_⟩
      simp only [second, third, ofCut, Cut.andThen, Cut.text_after, Cut.rest_after, minorText,
        patchText, dash, plus, Version.written, Version.labels, v, String.toList_ofList,
        List.cons_append, List.append_assoc]

/-- What is recognized as a version is written as one. -/
theorem exists_version_of_read (h : (read s).kind = .literal .version) :
    ∃ v : Version, v.Fits isWordBody ∧ (read s).text = v.written := by
  obtain ⟨d, r, rfl, digit, here⟩ := read_eq_number h rfl
  rw [here, number] at h ⊢
  cases radix : radixInteger? (d :: r) with
  | some x =>
    rw [radix] at h
    rcases kind_of_radixInteger? radix with binary | hex
    · cases binary.symm.trans h
    · cases hex.symm.trans h
  | none =>
    rw [radix] at h
    exact exists_version_of_decimal digit h

end Lexeme

namespace Lexer

/-- Every version literal of a source is written as a version with labels that are made as
words are. Its parts are those that it is written with if it is all ASCII, and otherwise it
has none. -/
theorem version?_of_mem_readAll (source : String) (file : Option String) (options : LexerOptions)
    (t : Token) (mem : t ∈ (ofSource source file options).readAll.1)
    (kind : t.kind = .literal .version) :
    ∃ v : Version, v.Fits isWordBody ∧ t.text.toList = v.written ∧
      (Literal.mk .version t).version? =
        if t.text.toList.all Unicode.isAscii = true then some v else none := by
  obtain ⟨s, sameKind, sameText⟩ := exists_read_of_mem_readAll mem
  obtain ⟨v, fits, text⟩ := Lexeme.exists_version_of_read (sameKind.symm.trans kind)
  have text := sameText.trans text
  refine ⟨v, fits, text, ?_⟩
  rw [Literal.version?, if_pos rfl, text]
  exact Version.ofText?_written_of_isWordBody fits

/-- A version with both labels. -/
theorem version?_of_mem_readAll_labels :
    ∃ v : Version, v.Fits isWordBody ∧ "1.2_0.3-rc_1+5".toList = v.written ∧
      (Literal.mk .version ⟨.literal .version, "1.2_0.3-rc_1+5", ⟨"shell", 1, 1⟩⟩).version? =
        if "1.2_0.3-rc_1+5".toList.all Unicode.isAscii = true then some v else none :=
  version?_of_mem_readAll "1.2_0.3-rc_1+5" none .standard
    ⟨.literal .version, "1.2_0.3-rc_1+5", ⟨"shell", 1, 1⟩⟩ (by decide +kernel) rfl

/-- A label with an accent makes a version literal without parts. -/
theorem version?_accent :
    ∃ t ∈ (ofSource "1.2.3-é" none .standard).readAll.1,
      t.kind = .literal .version ∧ (Literal.mk .version t).version? = none :=
  ⟨⟨.literal .version, "1.2.3-é", ⟨"shell", 1, 1⟩⟩, by decide +kernel, rfl, by decide +kernel⟩

end Lexer

end TagLang
