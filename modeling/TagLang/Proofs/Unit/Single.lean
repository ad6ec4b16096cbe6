import TagLang.Proofs.Parser.Unread
import TagLang.Proofs.Unit.Soundness

/-!
# Units of one element among scripts

The parser of units takes one element and then expects the end of the source; the parser of
scripts looks for the end in front of every element. Both take the same uses and the same
first element, so what the one comes to follows from what the other comes to.
-/

namespace TagLang

open Parse Stream'

/-- What a unit is, and a script of the same source. Where the script fails, the unit fails
too, though maybe for another cause. -/
inductive Matches : Except SyntaxError CompilationUnit → Except SyntaxError CompilationUnit → Prop
  | failed {e e' : SyntaxError} : Matches (.error e) (.error e')
  | empty {us : List Use} {eof : Token} :
    Matches (.error ⟨.unrecognizedElement "", eof.position⟩) (.ok ⟨us, [], eof⟩)
  | single {us : List Use} {e : Element} {eof : Token} :
    Matches (.ok ⟨us, [e], eof⟩) (.ok ⟨us, [e], eof⟩)
  | more {us : List Use} {e e' : Element} {es : List Element} {eof : Token} :
    Matches (.error ⟨.unexpectedToken .eof none e'.first.kind e'.first.text, e'.first.position⟩)
      (.ok ⟨us, e :: e' :: es, eof⟩)

namespace Parse

variable {α : Type}

/-- The values of a loop stand behind those that were gathered before. -/
theorem ensures_gather_append (p : Parse (Option α)) (n : Nat) (gathered : List α)
    (s : Stream' Token) :
    (gather p n gathered).Ensures s fun all _ => ∃ more, all = gathered.reverse ++ more := by
  refine ensures_gather (fun now _ => ∃ more, now = more ++ gathered) ?_ n ⟨[], rfl⟩
  rintro _ t ⟨more, rfl⟩ o u _
  cases o with
  | none => exact ⟨more.reverse, by simp⟩
  | some a => exact ⟨a :: more, rfl⟩

end Parse

namespace Grammar

variable {α : Type} {n : Nat} {t : Stream' Token} {top : Level} {gathered : List Element}
  {f : List Element → Parse α}

/-- At the end of the source no further element is looked for. -/
theorem on_gather_topLevel_of_eof (ended : t.head.kind = .eof) :
    ((gather (furtherTopLevel top) (n + 1) gathered).bind f).on t =
      (f gathered.reverse).on t := by
  have none : (furtherTopLevel top).on t = (.ok none, t) := by
    rw [furtherTopLevel, bind_eq, on_nextIs_bind, if_pos (by simp [ended])]
    rfl
  rw [gather, bind_eq, bind_assoc, on_bind, none]
  rfl

/-- In front of the end one more element is. -/
theorem on_gather_topLevel_of_ne_eof (ne : t.head.kind ≠ .eof) :
    ((gather (furtherTopLevel top) (n + 1) gathered).bind f).on t =
      (top.element.bind fun e =>
        (gather (furtherTopLevel top) n (e :: gathered)).bind f).on t := by
  have one : (furtherTopLevel top).on t = (top.element.bind fun e => done (some e)).on t := by
    rw [furtherTopLevel, bind_eq, on_nextIs_bind, if_neg (by simp [ne])]
    rfl
  rw [gather, bind_eq, bind_assoc, on_bind, one, on_bind, on_bind]
  cases top.element.on t with
  | mk r u => cases r <;> rfl

/-- The end of the source is no element, and is what the error is about. -/
theorem element_of_eof (below : Level) (ended : t.head.kind = .eof) :
    (element .standard (n + 1) below).on t =
      (.error ⟨.unrecognizedElement t.head.text, t.head.position⟩, t) := by
  have plain : leadingOne.on t = (.ok none, t) := by
    rw [leadingOne, bind_eq, on_look_bind, if_neg (by simp [ended, TokenKind.annotates])]
    rfl
  have bare : (leading (n + 1)).on t = (.ok [], t) := by
    rw [leading, gather, bind_eq, on_bind, plain]
    rfl
  have other : Registry.dispatches t.head = false := by
    simp [Registry.dispatches, ended, TokenKind.isKeyword]
  rw [element, elementBy, bind_eq, on_bind, bare]
  dsimp only
  rw [bind_eq, on_look_bind, if_neg (by simp [ended, TokenKind.isFault]), if_neg (by simp [other])]
  rfl

theorem on_expect_eof (t : Stream' Token) :
    (expect .eof).on t = if t.head.kind = .eof then (.ok t.head, t.tail)
      else (.error ⟨.unexpectedToken .eof none t.head.kind t.head.text, t.head.position⟩, t) := by
  rw [expect, bind_eq, on_look_bind]
  split <;> rfl

/-- A unit fails on what a script has behind its first element. -/
theorem matches_further (us : List Use) (e : Element) (ne : t.head.kind ≠ .eof) :
    Matches
      (.error ⟨.unexpectedToken .eof none t.head.kind t.head.text, t.head.position⟩)
      (((gather (furtherTopLevel (level .standard (n + 2))) (n + 1) [e]).bind fun es =>
        (expect .eof).bind fun x => done ⟨us, es, x⟩).on t).1 := by
  rw [on_gather_topLevel_of_ne_eof ne, on_bind]
  cases second : (level .standard (n + 2)).element.on t with
  | mk next v =>
    cases next with
    | error e' => exact .failed
    | ok e' =>
      have begins : e'.first = t.head := ((sound_level (n + 2)).element t e' v second).2.1
      dsimp only
      rw [on_bind]
      cases others : (gather (furtherTopLevel (level .standard (n + 2))) n [e', e]).on v with
      | mk all w =>
        cases all with
        | error e'' => exact .failed
        | ok es =>
          obtain ⟨more, rfl⟩ := ensures_gather_append _ _ _ _ es w others
          dsimp only
          rw [on_bind, on_expect_eof, ← begins]
          split
          · exact .more
          · exact .failed

/-- Behind the uses, a unit and a script of the same tokens match. -/
theorem matches_elements (us : List Use) (t : Stream' Token)
    (empty : t.head.kind = .eof → t.head.text = "") :
    Matches
      (((level .standard (n + 2)).element.bind fun e =>
        (expect .eof).bind fun x => done ⟨us, [e], x⟩).on t).1
      (((gather (furtherTopLevel (level .standard (n + 2))) (n + 2) []).bind fun es =>
        (expect .eof).bind fun x => done ⟨us, es, x⟩).on t).1 := by
  by_cases ended : t.head.kind = .eof
  · have none : (level .standard (n + 2)).element.on t = _ := element_of_eof _ ended
    rw [on_gather_topLevel_of_eof ended, on_bind, none, on_bind, on_expect_eof, if_pos ended,
      empty ended]
    exact .empty
  · rw [on_gather_topLevel_of_ne_eof ended, on_bind, on_bind]
    cases (level .standard (n + 2)).element.on t with
    | mk first u =>
      cases first with
      | error e => exact .failed
      | ok e =>
        dsimp only
        rw [on_bind, on_expect_eof]
        by_cases last : u.head.kind = .eof
        · rw [if_pos last, on_gather_topLevel_of_eof last, on_bind, on_expect_eof, if_pos last]
          exact .single
        · rw [if_neg last]
          exact matches_further us e last

/-- A unit and a script of the same tokens match. -/
theorem matches_units (s : Stream' Token) (enough : 2 ≤ n)
    (empty : ∀ i, (s.get i).kind = .eof → (s.get i).text = "") :
    Matches ((compilationUnit .standard n).on s).1 ((scriptUnit .standard n).on s).1 := by
  obtain ⟨m, rfl⟩ := Nat.exists_eq_add_of_le' enough
  simp only [compilationUnit, scriptUnit, unitOf, scriptOf, bind_eq, pure_eq]
  rw [on_bind, on_bind]
  cases run : (uses (m + 2)).on s with
  | mk us t =>
    cases us with
    | error e => exact .failed
    | ok us =>
      obtain ⟨j, left⟩ := (uses (m + 2)).exists_drop_eq_on s
      rw [run] at left
      refine matches_elements us t fun ended => ?_
      rw [show t = s.drop j from left] at ended ⊢
      exact empty (0 + j) ended

end Grammar

theorem matches_parse (source : String) (file : Option String) :
    Matches (parse source file) (parseScript source file) := by
  have reached : (Parser.ofSource source file .standard).Reached source file .standard := .start
  have unit := (Parser.ask_eq_on (Grammar.compilationUnit .standard
    (Parser.ofSource source file .standard).depth) reached.inOrder).1
  have script := (Parser.ask_eq_on (Grammar.scriptUnit .standard
    (Parser.ofSource source file .standard).depth) reached.inOrder).1
  show Matches (Parser.ask _ (Grammar.compilationUnit .standard _)).1
    (Parser.ask _ (Grammar.scriptUnit .standard _)).1
  rw [unit, script]
  exact Grammar.matches_units _ (Nat.le_add_left 2 _)
    fun i ended => Parser.text_eq_of_eof source file .standard ended

/-- A source is a unit exactly if it is a script of one element, and then they are the same
unit. A script of more elements is no unit because the source does not end where the second
element begins, with its first annotation or else its tag; a script of none is no unit because
no element begins at its end; and what is no script is no unit. -/
theorem parse_iff_parseScript (source : String) (file : Option String) :
    (∀ u, parse source file = .ok u ↔ parseScript source file = .ok u ∧ u.elements.length = 1) ∧
      (∀ u e e' (es : List Element), parseScript source file = .ok u →
        u.elements = e :: e' :: es →
        parse source file = .error ⟨.unexpectedToken .eof none e'.first.kind e'.first.text,
          e'.first.position⟩) ∧
      (∀ u, parseScript source file = .ok u → u.elements = [] →
        parse source file = .error ⟨.unrecognizedElement "", u.eof.position⟩) ∧
      ∀ e, parseScript source file = .error e → ∃ e', parse source file = .error e' := by
  have matched := matches_parse source file
  generalize parse source file = unit at matched ⊢
  generalize parseScript source file = script at matched ⊢
  cases matched with
  | failed => simp
  | empty =>
    refine ⟨fun u => ⟨nofun, ?_⟩, ?_, ?_, fun _ failed => nomatch failed⟩
    · rintro ⟨⟨rfl⟩, one⟩
      cases one
    · rintro _ e e' es ⟨rfl⟩ two
      cases two
    · rintro _ ⟨rfl⟩ -
      rfl
  | single =>
    refine ⟨fun u => ⟨?_, And.left⟩, ?_, ?_, fun _ failed => nomatch failed⟩
    · rintro ⟨rfl⟩
      exact ⟨rfl, rfl⟩
    · rintro _ e e' es ⟨rfl⟩ two
      cases two
    · rintro _ ⟨rfl⟩ none
      cases none
  | more =>
    refine ⟨fun u => ⟨nofun, ?_⟩, ?_, ?_, fun _ failed => nomatch failed⟩
    · rintro ⟨⟨rfl⟩, one⟩
      cases one
    · rintro _ e e' es ⟨rfl⟩ ⟨rfl⟩
      rfl
    · rintro _ ⟨rfl⟩ none
      cases none

/-- Two symbols, the second one behind a documentation. -/
theorem parse_iff_parseScript_symbols :
    ∃ u, parseScript "symbol a /** b */ symbol b" none = .ok u ∧
      parse "symbol a /** b */ symbol b" none =
        .error ⟨.unexpectedToken .eof none .documentation "/** b */", ⟨"shell", 1, 10⟩⟩ := by
  have script : ((parseScript "symbol a /** b */ symbol b" none).toOption.map fun u =>
      u.elements.map fun e => e.first) = some [⟨.tag, "symbol", ⟨"shell", 1, 1⟩⟩,
        ⟨.documentation, "/** b */", ⟨"shell", 1, 10⟩⟩] := by
    decide +kernel
  cases parsed : parseScript "symbol a /** b */ symbol b" none with
  | error e =>
    rw [parsed] at script
    cases script
  | ok u =>
    rw [parsed] at script
    obtain ⟨us, _ | ⟨e, _ | ⟨e', es⟩⟩, eof⟩ := u
    · cases script
    · simp [Except.toOption] at script
    · have second : e'.first = ⟨.documentation, "/** b */", ⟨"shell", 1, 10⟩⟩ := by
        simp_all [Except.toOption]
      refine ⟨_, rfl, ?_⟩
      rw [(parse_iff_parseScript _ none).2.1 _ e e' es parsed rfl, second]

end TagLang
