import TagLang.Lexeme.Word
import TagLang.Scan.Basic

/-!
# Scanning words and hash tags

A word is scanned from behind its first character. One that begins with a letter is
looked up among the reserved words when it is complete; one that begins with an underscore
is a name only if a letter follows no more than two of them.
-/

namespace TagLang.Scan

/-- The rest of a word: word characters and at most one apostrophe. -/
def wordBody : Scan Unit := do
  advanceWhile isWordBody
  let _ ← advanceOver '\''

/-- The kind of a word that begins with a letter, by its spelling. -/
def letterWordKind (spelling : List Char) : TokenKind :=
  match Keyword.ofSpelling? spelling with
  | some w => .word w
  | none => .identifier

/-- A word behind its first letter. -/
def identifierOrKeyword : Scan TokenKind := do
  wordBody
  return letterWordKind (← pending)

/-- A word behind its first underscore. -/
def underscore : Scan TokenKind := do
  if ← advanceIf Unicode.isAlphabetic then
    wordBody
    return .identifier
  else if ← has 1 '_' then
    let named := (← look 2).any Unicode.isAlphabetic
    sameLine 1
    wordBody
    return if named then .identifier else .fault .invalidIdentifier
  else if (← look 1).any isWordBody then
    wordBody
    return .fault .invalidIdentifier
  else return .literal .anonymous

/-- A hash tag behind its hash. -/
def hashTag : Scan TokenKind := do
  if (← look 1).any fun c => Unicode.isAlphabetic c || c == '_' then
    wordBody
    return .tag
  else return .fault .unexpectedCharacter

variable {t s : List Char}

theorem takes_wordBody (s : List Char) : wordBody.Takes t s () (Lexeme.wordSpan s) :=
  (takes_advanceWhile _ s).bind ((takes_advanceOver _ _).bind_pure rfl)

theorem wordSpan_cons {c : Char} (r : List Char) (h : isWordBody c = true) :
    Lexeme.wordSpan (c :: r) = (Lexeme.wordSpan r).after [c] := by
  simp [Lexeme.wordSpan, Cut.run, Cut.andThen, Cut.after, h]

/-- A word that is more than one underscore ends where its span does. -/
theorem word_eq {c : Char} {r : List Char} (h : isWordBody c = true)
    (more : c = '_' → (Cut.run isWordBody r).text ≠ []) :
    Lexeme.word (c :: r) = Lexeme.ofCut (Lexeme.wordKind (c :: (Lexeme.wordSpan r).text))
      ((Lexeme.wordSpan r).after [c]) := by
  have body : (Cut.run isWordBody (c :: r)).text ≠ ['_'] := by
    intro alone
    have both : c = '_' ∧ (Cut.run isWordBody r).text = [] := by simpa [Cut.run, h] using alone
    exact more both.1 both.2
  rw [Lexeme.word, if_neg body, wordSpan_cons r h]
  rfl

theorem completes_identifierOrKeyword {c : Char} (h : Unicode.isAlphabetic c = true)
    (r : List Char) : identifierOrKeyword.Completes [c] r (Lexeme.word (c :: r)) := by
  have score : c ≠ '_' := by
    rintro rfl
    exact absurd h (by decide)
  have kind (w : List Char) : letterWordKind (c :: w) = Lexeme.wordKind (c :: w) := by
    have begins : Lexeme.beginsName (c :: w) = true := by
      unfold Lexeme.beginsName
      split <;> simp_all
    cases spelled : Keyword.ofSpelling? (c :: w) <;>
      simp [letterWordKind, Lexeme.wordKind, begins, spelled]
  have scanned : identifierOrKeyword.Takes [c] r _ _ :=
    (takes_wordBody r).bind (takes_pending_bind (takes_pure _))
  refine ⟨_, _, scanned, ?_⟩
  rw [word_eq (Lexeme.isWordBody_of_isAlphabetic h) (fun e => absurd e score), ← kind]
  simp [Cut.after, Cut.nothing]

/-- No reserved word begins with an underscore. -/
theorem wordKind_underscore (w : List Char) : Lexeme.wordKind ('_' :: w) =
    if Lexeme.beginsName ('_' :: w) then .identifier else .fault .invalidIdentifier := by
  have none : Keyword.ofSpelling? ('_' :: w) = none := by
    cases h : Keyword.ofSpelling? ('_' :: w) with
    | none => rfl
    | some k =>
        have spelled := Keyword.ofSpelling?_eq_some_iff.mp h
        cases k <;> simp [Keyword.spelling] at spelled
  rw [Lexeme.wordKind, none]

/-- Behind two underscores it is the next character that makes a name. -/
theorem beginsName_two (r : List Char) :
    Lexeme.beginsName ('_' :: '_' :: (Lexeme.wordSpan r).text) =
      r.head?.any Unicode.isAlphabetic := by
  cases r with
  | nil => rfl
  | cons e r =>
      by_cases body : isWordBody e = true
      · rw [wordSpan_cons r body]
        rfl
      · have mute : Unicode.isAlphabetic e = false := by
          simpa using mt Lexeme.isWordBody_of_isAlphabetic body
        have empty : Cut.run isWordBody (e :: r) = .nothing (e :: r) := by
          simp [Cut.run, Cut.nothing, body]
        by_cases tick : e = '\''
        · subst tick
          rw [Lexeme.wordSpan, empty]
          rfl
        · simp [Lexeme.wordSpan, empty, Cut.andThen, Cut.nothing, Cut.one, tick, mute,
            Lexeme.beginsName, Unicode.isAlphabetic_underscore]

theorem beginsName_one {d : Char} (h : d ≠ '_') (w : List Char) :
    Lexeme.beginsName ('_' :: d :: w) = Unicode.isAlphabetic d := by
  rw [Lexeme.beginsName]
  simp [h]

theorem completes_underscore (r : List Char) :
    underscore.Completes ['_'] r (Lexeme.word ('_' :: r)) := by
  have score : isWordBody '_' = true := by decide
  -- Where a word character follows, the two of them are one word.
  have complete {kind : TokenKind} {d : Char} {s : List Char} (body : isWordBody d = true)
      (scanned : underscore.Takes ['_'] (d :: s) kind (Lexeme.wordSpan (d :: s)))
      (same : (if Lexeme.beginsName ('_' :: d :: (Lexeme.wordSpan s).text) then .identifier
        else .fault .invalidIdentifier) = kind) :
      underscore.Completes ['_'] (d :: s) (Lexeme.word ('_' :: d :: s)) := by
    refine ⟨_, _, scanned, ?_⟩
    rw [word_eq score (by simp [Cut.run, body]), wordKind_underscore, wordSpan_cons s body]
    exact congrArg (Lexeme.ofCut · _) same.symm
  cases r with
  | nil => exact ⟨_, _, takes_advanceIf_bind_of_not rfl (takes_has_bind 0 '_' (takes_look_bind 0
      (takes_pure _))), rfl⟩
  | cons d r =>
      by_cases letter : Unicode.isAlphabetic d = true
      · have body := Lexeme.isWordBody_of_isAlphabetic letter
        have other : d ≠ '_' := by
          rintro rfl
          exact absurd letter (by decide)
        refine complete body ?_ (if_pos (by rw [beginsName_one other, letter]))
        rw [wordSpan_cons r body]
        exact takes_advanceIf_bind letter ((takes_wordBody r).bind_pure rfl)
      · have mute : (d :: r).head?.any Unicode.isAlphabetic = false := by simpa using letter
        by_cases second : d = '_'
        · subst second
          refine complete score ?_ (by rw [beginsName_two])
          rw [wordSpan_cons r score]
          have passed : (sameLine 1).Takes ['_'] ('_' :: r) () ⟨['_'], r⟩ :=
            takes_sameLine (w := ['_']) (by decide)
          exact takes_advanceIf_bind_of_not mute (takes_has_bind 0 '_' (takes_look_bind 1
            (passed.bind ((takes_wordBody r).bind_pure (by rw [List.head?_eq_getElem?]; rfl)))))
        · have other : ¬ (some d == some '_') = true := by simpa using second
          by_cases body : isWordBody d = true
          · refine complete body ?_ (if_neg (by rw [beginsName_one second]; exact letter))
            exact takes_advanceIf_bind_of_not mute (takes_has_bind 0 '_' (takes_else other
              (takes_look_bind 0 (takes_then body ((takes_wordBody _).bind_pure rfl)))))
          · have alone : Cut.run isWordBody ('_' :: d :: r) = ⟨['_'], d :: r⟩ := by
              simp [Cut.run, score, body]
            rw [Lexeme.word, alone, if_pos rfl]
            exact ⟨_, _, takes_advanceIf_bind_of_not mute (takes_has_bind 0 '_' (takes_else other
              (takes_look_bind 0 (takes_else body (takes_pure _))))), rfl⟩

theorem completes_hashTag (r : List Char) :
    hashTag.Completes ['#'] r ((Lexeme.hashTag? r).getD ⟨.fault .unexpectedCharacter, ['#'], r⟩) := by
  cases r with
  | nil => exact ⟨_, _, takes_look_bind 0 (takes_pure _), rfl⟩
  | cons c r =>
      by_cases h : (Unicode.isAlphabetic c || c == '_') = true
      · rw [Lexeme.hashTag?, if_pos h, Option.getD_some]
        exact ⟨_, _, takes_look_bind 0 (takes_then h ((takes_wordBody _).bind_pure rfl)), rfl⟩
      · rw [Lexeme.hashTag?, if_neg h, Option.getD_none]
        exact ⟨_, _, takes_look_bind 0 (takes_else h (takes_pure _)), rfl⟩

end TagLang.Scan
