import TagLang.Lexeme.Delimited
import TagLang.Scan.Basic

/-!
# Scanning comments, code, templates and regular expressions

Each of these goes round character by character until its terminator stands ahead, and
breaks off where the text, or for a regular expression its line, comes to an end.
-/

namespace TagLang.Scan

/-- A character of a code literal. -/
def codeRound : Scan (Unit ⊕ TokenKind) := do
  match ← char with
  | none => return .inr (.fault .unclosedCode)
  | some c => return if c == '\x60' then .inr (.literal .code) else .inl ()

/-- The code literal behind its back-tick. -/
def code : Scan TokenKind := rounds (fun _ => codeRound) ()

/-- The terminator, or a character before it. -/
def throughRound (terminator : List Char) (closed : TokenKind) (unclosed : LexicalFault) :
    Scan (Unit ⊕ TokenKind) := do
  if ← hasText terminator then
    sameLine terminator.length
    return .inr closed
  else
    match ← char with
    | none => return .inr (.fault unclosed)
    | some _ => return .inl ()

/-- What runs through the first terminator behind its opening. -/
def through (terminator : List Char) (closed : TokenKind) (unclosed : LexicalFault) :
    Scan TokenKind :=
  rounds (fun _ => throughRound terminator closed unclosed) ()

/-- The template behind three braces. -/
def template : Scan TokenKind := through ['}', '}', '}'] (.literal .template) .unclosedTemplate

/-- The block comment behind a slash and a star. It documents if another star comes next that
does not close it. -/
def blockComment : Scan TokenKind := do
  let documents := (← has 1 '*') && !(← has 2 '/')
  through ['*', '/'] (if documents then .documentation else .blockComment) .unclosedBlockComment

/-- The line comment behind two slashes. -/
def lineComment : Scan TokenKind := do
  advanceWhile (· != '\n')
  return .lineComment

/-- The end of a regular expression or of its line, or a character before it. -/
def regularExpressionRound : Scan (Unit ⊕ TokenKind) := do
  let next ← look 1
  if next.all fun c => c == '\n' || c == '\r' then
    return .inr (.fault .unclosedRegularExpression)
  else if next == some '/' then
    sameLine 1
    advanceWhile Lexeme.isRegularExpressionFlag
    return .inr (.literal .regularExpression)
  else
    let _ ← char
    return .inl ()

/-- The regular expression behind a tilde and a slash. -/
def regularExpression : Scan TokenKind := rounds (fun _ => regularExpressionRound) ()

variable {t s : List Char}

/-- What was found, as the rest of a text from its first character on. -/
theorem takes_more {σ : Type} {round : σ → Scan (σ ⊕ TokenKind)} {i j : σ} {c : Char} {r : List Char}
    {closed unclosed : TokenKind} {found : Option Cut}
    (h : (round i).Takes t (c :: r) (.inl j) ⟨[c], r⟩)
    (hr : Takes (rounds round j) (t ++ [c]) r (if found.isSome then closed else unclosed)
      (found.getD ⟨r, []⟩)) :
    Takes (rounds round i) t (c :: r)
      (if (found.map (Cut.after [c])).isSome then closed else unclosed)
      ((found.map (Cut.after [c])).getD ⟨c :: r, []⟩) := by
  have whole := takes_rounds_more h (by simp) hr
  cases found <;> exact whole

theorem takes_code (s : List Char) : ∀ t : List Char, code.Takes t s
    (if (Lexeme.through? ['\x60'] s).isSome then .literal .code else .fault .unclosedCode)
    ((Lexeme.through? ['\x60'] s).getD ⟨s, []⟩) := by
  induction s with
  | nil =>
      intro t
      exact takes_rounds_done (takes_char_nil.bind_pure rfl)
  | cons c r ih =>
      intro t
      by_cases h : c = '\x60'
      · subst h
        exact takes_rounds_done (takes_char_cons.bind_pure rfl)
      · have goes : ¬ ['\x60'].isPrefixOf (c :: r) = true := by simpa using Ne.symm h
        rw [Lexeme.through?, if_neg goes]
        exact takes_more (takes_char_cons.bind_pure (congrArg pure (if_neg (by simpa using h)))) (ih _)

theorem takes_through {terminator : List Char} (line : '\n' ∉ terminator) (ne : terminator ≠ [])
    (closed : TokenKind) (unclosed : LexicalFault) (s : List Char) : ∀ t : List Char,
    (through terminator closed unclosed).Takes t s
      (if (Lexeme.through? terminator s).isSome then closed else .fault unclosed)
      ((Lexeme.through? terminator s).getD ⟨s, []⟩) := by
  induction s with
  | nil =>
      intro t
      have open' : ¬ terminator.isPrefixOf [] = true := by simpa using ne
      rw [Lexeme.through?, if_neg open']
      exact takes_rounds_done (takes_hasText_bind _ (takes_else open'
        (takes_char_nil.bind_pure rfl)))
  | cons c r ih =>
      intro t
      rw [Lexeme.through?]
      by_cases here : terminator.isPrefixOf (c :: r) = true
      · obtain ⟨r', whole⟩ := List.isPrefixOf_iff_prefix.mp here
        rw [if_pos here]
        rw [← whole] at here ⊢
        rw [List.drop_left]
        exact takes_rounds_done (takes_hasText_bind _ (takes_then here
          ((takes_sameLine line).bind_pure rfl)))
      · rw [if_neg here]
        exact takes_more (takes_hasText_bind _ (takes_else here (takes_char_cons.bind_pure rfl)))
          (ih _)

theorem Takes.completes_delimited {p : Scan TokenKind} {terminator : List Char} {closed : TokenKind}
    {unclosed : LexicalFault}
    (h : p.Takes t s (if (Lexeme.through? terminator s).isSome then closed else .fault unclosed)
      ((Lexeme.through? terminator s).getD ⟨s, []⟩)) :
    p.Completes t s (Lexeme.delimited t terminator closed unclosed s) := by
  refine ⟨_, _, h, ?_⟩
  rw [Lexeme.delimited]
  cases Lexeme.through? terminator s <;> rfl

theorem completes_code (s : List Char) : code.Completes ['\x60'] s (Lexeme.code s) :=
  (takes_code s _).completes_delimited

theorem completes_template (s : List Char) :
    template.Completes ['{', '{', '{'] s (Lexeme.template s) :=
  (takes_through (by decide) (by simp) _ _ s _).completes_delimited

theorem completes_blockComment (s : List Char) :
    blockComment.Completes ['/', '*'] s (Lexeme.blockComment s) := by
  have documents : (s[0]? == some '*' && !(s[1]? == some '/')) = Lexeme.documents s := by
    fun_cases Lexeme.documents s with
    | case1 => rfl
    | case2 r other =>
        cases r with
        | nil => rfl
        | cons d r => simpa using fun h => other r (by rw [h])
    | case3 _ _ star =>
        have apart : ¬ s.head? = some '*' := fun h => (List.head?_eq_some_iff.mp h).elim star
        simp [← List.head?_eq_getElem?, apart]
  have whole : blockComment.Takes ['/', '*'] s _ _ :=
    takes_has_bind 0 '*' (takes_has_bind 1 '/' (takes_through (by decide) (by simp) _ _ s _))
  rw [documents] at whole
  exact whole.completes_delimited

theorem completes_lineComment (s : List Char) :
    lineComment.Completes ['/', '/'] s (Lexeme.lineComment s) :=
  ⟨_, _, (takes_advanceWhile _ s).bind_pure rfl, rfl⟩

/-- The closing slash of a regular expression with the flags behind it, if it comes next. -/
def closingSlash : List Char → Cut
  | '/' :: r => (Cut.run Lexeme.isRegularExpressionFlag r).after ['/']
  | s => .nothing s

theorem closingSlash_of_head? (h : s.head? ≠ some '/') : closingSlash s = .nothing s := by
  rw [closingSlash]
  rintro r rfl
  exact h rfl

/-- The characters of a regular expression before its closing slash. -/
def isPatternBody (c : Char) : Bool := c != '/' && c != '\n' && c != '\r'

theorem takes_regularExpression (s : List Char) : ∀ t : List Char,
    regularExpression.Takes t s
      (if (Cut.run isPatternBody s).rest.head? = some '/' then .literal .regularExpression
        else .fault .unclosedRegularExpression)
      ((Cut.run isPatternBody s).andThen closingSlash) := by
  induction s with
  | nil =>
      intro t
      exact takes_rounds_done (takes_look_bind 0 (takes_then rfl (takes_pure _)))
  | cons c r ih =>
      intro t
      by_cases body : isPatternBody c = true
      · have goes : ¬ ((some c).all fun c => c == '\n' || c == '\r') = true ∧
            ¬ (some c == some '/') = true := by
          simp_all [isPatternBody]
        have round : regularExpressionRound.Takes t (c :: r) (.inl ()) ⟨[c], r⟩ :=
          takes_look_bind 0 (takes_else goes.1 (takes_else goes.2 (takes_char_cons.bind_pure rfl)))
        have whole : regularExpression.Takes t (c :: r) _ _ :=
          takes_rounds_more round (by simp) (ih _)
        rw [Cut.run_cons body]
        exact whole
      · have ends : Cut.run isPatternBody (c :: r) = .nothing (c :: r) := by
          simp [Cut.run, Cut.nothing, body]
        rw [ends]
        by_cases slash : c = '/'
        · subst slash
          have passed : (sameLine 1).Takes t ('/' :: r) () ⟨['/'], r⟩ :=
            takes_sameLine_one (q := (· == '/')) rfl rfl
          exact takes_rounds_done (takes_look_bind 0 (takes_else (by simp) (takes_then rfl
            (passed.bind ((takes_advanceWhile _ _).bind_pure rfl)))))
        · have stops : ((some c).all fun c => c == '\n' || c == '\r') = true := by
            by_cases feed : c = '\n' <;> simp_all [isPatternBody]
          have still : (Cut.nothing (c :: r)).andThen closingSlash = .nothing (c :: r) := by
            change (closingSlash (c :: r)).after [] = _
            rw [closingSlash_of_head? (by simpa using slash)]
            rfl
          rw [still, if_neg (by simpa [Cut.nothing] using slash)]
          exact takes_rounds_done (takes_look_bind 0 (takes_then stops (takes_pure _)))

theorem completes_regularExpression (s : List Char) :
    regularExpression.Completes ['~', '/'] s (Lexeme.regularExpression s) := by
  refine ⟨_, _, takes_regularExpression s _, ?_⟩
  have body : (fun c => c != '/' && c != '\n' && c != '\r') = isPatternBody := rfl
  rw [Lexeme.regularExpression, body]
  by_cases slash : (Cut.run isPatternBody s).rest.head? = some '/'
  · obtain ⟨r, rest⟩ := List.head?_eq_some_iff.mp slash
    simp [Cut.andThen, rest, closingSlash, Cut.after]
  · rw [if_neg slash, Cut.andThen, closingSlash_of_head? slash]
    split
    · rename_i r rest
      exact absurd (congrArg List.head? rest) slash
    · simp [Cut.after, Cut.nothing]

end TagLang.Scan
