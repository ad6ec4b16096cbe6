import TagLang.Lexeme.Quoted
import TagLang.Scan.Basic

/-!
# Scanning text literals

The body of a text literal is scanned round by round: each takes a character or an escape
and remembers whether all escapes so far were proper, until the closing delimiter comes or
the literal breaks off.
-/

namespace TagLang

/-- Whether no literal of this style can go on with this character, or without one. -/
def Lexeme.TextStyle.endsAt (style : TextStyle) : Option Char → Bool
  | none => true
  | some c => !style.multiline && (c == '\n' || c == '\r')

namespace Scan

open Lexeme (EscapeVerdict TextStyle TextVerdict)

/-- The verdict on an escape that breaks off here. -/
def brokenOff (style : TextStyle) : Scan EscapeVerdict := do
  return if style.endsAt (← look 1) then .unclosed else .invalid

/-- The escape behind a backslash. -/
def escape (style : TextStyle) : Scan EscapeVerdict := do
  match ← look 1 with
  | none => return .unclosed
  | some c =>
    if style.endsAt (some c) then return .unclosed
    else if Lexeme.isSimpleEscape c then
      sameLine 1
      return .valid
    else if c == 'u' then
      if ← has 2 '{' then
        sameLine 2
        let named ← count Unicode.isAlphanumeric
        if ← pure (decide (0 < named)) <&&> advanceOver '}' then return .valid else brokenOff style
      else
        sameLine 1
        if ← times isHexDigit 4 then return .valid else brokenOff style
    else
      let _ ← char
      return .invalid

/-- How a round over an escape ends in a literal that was proper before it, or not. -/
def afterEscape (proper : Bool) : EscapeVerdict → Bool ⊕ TokenKind
  | .valid => .inl proper
  | .invalid => .inl false
  | .unclosed => .inr (.fault .unclosedText)

/-- A round through the body of a text literal, which is proper so far or not. -/
def textRound (style : TextStyle) (form : LiteralForm) (proper : Bool) :
    Scan (Bool ⊕ TokenKind) := do
  let next ← look 1
  if style.endsAt next then return .inr (.fault .unclosedText)
  else if ← hasText style.closing then
    sameLine style.closing.length
    return .inr (if proper then .literal form else .fault .invalidText)
  else if next == some '\\' then
    sameLine 1
    return afterEscape proper (← escape style)
  else
    let _ ← char
    return .inl proper

/-- A text literal behind its first quote. -/
def text (quote : Char) : Scan TokenKind := do
  if (← has 1 quote) && (← has 2 quote) then
    sameLine 2
    rounds (textRound ⟨[quote, quote, quote], true⟩
      (if quote == '"' then .doubleQuotedMultiline else .singleQuotedMultiline)) true
  else
    rounds (textRound ⟨[quote], false⟩
      (if quote == '"' then .doubleQuoted else .singleQuoted)) true

variable {t s : List Char} {style : TextStyle}

theorem endsAt_head? (style : TextStyle) (s : List Char) : style.endsAt s[0]? = style.stops s := by
  cases s <;> rfl

theorem takes_brokenOff (style : TextStyle) (s : List Char) :
    (brokenOff style).Takes t s (Lexeme.brokenOff style s) (.nothing s) := by
  have looked : (brokenOff style).Takes t s _ _ := takes_look_bind 0 (takes_pure _)
  rwa [endsAt_head?] at looked

/-- Hexadecimal digits, up to as many as are asked for. -/
theorem takes_times_isHexDigit (n : Nat) (s : List Char) :
    (times isHexDigit n).Takes t s ((Lexeme.hexDigits n s).text.length == n)
      (Lexeme.hexDigits n s) := by
  induction n generalizing t s with
  | zero => exact takes_pure true
  | succ n ih =>
      cases s with
      | nil => exact takes_times_of_not n rfl
      | cons c r =>
          by_cases h : isHexDigit c = true
          · have length : ((Lexeme.hexDigits (n + 1) (c :: r)).text.length == n + 1) =
                ((Lexeme.hexDigits n r).text.length == n) := by
              simp [Lexeme.hexDigits, h]
            rw [length, Lexeme.hexDigits, if_pos h]
            exact takes_times_cons h (ih r)
          · rw [Lexeme.hexDigits, if_neg h]
            exact takes_times_of_not n (by simpa using h)

theorem takes_escape_braced (style : TextStyle) (r : List Char) :
    (escape style).Takes t ('u' :: '{' :: r)
      (Lexeme.bracedPoint style (Cut.run Unicode.isAlphanumeric r)).1
      ((Lexeme.bracedPoint style (Cut.run Unicode.isAlphanumeric r)).2.after ['u', '{']) := by
  have goes : ¬ style.stops ('u' :: '{' :: r) = true := by simp [TextStyle.stops]
  have opening : (sameLine 2).Takes t ('u' :: '{' :: r) () ⟨['u', '{'], r⟩ :=
    takes_sameLine (w := ['u', '{']) (by decide)
  have counted := @takes_count (t ++ ['u', '{']) Unicode.isAlphanumeric r
  generalize Cut.run Unicode.isAlphanumeric r = name at counted ⊢
  obtain ⟨text, rest⟩ := name
  by_cases closed : text ≠ [] ∧ rest.head?.any (· == '}') = true
  · obtain ⟨a, w, rfl⟩ := List.exists_cons_of_ne_nil closed.1
    obtain ⟨r', rfl⟩ := Lexeme.exists_eq_cons closed.2
    have closes {t : List Char} :
        (pure (decide (0 < (a :: w).length)) <&&> advanceOver '}').Takes t ('}' :: r') true
          ⟨['}'], r'⟩ := (takes_pure true).and takes_advanceOver_cons
    have whole : (escape style).Takes t ('u' :: '{' :: r) .valid _ :=
      takes_look_bind 0 (takes_else goes (takes_else (by decide) (takes_then rfl
        (takes_has_bind 1 '{' (takes_then rfl (opening.bind (counted.bind
          (closes.bind_pure rfl))))))))
    rw [Lexeme.bracedPoint_of_closed]
    exact whole
  · have opens {t : List Char} :
        (pure (decide (0 < text.length)) <&&> advanceOver '}').Takes t rest false
          (.nothing rest) := by
      cases text with
      | nil => exact (takes_pure false).and_of_not _
      | cons a w =>
          have shut : rest.head?.any (· == '}') = false :=
            Bool.eq_false_iff.mpr fun brace => closed ⟨List.cons_ne_nil a w, brace⟩
          exact (takes_pure true).and (takes_advanceIf_bind_of_not shut (takes_pure false))
    rw [Lexeme.bracedPoint_of_open fun ne => Bool.eq_false_iff.mpr fun brace => closed ⟨ne, brace⟩]
    exact takes_look_bind 0 (takes_else goes (takes_else (by decide) (takes_then rfl
      (takes_has_bind 1 '{' (takes_then rfl (opening.bind (counted.bind_still
        (opens.bind_nothing (takes_else (by decide) (takes_brokenOff style _))))))))))

theorem takes_escape_coded (style : TextStyle) {r : List Char}
    (apart : r.head?.any (· == '{') = false) :
    (escape style).Takes t ('u' :: r) (Lexeme.codedPoint style r).1
      ((Lexeme.codedPoint style r).2.after ['u']) := by
  have goes : ¬ style.stops ('u' :: r) = true := by simp [TextStyle.stops]
  have letter : (sameLine 1).Takes t ('u' :: r) () ⟨['u'], r⟩ :=
    takes_sameLine_one (q := (· == 'u')) rfl rfl
  have next : ¬ (r[0]? == some '{') = true := by
    cases r <;> simp_all
  have read {t : List Char} := takes_times_isHexDigit (t := t) 4 r
  unfold Lexeme.codedPoint
  by_cases four : (Lexeme.hexDigits 4 r).text.length = 4
  · rw [four] at read
    simp only [four, if_true]
    exact takes_look_bind 0 (takes_else goes (takes_else (by decide) (takes_then rfl
      (takes_has_bind 1 '{' (takes_else next (letter.bind (read.bind_pure rfl)))))))
  · rw [beq_false_of_ne four] at read
    simp only [if_neg four]
    exact takes_look_bind 0 (takes_else goes (takes_else (by decide) (takes_then rfl
      (takes_has_bind 1 '{' (takes_else next (letter.bind (read.bind_still
        (takes_else (by decide) (takes_brokenOff style _)))))))))

theorem takes_escape (style : TextStyle) (s : List Char) :
    (escape style).Takes t s (Lexeme.escape style s).1 (Lexeme.escape style s).2 := by
  cases s with
  | nil => exact takes_look_bind 0 (takes_pure _)
  | cons c r =>
      by_cases stops : style.stops (c :: r) = true
      · rw [Lexeme.escape_of_stops stops]
        exact takes_look_bind 0 (takes_then stops (takes_pure _))
      by_cases announced : c = 'u'
      · subst announced
        rw [Lexeme.escape_point]
        by_cases brace : r.head?.any (· == '{') = true
        · obtain ⟨r, rfl⟩ := Lexeme.exists_eq_cons brace
          rw [Lexeme.point_brace]
          exact takes_escape_braced style r
        · have apart := Bool.eq_false_iff.mpr brace
          rw [Lexeme.point_of_apart apart]
          exact takes_escape_coded style apart
      · rw [Lexeme.escape_simple stops announced]
        by_cases simple : Lexeme.isSimpleEscape c = true
        · have taken : (sameLine 1).Takes t (c :: r) () ⟨[c], r⟩ := takes_sameLine_one simple rfl
          rw [if_pos simple]
          exact takes_look_bind 0 (takes_else stops (takes_then simple (taken.bind_pure rfl)))
        · have plain : ¬ (some c == some 'u') = true := by simpa using announced
          rw [if_neg simple]
          exact takes_look_bind 0 (takes_else stops (takes_else simple (takes_else plain
            (takes_char_cons.bind_pure rfl))))

/-- The verdict on a text literal whose escapes were proper up to its last part, or not. -/
def verdictAfter (proper : Bool) (v : TextVerdict) : TextVerdict := if proper then v else v.spoil

/-- A round over a backslash and its escape. -/
theorem takes_textRound_escape {r : List Char} (goes : ¬ style.stops ('\\' :: r) = true)
    (opened : ¬ style.closing.isPrefixOf ('\\' :: r) = true) (form : LiteralForm) (proper : Bool) :
    (textRound style form proper).Takes t ('\\' :: r)
      (afterEscape proper (Lexeme.escape style r).1)
      ((Lexeme.escape style r).2.after ['\\']) := by
  have slash : (sameLine 1).Takes t ('\\' :: r) () ⟨['\\'], r⟩ :=
    takes_sameLine_one (q := (· == '\\')) rfl rfl
  exact takes_look_bind 0 (takes_else goes (takes_hasText_bind _ (takes_else opened
    (takes_then rfl (slash.bind ((takes_escape style r).bind_pure rfl))))))

theorem takes_textRounds (line : '\n' ∉ style.closing) (form : LiteralForm) (s : List Char) :
    ∀ (t : List Char) (proper : Bool), Takes (rounds (textRound style form) proper) t s
      (Lexeme.textKind form (verdictAfter proper (Lexeme.textBody style s).1))
      (Lexeme.textBody style s).2 := by
  have unclosed (proper : Bool) : verdictAfter proper .unclosed = .unclosed := by
    cases proper <;> rfl
  have faulty (proper : Bool) (v : TextVerdict) :
      verdictAfter proper v.spoil = verdictAfter false v := by
    cases proper <;> cases v <;> rfl
  fun_induction Lexeme.textBody style s with
  | case1 s stops =>
      intro t proper
      rw [← endsAt_head?] at stops
      rw [unclosed]
      exact takes_rounds_done (takes_look_bind 0 (takes_then stops (takes_pure _)))
  | case2 s goes closed =>
      intro t proper
      rw [← endsAt_head?] at goes
      obtain ⟨r, rfl⟩ := List.isPrefixOf_iff_prefix.mp closed
      have kind : (if proper = true then TokenKind.literal form else .fault .invalidText) =
          Lexeme.textKind form (verdictAfter proper .proper) := by
        cases proper <;> rfl
      rw [List.drop_left, ← kind]
      exact takes_rounds_done (takes_look_bind 0 (takes_else goes (takes_hasText_bind _
        (takes_then closed ((takes_sameLine line).bind_pure rfl)))))
  | case3 goes => exact absurd rfl goes
  | case4 c r slash spelled broken goes opened =>
      intro t proper
      obtain rfl : c = '\\' := by simpa using slash
      have round := takes_textRound_escape (t := t) goes opened form proper
      rw [broken] at round
      rw [unclosed]
      exact takes_rounds_done round
  | case5 c r slash spelled valid tail goes opened ih =>
      intro t proper
      obtain rfl : c = '\\' := by simpa using slash
      have round := takes_textRound_escape (t := t) goes opened form proper
      rw [valid] at round
      exact takes_rounds_more round (by simp) (ih _ proper)
  | case6 c r slash spelled invalid tail goes opened ih =>
      intro t proper
      obtain rfl : c = '\\' := by simpa using slash
      have round := takes_textRound_escape (t := t) goes opened form proper
      rw [invalid] at round
      rw [faulty]
      exact takes_rounds_more round (by simp) (ih _ false)
  | case7 c r plain tail goes opened ih =>
      intro t proper
      have other : ¬ (some c == some '\\') = true := by simpa using plain
      have round : (textRound style form proper).Takes t (c :: r) (.inl proper) ⟨[c], r⟩ :=
        takes_look_bind 0 (takes_else goes (takes_hasText_bind _ (takes_else opened
          (takes_else other (takes_char_cons.bind_pure rfl)))))
      exact takes_rounds_more round (by simp) (ih _ proper)

theorem completes_text {quote : Char} (line : quote ≠ '\n') (r : List Char) :
    (text quote).Completes [quote] r (Lexeme.quoted quote r) := by
  have apart : '\n' ≠ quote := line.symm
  rw [Lexeme.quoted]
  by_cases triple : [quote, quote].isPrefixOf r = true
  · obtain ⟨s, rfl⟩ := List.isPrefixOf_iff_prefix.mp triple
    have passed : (sameLine 2).Takes [quote] ([quote, quote] ++ s) () ⟨[quote, quote], s⟩ :=
      takes_sameLine (w := [quote, quote]) (by simpa using apart)
    rw [if_pos triple]
    exact ⟨_, _, takes_has_bind 0 quote (takes_has_bind 1 quote (takes_then (by simp)
      (passed.bind (takes_textRounds (by simpa using apart) _ s _ true)))), rfl⟩
  · have single : ¬ ((r[0]? == some quote) && (r[1]? == some quote)) = true := by
      intro both
      match r with
      | [] => simp at both
      | [a] => simp at both
      | a :: b :: r => simp_all
    rw [if_neg triple]
    exact ⟨_, _, takes_has_bind 0 quote (takes_has_bind 1 quote (takes_else single
      (takes_textRounds (by simpa using apart) _ r _ true))), rfl⟩

end Scan

end TagLang
