import TagLang.Lexeme.Number
import TagLang.Scan.Basic

/-!
# Scanning numbers and versions

A number is scanned from behind its first digit. A part is entered only when the
characters ahead show that it is complete, so no part is ever given back.
-/

namespace TagLang.Scan

/-- Whether a dot with a digit behind it comes next. -/
def dotDigitNext : Scan Bool := do
  return (← has 1 '.') && (← look 2).any Char.isDigit

/-- The dot and the digits behind it. -/
def dotDigits : Scan Unit := do
  sameLine 1
  advanceWhile Lexeme.isDigitOrUnderscore

/-- An exponent if a complete one comes next, and whether one did. -/
def exponent : Scan Bool := do
  if (← look 1).any fun c => c == 'e' || c == 'E' then
    if (← look 2).any Char.isDigit then
      sameLine 1
      advanceWhile Char.isDigit
      return true
    else if ((← look 2).any fun c => c == '+' || c == '-') && (← look 3).any Char.isDigit then
      sameLine 2
      advanceWhile Char.isDigit
      return true
    else return false
  else return false

/-- A label behind this introducer, if one comes next. -/
def versionLabel (introducer : Char) : Scan Unit := do
  if ← has 1 introducer then
    if (← look 2).any Unicode.isAlphabetic then
      sameLine 1
      advanceWhile isWordBody
    else if (← look 2).any Char.isDigit then
      sameLine 1
      advanceWhile Char.isDigit

/-- A decimal integer, a number or a version behind its first digit. -/
def decimal : Scan TokenKind := do
  advanceWhile Lexeme.isDigitOrUnderscore
  if ← dotDigitNext then
    dotDigits
    if ← dotDigitNext then
      dotDigits
      versionLabel '-'
      versionLabel '+'
      return .literal .version
    else
      let _ ← exponent
      let _ ← advanceIf Lexeme.isNumberSuffix
      return .literal .number
  else if ← exponent then
    let _ ← advanceIf Lexeme.isNumberSuffix
    return .literal .number
  else
    let _ ← advanceIf fun c => c == 'u' || c == 'U'
    let _ ← advanceIf Lexeme.isIntegerSuffix
    return .literal .decimalInteger

/-- A number behind its first digit. -/
def number (first : Char) : Scan TokenKind := do
  if first == '0' then
    let radix ← look 1
    let leading ← look 2
    if (radix.any fun c => c == 'b' || c == 'B') && leading.any Lexeme.isBit then
      sameLine 1
      advanceWhile fun c => Lexeme.isBit c || c == '_'
      return .literal .binaryInteger
    else if (radix.any fun c => c == 'x' || c == 'X') && leading.any isHexDigit then
      sameLine 1
      advanceWhile fun c => isHexDigit c || c == '_'
      return .literal .hexInteger
    else decimal
  else decimal

variable {t s : List Char}

theorem takes_dotDigitNext (s : List Char) :
    dotDigitNext.Takes t s (Lexeme.dotDigits? s).isSome (.nothing s) := by
  have looked : dotDigitNext.Takes t s _ _ :=
    takes_has_bind 0 '.' (takes_look_bind 1 (takes_pure _))
  suffices same : (s[0]? == some '.' && s[1]?.any Char.isDigit) = (Lexeme.dotDigits? s).isSome by
    rwa [same] at looked
  unfold Lexeme.dotDigits?
  split
  · rename_i d r
    cases h : d.isDigit <;> simp [h]
  · rename_i other
    match s with
    | [] => rfl
    | [c] => simp
    | c :: d :: r =>
        have apart : c ≠ '.' := fun h => other d r (by rw [h])
        simp [apart]

theorem takes_dotDigits {x : Cut} (h : Lexeme.dotDigits? s = some x) :
    dotDigits.Takes t s () x := by
  unfold Lexeme.dotDigits? at h
  split at h
  · rename_i d r
    split at h
    · cases h
      exact (takes_sameLine (w := ['.']) (by decide)).bind (takes_advanceWhile _ _)
    · cases h
  · cases h

theorem takes_exponent (s : List Char) :
    exponent.Takes t s (Lexeme.exponent? s).isSome ((Lexeme.exponent? s).getD (.nothing s)) := by
  fun_cases Lexeme.exponent? s with
  | case1 e mark d r digit =>
      have letter : (sameLine 1).Takes t (e :: d :: r) () ⟨[e], d :: r⟩ :=
        takes_sameLine_one (q := fun e => e == 'e' || e == 'E') mark rfl
      exact takes_look_bind 0 (takes_then mark (takes_look_bind 1 (takes_then digit
        (letter.bind ((takes_advanceWhile _ _).bind_pure rfl)))))
  | case2 e mark d plain sign d' r digit =>
      have line : '\n' ∉ [e, d] := by
        intro h
        simp only [List.mem_cons, List.not_mem_nil, or_false] at h
        rcases h with rfl | rfl
        · exact absurd mark (by decide)
        · exact absurd sign (by decide)
      have signed : (sameLine 2).Takes t (e :: d :: d' :: r) () ⟨[e, d], d' :: r⟩ :=
        takes_sameLine (w := [e, d]) line
      exact takes_look_bind 0 (takes_then mark (takes_look_bind 1 (takes_else plain
        (takes_look_bind 1 (takes_look_bind 2 (takes_then (Bool.and_eq_true_iff.mpr ⟨sign, digit⟩)
          (signed.bind ((takes_advanceWhile _ _).bind_pure rfl))))))))
  | case3 e mark d plain _ d' r other =>
      exact takes_look_bind 0 (takes_then mark (takes_look_bind 1 (takes_else plain
        (takes_look_bind 1 (takes_look_bind 2 (takes_else (by simp [other]) (takes_pure _)))))))
  | case4 e mark d plain =>
      exact takes_look_bind 0 (takes_then mark (takes_look_bind 1 (takes_else plain
        (takes_look_bind 1 (takes_look_bind 2 (takes_else (by simp) (takes_pure _)))))))
  | case5 e mark d r plain other =>
      exact takes_look_bind 0 (takes_then mark (takes_look_bind 1 (takes_else plain
        (takes_look_bind 1 (takes_look_bind 2 (takes_else (by simp_all) (takes_pure _)))))))
  | case6 e mark =>
      exact takes_look_bind 0 (takes_then mark (takes_look_bind 1 (takes_else (by simp)
        (takes_look_bind 1 (takes_look_bind 2 (takes_else (by simp) (takes_pure _)))))))
  | case7 e r other => exact takes_look_bind 0 (takes_else other (takes_pure _))
  | case8 => exact takes_look_bind 0 (takes_pure _)

theorem takes_versionLabel {introducer : Char} (line : introducer ≠ '\n') (s : List Char) :
    (versionLabel introducer).Takes t s () (Lexeme.label introducer s) := by
  have passed {i c : Char} {r : List Char} (h : (i == introducer) = true) :
      (sameLine 1).Takes t (i :: c :: r) () ⟨[i], c :: r⟩ :=
    takes_sameLine_one (q := (· == introducer)) h (by simpa using line.symm)
  fun_cases Lexeme.label introducer s with
  | case1 i c r here letter =>
      exact takes_has_bind 0 introducer (takes_then here (takes_look_bind 1 (takes_then letter
        ((passed here).bind (takes_advanceWhile _ _)))))
  | case2 i c r here other digit =>
      exact takes_has_bind 0 introducer (takes_then here (takes_look_bind 1 (takes_else other
        (takes_look_bind 1 (takes_then digit ((passed here).bind (takes_advanceWhile _ _)))))))
  | case3 i c r here other plain =>
      exact takes_has_bind 0 introducer (takes_then here (takes_look_bind 1 (takes_else other
        (takes_look_bind 1 (takes_else plain (takes_pure ()))))))
  | case4 i c r other =>
      exact takes_has_bind 0 introducer (takes_else (by simpa using other) (takes_pure ()))
  | case5 s short =>
      match s with
      | [] => exact takes_has_bind 0 introducer (takes_else (by simp) (takes_pure ()))
      | [i] =>
          by_cases here : i = introducer
          · subst here
            exact takes_has_bind 0 i (takes_then (by simp) (takes_look_bind 1 (takes_else (by simp)
              (takes_look_bind 1 (takes_else (by simp) (takes_pure ()))))))
          · exact takes_has_bind 0 introducer (takes_else (by simpa using here) (takes_pure ()))
      | i :: c :: r => exact absurd rfl (short i c r)

theorem completes_decimal {d : Char} (h : d.isDigit = true) (r : List Char) :
    decimal.Completes [d] r (Lexeme.decimal (d :: r)) := by
  have digit : Lexeme.isDigitOrUnderscore d = true := by simp [Lexeme.isDigitOrUnderscore, h]
  have minus {t : List Char} (s : List Char) :
      (versionLabel '-').Takes t s () (Lexeme.label '-' s) := takes_versionLabel (by decide) s
  have plus {t : List Char} (s : List Char) :
      (versionLabel '+').Takes t s () (Lexeme.label '+' s) := takes_versionLabel (by decide) s
  have dotNext {t s : List Char} {x : Cut} (some : Lexeme.dotDigits? s = some x) :
      dotDigitNext.Takes t s true (.nothing s) := by
    have looked := takes_dotDigitNext (t := t) s
    rwa [some] at looked
  have noDot {t s : List Char} (none : Lexeme.dotDigits? s = none) :
      dotDigitNext.Takes t s false (.nothing s) := by
    have looked := takes_dotDigitNext (t := t) s
    rwa [none] at looked
  have suffix {t : List Char} (s : List Char) :
      (advanceIf Lexeme.isNumberSuffix).Takes t s _ (Cut.one Lexeme.isNumberSuffix s) :=
    takes_advanceIf _ s
  have whole := takes_advanceWhile (t := [d]) Lexeme.isDigitOrUnderscore r
  rw [Lexeme.decimal, Cut.run_cons digit]
  simp only [Cut.rest_after]
  cases first : Lexeme.dotDigits? (Cut.run Lexeme.isDigitOrUnderscore r).rest with
  | some minor =>
      cases second : Lexeme.dotDigits? minor.rest with
      | some patch =>
          refine ⟨_, _, whole.bind ((dotNext first).bind_nothing ((takes_dotDigits first).bind
            ((dotNext second).bind_nothing ((takes_dotDigits second).bind ((minus _).bind
              ((plus _).bind_pure rfl)))))), ?_⟩
          simp [Cut.andThen, Cut.after, second]
      | none =>
          refine ⟨_, _, whole.bind ((dotNext first).bind_nothing ((takes_dotDigits first).bind
            ((noDot second).bind_nothing ((takes_exponent _).bind
              ((suffix _).bind_pure rfl))))), ?_⟩
          simp [Cut.andThen, Cut.after, second]
  | none =>
      cases scaled : Lexeme.exponent? (Cut.run Lexeme.isDigitOrUnderscore r).rest with
      | some x =>
          have taken {t : List Char} :
              exponent.Takes t (Cut.run Lexeme.isDigitOrUnderscore r).rest true x := by
            have looked := takes_exponent (t := t) (Cut.run Lexeme.isDigitOrUnderscore r).rest
            rwa [scaled] at looked
          refine ⟨_, _, whole.bind ((noDot first).bind_nothing (taken.bind
            ((suffix _).bind_pure rfl))), ?_⟩
          simp [Cut.andThen, Cut.after]
      | none =>
          have none {t : List Char} : exponent.Takes t (Cut.run Lexeme.isDigitOrUnderscore r).rest
              false (.nothing (Cut.run Lexeme.isDigitOrUnderscore r).rest) := by
            have looked := takes_exponent (t := t) (Cut.run Lexeme.isDigitOrUnderscore r).rest
            rwa [scaled] at looked
          refine ⟨_, _, whole.bind ((noDot first).bind_nothing (none.bind_nothing
            ((takes_advanceIf _ _).bind ((takes_advanceIf _ _).bind_pure rfl)))), ?_⟩
          simp [Cut.andThen, Cut.after]

theorem completes_number {d : Char} (h : d.isDigit = true) (r : List Char) :
    (number d).Completes [d] r (Lexeme.number (d :: r)) := by
  obtain ⟨kind, y, plain, joined⟩ := completes_decimal h r
  by_cases zero : d = '0'
  · subst zero
    -- Without a radix letter and a digit of its base the zero is a decimal digit.
    have other (bits : ¬ ((r[0]?.any fun c => c == 'b' || c == 'B') &&
          r[1]?.any Lexeme.isBit) = true)
        (hexes : ¬ ((r[0]?.any fun c => c == 'x' || c == 'X') && r[1]?.any isHexDigit) = true) :
        (number '0').Takes ['0'] r kind y :=
      takes_then (by decide) (takes_look_bind 0 (takes_look_bind 1 (takes_else bits
        (takes_else hexes plain))))
    match r with
    | [] => exact ⟨kind, y, other (by simp) (by simp), joined⟩
    | [x] => exact ⟨kind, y, other (by simp) (by simp), joined⟩
    | x :: b :: r' =>
        rw [Lexeme.number, Lexeme.radixInteger?]
        by_cases bits : ((x == 'b' || x == 'B') && Lexeme.isBit b) = true
        · have radix : (sameLine 1).Takes ['0'] (x :: b :: r') () ⟨[x], b :: r'⟩ :=
            takes_sameLine_one (q := fun c => c == 'b' || c == 'B')
              (Bool.and_eq_true_iff.mp bits).1 rfl
          rw [if_pos bits]
          exact ⟨_, _, takes_then (by decide) (takes_look_bind 0 (takes_look_bind 1
            (takes_then bits (radix.bind ((takes_advanceWhile _ _).bind_pure rfl))))), rfl⟩
        · rw [if_neg bits]
          by_cases hexes : ((x == 'x' || x == 'X') && isHexDigit b) = true
          · have radix : (sameLine 1).Takes ['0'] (x :: b :: r') () ⟨[x], b :: r'⟩ :=
              takes_sameLine_one (q := fun c => c == 'x' || c == 'X')
                (Bool.and_eq_true_iff.mp hexes).1 rfl
            rw [if_pos hexes]
            exact ⟨_, _, takes_then (by decide) (takes_look_bind 0 (takes_look_bind 1
              (takes_else bits (takes_then hexes
                (radix.bind ((takes_advanceWhile _ _).bind_pure rfl)))))), rfl⟩
          · rw [if_neg hexes]
            exact ⟨kind, y, other bits hexes, joined⟩
  · have value : Lexeme.number (d :: r) = Lexeme.decimal (d :: r) := by
      rw [Lexeme.number, Lexeme.radixInteger?]
      · rfl
      · simp [zero]
    rw [value]
    exact ⟨kind, y, takes_else (by simpa using zero) plain, joined⟩

end TagLang.Scan
