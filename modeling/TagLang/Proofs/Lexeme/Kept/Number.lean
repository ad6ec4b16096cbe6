import TagLang.Lexeme.Number
import TagLang.Proofs.Lexeme.Kept.Basic

/-!
# Words and numbers cut short behind them

The parts of a number are optional, and each is asked for by characters that it takes. So
a number is a chain of recognizers that refuse or keep, and is itself kept.
-/

namespace TagLang

namespace Lexeme

section Words

theorem size_run_le_wordSpan (s : List Char) :
    (Cut.run isWordBody s).size ≤ (wordSpan s).size := by
  rw [wordSpan, Cut.size_andThen]
  exact Nat.le_add_right _ _

theorem keeps_wordSpan : Cut.Keeps wordSpan := by
  intro t s h
  have apostrophe : Cut.Keeps (Cut.one (· == '\'')) := Cut.keeps_one _
  have body := Cut.keeps_run _ t s (Nat.le_trans (size_run_le_wordSpan _) h)
  rw [wordSpan, body] at h ⊢
  exact apostrophe.andThen (Cut.of_run _ t) h

theorem keeps_word : Keeps word := by
  intro t s h
  simp only [word] at h ⊢
  split at h
  · rename_i anonymous
    have body := Cut.keeps_run _ t s h
    rw [body, Cut.text_extend] at anonymous
    simp only [body, Cut.text_extend, if_pos anonymous, ofCut_extend]
  · rename_i named
    have span := keeps_wordSpan t s h
    have body := Cut.keeps_run _ t s (Nat.le_trans (size_run_le_wordSpan _) h)
    rw [body, Cut.text_extend] at named
    simp only [body, span, Cut.text_extend, if_neg named, ofCut_extend]

/-- The tag behind a `#` that is part of the text. -/
theorem hashTag?_keeps {t s : List Char} (h : ∀ x ∈ hashTag? (t ++ s), x.size ≤ t.length + 1) :
    hashTag? (t ++ s) = (hashTag? t).map (extend · s) := by
  cases t with
  | nil =>
    cases s with
    | nil => rfl
    | cons c s =>
      simp only [List.nil_append, hashTag?] at h ⊢
      split
      · rename_i begins
        have letter : isWordBody c = true := by
          rcases Bool.or_eq_true_iff.mp begins with letter | score
          · exact isWordBody_of_isAlphabetic letter
          · simp [isWordBody, score]
        rw [if_pos begins] at h
        have taken := h _ rfl
        have more := size_run_le_wordSpan (c :: s)
        rw [Cut.size_run_cons _ letter] at more
        rw [size_ofCut, Cut.size_after] at taken
        simp at taken
        omega
      · rfl
  | cons c t =>
    simp only [List.cons_append, hashTag?] at h ⊢
    split
    · rename_i begins
      rw [if_pos begins] at h
      have taken := h _ rfl
      have span := keeps_wordSpan (c :: t) s (by simpa [Nat.add_comm] using taken)
      rw [List.cons_append] at span
      rw [span]
      rfl
    · rfl

end Words

section Numbers

theorem size_run_pos {p q : Char → Bool} (sub : ∀ c, p c = true → q c = true) (c : Char)
    (r : List Char) (h : p c = true) : 0 < (Cut.run q (c :: r)).size := by
  rw [Cut.size_run_cons q (sub c h)]
  exact Nat.succ_pos _

/-- A run of digits behind a first one. -/
def someDigits : List Char → Option Cut := Cut.guarded Char.isDigit (Cut.run Char.isDigit)

theorem keepsSome_someDigits : Cut.KeepsSome someDigits :=
  .guarded (Cut.keeps_run _) (size_run_pos fun _ h => h)

theorem dotDigits?_eq :
    dotDigits? = Cut.behind (· == '.') (Cut.guarded Char.isDigit (Cut.run isDigitOrUnderscore)) := by
  funext t
  match t with
  | [] => rfl
  | [c] => by_cases dot : c = '.' <;> simp [dotDigits?, Cut.behind, Cut.guarded, dot]
  | c :: d :: t =>
    by_cases dot : c = '.' <;> by_cases digit : d.isDigit = true <;>
      simp [dotDigits?, Cut.behind, Cut.guarded, dot, digit]

theorem isDigitOrUnderscore_of_isDigit {c : Char} (h : c.isDigit = true) :
    isDigitOrUnderscore c = true := by
  rw [isDigitOrUnderscore, h, Bool.true_or]

theorem keepsSome_dotDigits? : Cut.KeepsSome dotDigits? := by
  rw [dotDigits?_eq]
  exact .behind (.guarded (Cut.keeps_run _)
    (size_run_pos fun _ => isDigitOrUnderscore_of_isDigit))

theorem exponent?_eq :
    exponent? = Cut.behind (fun c => c == 'e' || c == 'E')
      (Cut.either someDigits (Cut.behind (fun c => c == '+' || c == '-') someDigits)) := by
  funext t
  match t with
  | [] => rfl
  | [e] => simp [exponent?, Cut.behind, Cut.either, someDigits, Cut.guarded]
  | [e, d] =>
    by_cases digit : d.isDigit = true <;>
      simp [exponent?, Cut.behind, Cut.either, someDigits, Cut.guarded, digit]
  | e :: d :: d' :: t =>
    by_cases digit : d.isDigit = true <;> by_cases digit' : d'.isDigit = true <;>
      simp [exponent?, Cut.behind, Cut.either, someDigits, Cut.guarded, digit, digit']
    rfl

theorem keepsSome_exponent? : Cut.KeepsSome exponent? := by
  rw [exponent?_eq]
  exact .behind (.either keepsSome_someDigits (.behind keepsSome_someDigits))

theorem label_eq (introducer : Char) :
    label introducer = fun t => (Cut.behind (· == introducer)
      (Cut.either (Cut.guarded Unicode.isAlphabetic (Cut.run isWordBody)) someDigits) t).getD
        (Cut.nothing t) := by
  funext t
  match t with
  | [] => rfl
  | [i] => by_cases same : i = introducer <;>
      simp [label, Cut.behind, Cut.either, someDigits, Cut.guarded, same]
  | i :: c :: t =>
    by_cases same : i = introducer <;> by_cases letter : Unicode.isAlphabetic c = true <;>
      by_cases digit : c.isDigit = true <;>
      simp [label, Cut.behind, Cut.either, someDigits, Cut.guarded, same, letter, digit]

theorem keeps_label (introducer : Char) : Cut.Keeps (label introducer) := by
  rw [label_eq]
  exact Cut.KeepsSome.getD (.behind (.either (.guarded (Cut.keeps_run _)
    (size_run_pos fun _ => isWordBody_of_isAlphabetic)) keepsSome_someDigits))

/-- The digits of a base behind its letter. -/
def radixDigits (letter digit : Char → Bool) : List Char → Option Cut :=
  Cut.behind (· == '0') (Cut.behind letter
    (Cut.guarded digit (Cut.run fun c => digit c || c == '_')))

theorem keepsSome_radixDigits (letter digit : Char → Bool) :
    Cut.KeepsSome (radixDigits letter digit) :=
  .behind (.behind (.guarded (Cut.keeps_run _)
    (size_run_pos fun _ h => by rw [h, Bool.true_or])))

theorem radixInteger?_eq (t : List Char) :
    radixInteger? t =
      ((radixDigits (fun c => c == 'b' || c == 'B') isBit t).map
        (ofCut (.literal .binaryInteger))).or
      ((radixDigits (fun c => c == 'x' || c == 'X') isHexDigit t).map
        (ofCut (.literal .hexInteger))) := by
  match t with
  | [] => rfl
  | [z] => by_cases zero : z = '0' <;> simp [radixInteger?, radixDigits, Cut.behind, zero]
  | [z, x] =>
    by_cases zero : z = '0' <;> simp [radixInteger?, radixDigits, Cut.behind, Cut.guarded, zero]
  | z :: x :: d :: t =>
    by_cases zero : z = '0'
    · subst zero
      by_cases bit : isBit d = true <;> by_cases hex : isHexDigit d = true <;>
        simp [radixInteger?, radixDigits, Cut.behind, Cut.guarded, bit, hex]
      all_goals split <;> rfl
    · simp [radixInteger?, radixDigits, Cut.behind, zero]

theorem radixInteger?_keeps {t s : List Char}
    (h : ∀ x ∈ radixInteger? (t ++ s), x.size ≤ t.length) :
    radixInteger? (t ++ s) = (radixInteger? t).map (extend · s) := by
  have binary := keepsSome_radixDigits (fun c => c == 'b' || c == 'B') isBit
  have hex := keepsSome_radixDigits (fun c => c == 'x' || c == 'X') isHexDigit
  rw [radixInteger?_eq] at h ⊢
  rw [radixInteger?_eq]
  cases found : radixDigits (fun c => c == 'b' || c == 'B') isBit (t ++ s) with
  | some x =>
    rw [found] at h
    obtain ⟨y, first, rfl⟩ := binary.exists_eq found (h _ rfl)
    rw [first]
    rfl
  | none =>
    rw [found] at h
    rw [binary.eq_none found]
    cases other : radixDigits (fun c => c == 'x' || c == 'X') isHexDigit (t ++ s) with
    | some x =>
      rw [other] at h
      obtain ⟨y, second, rfl⟩ := hex.exists_eq other (h _ rfl)
      rw [second]
      rfl
    | none =>
      rw [hex.eq_none other]
      rfl

/-- A suffix of a number. -/
def suffixed (s : List Char) : Lexeme := ofCut (.literal .number) (Cut.one isNumberSuffix s)

/-- The suffixes of an integer. -/
def integral (s : List Char) : Lexeme :=
  ofCut (.literal .decimalInteger)
    ((Cut.one (fun c => c == 'u' || c == 'U') s).andThen (Cut.one isIntegerSuffix))

/-- The labels of a version. -/
def labelled (s : List Char) : Lexeme :=
  ofCut (.literal .version) ((label '-' s).andThen (label '+'))

/-- What follows the first digits of a decimal. -/
def decimalTail : List Char → Lexeme :=
  branch dotDigits? (branch dotDigits? labelled (branch exponent? suffixed suffixed))
    (branch exponent? suffixed integral)

theorem decimal_eq (s : List Char) :
    decimal s = (decimalTail (Cut.run isDigitOrUnderscore s).rest).after
      (Cut.run isDigitOrUnderscore s).text := by
  simp only [decimal, decimalTail, branch]
  generalize Cut.run isDigitOrUnderscore s = whole
  cases dotDigits? whole.rest with
  | some minor =>
    dsimp only
    cases dotDigits? minor.rest with
    | some patch => simp [labelled, ofCut, after, Cut.after, Cut.andThen]
    | none =>
      dsimp only
      cases exponent? minor.rest <;> simp [suffixed, ofCut, after, Cut.after, Cut.andThen, Cut.nothing]
  | none =>
    dsimp only
    cases exponent? whole.rest with
    | some e => simp [suffixed, ofCut, after, Cut.after, Cut.andThen]
    | none => simp [integral, ofCut, after, Cut.after, Cut.andThen]

theorem keeps_decimalTail : Keeps decimalTail := by
  have suffix : Keeps suffixed := .ofCut (Cut.keeps_one _) _
  have labels : Keeps labelled :=
    .ofCut ((keeps_label '-').then (of_label '-') (keeps_label '+')) _
  have integer : Keeps integral :=
    .ofCut ((Cut.keeps_one _).then (Cut.of_one _) (Cut.keeps_one _)) _
  have scaled : Keeps (branch exponent? suffixed suffixed) :=
    .branch keepsSome_exponent? of_exponent? suffix suffix
  have fraction := Keeps.branch keepsSome_dotDigits? of_dotDigits? labels scaled
  have whole := Keeps.branch keepsSome_exponent? of_exponent? suffix integer
  exact .branch keepsSome_dotDigits? of_dotDigits? fraction whole

theorem keeps_decimal : Keeps decimal := by
  intro t s h
  have digits : Cut.Keeps (Cut.run isDigitOrUnderscore) := Cut.keeps_run _
  rw [decimal_eq] at h ⊢
  rw [decimal_eq]
  have le : (Cut.run isDigitOrUnderscore (t ++ s)).size ≤ t.length := by
    rw [size_after] at h
    exact Nat.le_trans (Nat.le_add_right _ _) h
  rw [digits t s le] at h ⊢
  exact keeps_decimalTail.behind (Cut.of_run _ t) h

theorem keeps_number : Keeps number := by
  intro t s h
  unfold number at h ⊢
  cases found : radixInteger? (t ++ s) with
  | some x =>
    rw [found] at h
    have kept := radixInteger?_keeps (t := t) (s := s) (by rw [found]; rintro _ ⟨rfl⟩; exact h)
    rw [found] at kept
    obtain ⟨y, shorter, rfl⟩ := Option.map_eq_some_iff.mp kept.symm
    rw [shorter]
    rfl
  | none =>
    have kept := radixInteger?_keeps (t := t) (s := s) (by rw [found]; rintro _ ⟨⟩)
    rw [found] at h kept
    rw [Option.map_eq_none_iff.mp kept.symm]
    exact keeps_decimal t s h

end Numbers

end Lexeme

end TagLang
