import TagLang.Lexeme.Basic

/-!
# ASCII characters

The first 128 characters can be gone through one by one, so what a closed test says of each
of them holds of every ASCII character. Digits, hexadecimal digits and the letters that a
text of numbers or versions may hold are all among them.
-/

namespace TagLang.Unicode

variable {c : Char}

/-- What holds of the first 128 characters holds of every ASCII character. -/
theorem of_isAscii {p : Char → Bool} (all : ∀ n < 128, p (Char.ofNat n) = true)
    (ascii : isAscii c = true) : p c = true := by
  have small : c.toNat < 128 := by simpa [isAscii] using ascii
  have here := all c.toNat small
  rwa [Char.ofNat_toNat] at here

theorem isAscii_of_le {top : Char} (le : c ≤ top) (ascii : isAscii top = true) :
    isAscii c = true := by
  have le : c.toNat ≤ top.toNat := UInt32.le_iff_toNat_le.mp le
  have small : top.toNat < 128 := by simpa [isAscii] using ascii
  simpa [isAscii] using Nat.lt_of_le_of_lt le small

theorem isAscii_of_isDigit (h : c.isDigit = true) : isAscii c = true :=
  isAscii_of_le (of_decide_eq_true (Bool.and_eq_true_iff.mp h).2) (by decide)

theorem isAscii_of_isLower (h : c.isLower = true) : isAscii c = true :=
  isAscii_of_le (of_decide_eq_true (Bool.and_eq_true_iff.mp h).2) (by decide)

theorem isAscii_of_isUpper (h : c.isUpper = true) : isAscii c = true :=
  isAscii_of_le (of_decide_eq_true h).2 (by decide)

theorem isAscii_of_isHexDigit (h : isHexDigit c = true) : isAscii c = true := by
  simp only [isHexDigit, Bool.or_eq_true, Bool.and_eq_true, decide_eq_true_eq] at h
  rcases h with (digit | ⟨-, lower⟩) | ⟨-, upper⟩
  · exact isAscii_of_isDigit digit
  · exact isAscii_of_le lower (by decide)
  · exact isAscii_of_le upper (by decide)

theorem isWordBody_of_isDigit (h : c.isDigit = true) : isWordBody c = true := by
  simp [isWordBody, isAlphanumeric, isAscii_of_isDigit h, h]

theorem isDigit_of_isAlphabetic (h : isAlphabetic c = true) : c.isDigit = false := by
  rw [Bool.eq_false_iff]
  intro digit
  have classes : (!c.isDigit || !isAlphabetic c) = true :=
    of_isAscii (p := fun c => !c.isDigit || !isAlphabetic c) (by decide) (isAscii_of_isDigit digit)
  simp [digit, h] at classes

theorem not_isAlpha_of_isDigit (h : c.isDigit = true) : ¬ c.isAlpha = true := by
  intro letter
  have classes : (!c.isDigit || !c.isAlpha) = true :=
    of_isAscii (p := fun c => !c.isDigit || !c.isAlpha) (by decide) (isAscii_of_isDigit h)
  simp [h, letter] at classes

end TagLang.Unicode
