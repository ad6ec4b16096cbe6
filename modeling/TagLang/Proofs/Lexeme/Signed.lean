import TagLang.Proofs.Lexeme.Truncated
import TagLang.Proofs.Lexeme.Word

/-!
# Words with a hash in front

A `#` in front of an identifier makes a hash tag of it and of nothing else. In front of words
that stand somewhere behind a lexeme it changes nothing of the lexeme (`read_append_of_signs`):
no lexeme went on into the word, and none goes on over a `#`.
-/

namespace TagLang

variable {c : Char} {r s t : List Char}

/-- The second text is the first one, perhaps with a `#` in front of a word of it and with
anything behind that `#`. -/
inductive Signs (r : List Char) : List Char → Prop
  | same : Signs r r
  | sign {u v s : List Char} (split : r = u ++ v)
      (word : ∃ c w, v = c :: w ∧ (Unicode.isAlphabetic c || c == '_') = true) :
    Signs r (u ++ '#' :: s)

/-- What is signed behind a text is signed in the whole. -/
theorem Signs.behind (h : Signs r s) (w : List Char) : Signs (w ++ r) (w ++ s) := by
  cases h with
  | same => exact .same
  | sign split word =>
    rw [split, ← List.append_assoc, ← List.append_assoc]
    exact .sign rfl word

namespace Lexeme

theorem kind_word_ne_tag (s : List Char) : (word s).kind ≠ .tag := by
  intro tag
  unfold word at tag
  dsimp only at tag
  split at tag
  · cases tag
  · rw [ofCut, wordKind] at tag
    split at tag
    · cases tag
    · split at tag <;> cases tag

/-- A lexeme that is a tag is spelled with a `#`. -/
theorem head?_text_of_tag (tag : (read s).kind = .tag) : (read s).text.head? = some '#' := by
  cases s with
  | nil => cases tag
  | cons c r =>
    obtain ⟨w, text, -⟩ := (splits_read : (read (c :: r)).Splits (c :: r)).exists_cons
    rcases names_cases (by rw [tag]; rfl) with letter | ⟨rfl, -⟩
    · rw [read_of_word letter] at tag
      exact absurd tag (kind_word_ne_tag _)
    · rw [text]
      rfl

/-- An identifier begins with a letter or an underscore. -/
theorem exists_letter_of_identifier (identifier : (read s).kind = .identifier) :
    ∃ c r, s = c :: r ∧ (Unicode.isAlphabetic c || c == '_') = true := by
  cases s with
  | nil => cases identifier
  | cons c r =>
    rcases names_cases (by rw [identifier]; rfl) with letter | ⟨-, hash⟩
    · exact ⟨c, r, rfl, letter⟩
    · cases identifier.symm.trans (kind_of_hashTag? hash)

/-- Behind a `#`, an identifier makes up a hash tag. -/
theorem read_hash (identifier : (read s).kind = .identifier) :
    read ('#' :: s) = ⟨.tag, '#' :: (read s).text, (read s).rest⟩ := by
  obtain ⟨c, r, rfl, letter⟩ := exists_letter_of_identifier identifier
  have span : read (c :: r) = ofCut .identifier (wordSpan (c :: r)) := by
    rw [read_of_word letter, word] at identifier ⊢
    split at identifier
    · cases identifier
    · rename_i other
      rw [if_neg other]
      exact congrArg (fun kind => ofCut kind (wordSpan (c :: r))) identifier
  have tag : hashTag? (c :: r) = some (ofCut .tag ((wordSpan (c :: r)).after ['#'])) :=
    if_pos letter
  have marked : marked? ('#' :: c :: r) = hashTag? (c :: r) := rfl
  rw [read, if_neg (by decide), if_neg (by decide), if_neg (by decide), if_neg (by decide), marked,
    tag, span]
  rfl

/-- A lexeme is read as before where words behind it are signed. -/
theorem read_append_of_signs (ne : t ≠ []) (signs : Signs (read t).rest s) :
    read ((read t).text ++ s) = (read t).before s := by
  obtain ⟨c, t, rfl⟩ := List.exists_cons_of_ne_nil ne
  cases signs with
  | same =>
    rw [text_append_rest_read]
    rfl
  | sign split word =>
    exact read_cut split (.sign word) fun _ => rfl

end Lexeme

end TagLang
