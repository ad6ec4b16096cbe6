import TagLang.Proofs.Lexeme.Fixed
import TagLang.Proofs.Lexeme.Replaced

/-!
# The kinds of words

A word takes the longest run of word characters that begins a text, and an apostrophe behind
it. What it is called depends on its spelling alone: reserved spellings are reserved words,
other words are identifiers if at most two underscores stand in front of a letter, and all
that is left is a fault.
-/

namespace TagLang

/-- The text begins with these word characters, and with no longer run of them. -/
structure LongestBody (w s : List Char) : Prop where
  begins : w <+: s
  body : ∀ c ∈ w, isWordBody c = true
  longest : ∀ v, v <+: s → (∀ c ∈ v, isWordBody c = true) → v.length ≤ w.length

/-- Zero, one or two underscores begin the text, and a letter stands behind them. -/
def Named (w : List Char) : Prop :=
  ∃ n ≤ 2, ∃ c, Unicode.isAlphabetic c = true ∧ List.replicate n '_' ++ [c] <+: w

/-- The spelling of a reserved word. -/
def Reserved (text : List Char) : Prop := ∃ k : Keyword, text = k.spelling

/-- The kind of a word by its run of word characters and its whole text. -/
inductive WordKind (w text : List Char) : TokenKind → Prop
  | reserved (k : Keyword) (spelled : text = k.spelling) : WordKind w text (.word k)
  | identifier (free : ¬ Reserved text) (named : Named w) : WordKind w text .identifier
  | invalid (free : ¬ Reserved text) (nameless : ¬ Named w) :
    WordKind w text (.fault .invalidIdentifier)

/-- The apostrophe that a text begins with, if it begins with one. -/
def apostrophe (s : List Char) : List Char := if ['\''] <+: s then ['\''] else []

variable {w s : List Char} {c : Char}

/-- The longest run is the one that is cut off. -/
theorem LongestBody.eq_run (h : LongestBody w s) : Cut.run isWordBody s = ⟨w, s.drop w.length⟩ := by
  obtain ⟨⟨r, rfl⟩, body, longest⟩ := h
  have stop : r.head?.any isWordBody = false := by
    cases r with
    | nil => rfl
    | cons c r =>
      refine Bool.eq_false_iff.mpr fun more => ?_
      have longer := longest (w ++ [c]) ⟨r, by simp⟩
        (List.forall_mem_append.mpr ⟨body, List.forall_mem_singleton.mpr more⟩)
      rw [List.length_append] at longer
      exact absurd longer (Nat.not_succ_le_self _)
  rw [Cut.run_append (List.all_eq_true.mpr body) stop, List.drop_left]

/-- A run is the longest one where the next character is none of a word. -/
theorem longestBody_append {r : List Char} (body : ∀ c ∈ w, isWordBody c = true)
    (stop : r.head?.any isWordBody = false) : LongestBody w (w ++ r) := by
  refine ⟨List.prefix_append w r, body, fun v begins all => ?_⟩
  rcases List.prefix_or_prefix_of_prefix begins (List.prefix_append w r) with inside | ⟨u, rfl⟩
  · exact inside.length_le
  · have rest : u <+: r := (List.prefix_append_right_inj w).mp begins
    cases u with
    | nil => simp
    | cons c u =>
      obtain ⟨t, rfl⟩ := rest
      have more : isWordBody c = true := all c (by simp)
      exact absurd more (Bool.eq_false_iff.mp stop)

theorem ofSpelling?_eq_none_iff : Keyword.ofSpelling? s = none ↔ ¬ Reserved s := by
  rw [Option.eq_none_iff_forall_ne_some, Reserved, not_exists]
  exact forall_congr' fun _ => not_congr Keyword.ofSpelling?_eq_some_iff

namespace Lexeme

theorem beginsName_iff : beginsName s = true ↔ Named s := by
  constructor
  · intro h
    unfold beginsName at h
    split at h
    · exact ⟨2, Nat.le_refl 2, _, h, List.prefix_append _ _⟩
    · exact ⟨1, by decide, _, h, List.prefix_append _ _⟩
    · exact ⟨0, by decide, _, h, List.prefix_append _ _⟩
    · cases h
  · rintro ⟨n, le, c, letter, r, rfl⟩
    have apart : c ≠ '_' := by
      rintro rfl
      exact absurd letter (by decide)
    match n, le with
    | 0, _ => simp [beginsName, apart, letter]
    | 1, _ => simp [beginsName, apart, letter]
    | 2, _ => exact letter

/-- An apostrophe is no letter, so none makes a name of a word. -/
theorem named_append_apostrophe (w s : List Char) : Named (w ++ apostrophe s) ↔ Named w := by
  constructor
  · rintro ⟨n, le, c, letter, begins⟩
    refine ⟨n, le, c, letter, ?_⟩
    unfold apostrophe at begins
    split at begins
    · rcases List.prefix_concat_iff.mp begins with whole | inside
      · have last : c = '\'' := List.singleton_inj.mp (List.append_inj_right' whole rfl)
        exact absurd letter (by rw [last]; decide)
      · exact inside
    · rwa [List.append_nil] at begins
  · rintro ⟨n, le, c, letter, begins⟩
    exact ⟨n, le, c, letter, begins.trans (List.prefix_append w _)⟩

theorem text_wordSpan (longest : LongestBody w s) :
    (wordSpan s).text = w ++ apostrophe (s.drop w.length) := by
  rw [wordSpan, longest.eq_run, Cut.andThen, Cut.text_after]
  generalize s.drop w.length = r
  cases r with
  | nil => simp [apostrophe, Cut.one, Cut.nothing]
  | cons c r =>
    by_cases mark : c = '\''
    · subst mark
      simp [apostrophe, Cut.one]
    · simp [apostrophe, Cut.one, Cut.nothing, mark, Ne.symm mark]

/-- The kind of a word other than the single underscore. -/
theorem wordKind_spec (w r : List Char) :
    WordKind w (w ++ apostrophe r) (wordKind (w ++ apostrophe r)) := by
  unfold wordKind
  split
  · rename_i k spelled
    exact .reserved k (Keyword.ofSpelling?_eq_some_iff.mp spelled)
  · rename_i free
    have free := ofSpelling?_eq_none_iff.mp free
    split
    · rename_i named
      exact .identifier free ((named_append_apostrophe w r).mp (beginsName_iff.mp named))
    · rename_i nameless
      refine .invalid free fun named => nameless ?_
      exact beginsName_iff.mpr ((named_append_apostrophe w r).mpr named)

theorem read_of_word (start : (Unicode.isAlphabetic c || c == '_') = true) (r : List Char) :
    read (c :: r) = word (c :: r) := by
  have solid : ¬ isBlank c = true := by
    intro blank
    rcases Bool.or_eq_true_iff.mp start with letter | underscore
    · rw [seamless_isAlphabetic.eq_false (by rw [isSeam, blank]; rfl)] at letter
      cases letter
    · obtain rfl := beq_iff_eq.mp underscore
      cases blank
  rw [read, if_neg solid, if_pos start]

/-- A word is no trivia, whatever its kind. -/
theorem isTrivia_word (s : List Char) : (word s).kind.isTrivia = false := by
  unfold word
  dsimp only
  split
  · rfl
  · rw [ofCut, wordKind]
    split
    · rfl
    · split <;> rfl

theorem word_of_underscore (longest : LongestBody ['_'] s) :
    word s = ⟨.literal .anonymous, ['_'], s.drop 1⟩ := by
  rw [word, longest.eq_run]
  rfl

theorem word_of_ne_underscore (longest : LongestBody w s) (other : w ≠ ['_']) :
    (word s).text = w ++ apostrophe (s.drop w.length) ∧ WordKind w (word s).text (word s).kind := by
  have text := text_wordSpan longest
  rw [word, longest.eq_run]
  dsimp only
  rw [if_neg other]
  refine ⟨text, ?_⟩
  rw [ofCut, text]
  exact wordKind_spec w _

/-- What is spelled as a reserved word is one. -/
theorem isKeyword_word_of_reserved (reserved : Reserved (word s).text) :
    (word s).kind.isKeyword = true := by
  obtain ⟨k, spelled⟩ := reserved
  unfold word at spelled ⊢
  dsimp only at spelled ⊢
  split
  · rename_i underscore
    rw [if_pos underscore, ofCut, underscore] at spelled
    have other : ['_'] ≠ k.spelling := by cases k <;> decide
    exact absurd spelled other
  · rename_i other
    rw [if_neg other, ofCut] at spelled
    have kind : wordKind (wordSpan s).text = .word k := by
      rw [wordKind, Keyword.ofSpelling?_eq_some_iff.mpr spelled]
    rw [ofCut, kind]
    rfl

theorem isKeyword_read_iff : (read s).kind.isKeyword = true ↔ Reserved (read s).text := by
  constructor
  · intro keyword
    unfold TokenKind.isKeyword at keyword
    split at keyword
    · rename_i k kind
      exact ⟨k, text_read_of_word kind⟩
    · cases keyword
  · intro reserved
    have letter : ∃ c w, (read s).text = c :: w ∧ Unicode.isAlphabetic c = true := by
      obtain ⟨k, spelled⟩ := reserved
      rw [spelled]
      cases k <;> exact ⟨_, _, rfl, by decide⟩
    obtain ⟨c, w, text, letter⟩ := letter
    -- the first letter of the spelling begins the text, so a word is read
    have whole : c :: (w ++ (read s).rest) = s := by
      rw [← List.cons_append, ← text, text_append_rest_read]
    have reads : read s = word s := by
      rw [← whole, read_of_word (by rw [letter]; rfl)]
    rw [reads] at reserved ⊢
    exact isKeyword_word_of_reserved reserved

end Lexeme

end TagLang
