import Mathlib.Data.List.DropRight
import Mathlib.Data.List.Induction
import TagLang.Diagnostic

/-!
# Lines of a text

Line feeds split a text into lines. The line that a place stands on is found by the number of
the place: it consists of the characters in front of the place since the last line feed, as
many as the column says, and of those behind it up to the next one.
-/

namespace TagLang

namespace Text

theorem lines_eq_splitOn (s : List Char) : lines s = s.splitOn '\n' := by
  induction s with
  | nil => rfl
  | cons c s ih =>
    rw [lines, ih, List.splitOn_cons_eq_if_modifyHead]
    by_cases feed : c = '\n'
    · simp [feed]
    · cases split : s.splitOn '\n' with
      | nil => exact absurd split (List.splitOn_ne_nil _ _)
      | cons l ls => simp [feed]

theorem length_splitOn (s : List Char) : (s.splitOn '\n').length = s.count '\n' + 1 := by
  induction s with
  | nil => rfl
  | cons c s ih =>
    rw [List.splitOn_cons_eq_if_modifyHead, List.count_cons]
    by_cases feed : c = '\n'
    · simp [feed, ih]
    · simp [feed, ih]

theorem getElem?_zero_splitOn (s : List Char) :
    (s.splitOn '\n')[0]? = some (s.takeWhile (· ≠ '\n')) := by
  induction s with
  | nil => rfl
  | cons c s ih =>
    rw [List.splitOn_cons_eq_if_modifyHead]
    by_cases feed : c = '\n'
    · simp [feed]
    · simp [feed, List.getElem?_modifyHead, ih]

/-- The line that a text is on after its first part: what this part has since its last line
feed, and what the other part has up to its first. -/
theorem getElem?_splitOn_append (front rest : List Char) :
    ((front ++ rest).splitOn '\n')[front.count '\n']? =
      some ((front.reverse.takeWhile (· ≠ '\n')).reverse ++ rest.takeWhile (· ≠ '\n')) := by
  induction front using List.reverseRecOn generalizing rest with
  | nil => exact getElem?_zero_splitOn rest
  | append_singleton front c ih =>
    rw [List.append_assoc, List.singleton_append, List.count_append, List.reverse_append,
      List.reverse_singleton, List.singleton_append]
    by_cases feed : c = '\n'
    · subst feed
      rw [List.splitOn_append_cons_self, List.getElem?_append_right (by simp [length_splitOn])]
      simpa [length_splitOn] using getElem?_zero_splitOn rest
    · simpa [feed] using ih (c :: rest)

section TrimEnd

variable {p q : Char → Bool} {s t : List Char} {c : Char} {i : Nat}

theorem trimEnd_append_rtakeWhile (p : Char → Bool) (s : List Char) :
    trimEnd p s ++ s.rtakeWhile p = s :=
  List.rdropWhile_append_rtakeWhile

/-- Nothing but what satisfies the condition is trimmed off. -/
theorem getElem?_trimEnd (here : s[i]? = some c) (other : p c = false) :
    (trimEnd p s)[i]? = some c := by
  rw [← trimEnd_append_rtakeWhile p s] at here
  by_cases inside : i < (trimEnd p s).length
  · rwa [List.getElem?_append_left inside] at here
  · rw [List.getElem?_append_right (Nat.le_of_not_lt inside)] at here
    have trimmed := List.mem_rtakeWhile_imp (List.mem_of_getElem? here)
    rw [other] at trimmed
    cases trimmed

theorem trimEnd_append (all : ∀ c ∈ t, p c = true) : trimEnd p (s ++ t) = trimEnd p s := by
  rw [trimEnd, List.reverse_append, List.dropWhile_append_of_pos (by simpa using all), trimEnd]

theorem takeWhile_rtakeWhile (apart : ∀ c, p c = true → q c = false) (s : List Char) :
    (s.rtakeWhile p).takeWhile q = [] := by
  cases run : s.rtakeWhile p with
  | nil => rfl
  | cons c r =>
    have first : c ∈ s.rtakeWhile p := by simp [run]
    simp [apart c (List.mem_rtakeWhile_imp first)]

/-- What is trimmed off the end is no part of a run at the beginning that it does not belong
to. -/
theorem takeWhile_trimEnd (apart : ∀ c, p c = true → q c = false) (s : List Char) :
    (trimEnd p s).takeWhile q = s.takeWhile q := by
  conv_rhs => rw [← trimEnd_append_rtakeWhile p s, List.takeWhile_append,
    takeWhile_rtakeWhile apart, List.append_nil]
  split
  · rename_i whole
    exact (List.takeWhile_prefix q).eq_of_length whole
  · rfl

/-- A run at the beginning may be dropped before or after some trimming at the end. -/
theorem dropWhile_trimEnd (apart : ∀ c, p c = true → q c = false) (s : List Char) :
    (trimEnd p s).dropWhile q ++ s.rtakeWhile p = s.dropWhile q := by
  have parts : s.takeWhile q ++ ((trimEnd p s).dropWhile q ++ s.rtakeWhile p) = s := by
    rw [← takeWhile_trimEnd apart, ← List.append_assoc, List.takeWhile_append_dropWhile,
      trimEnd_append_rtakeWhile]
  exact List.append_cancel_left (parts.trans List.takeWhile_append_dropWhile.symm)

end TrimEnd

end Text

end TagLang
