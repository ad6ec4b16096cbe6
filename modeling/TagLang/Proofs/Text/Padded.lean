import Mathlib.Data.List.Induction
import TagLang.Proofs.Text.Numeral

/-!
# Numbers of fixed width

A number below a power of ten is written with as many digits as the power has zeros, and
every row of digits is written in this way. Reading it as a numeral gives the number back.
-/

namespace TagLang.Text

/-- The last `n` decimal digits of a number, zeros included. -/
def padded : Nat → Nat → List Char
  | 0, _ => []
  | n + 1, v => padded n (v / 10) ++ [Nat.digitChar (v % 10)]

variable {n v limit : Nat} {c : Char} {ds : List Char}

@[simp] theorem length_padded (n v : Nat) : (padded n v).length = n := by
  induction n generalizing v with
  | zero => rfl
  | succ n ih => rw [padded, List.length_append, ih, List.length_singleton]

theorem digit_digitChar : ∀ d < 10, digit (Nat.digitChar d) = d := by decide

theorem isDigit_digitChar : ∀ d < 10, (Nat.digitChar d).isDigit = true := by decide

theorem digitChar_digit (h : c.isDigit = true) : Nat.digitChar (digit c) = c := by
  have same : (!c.isDigit || Nat.digitChar (digit c) == c) = true :=
    Unicode.of_isAscii (p := fun c => !c.isDigit || Nat.digitChar (digit c) == c)
      (by decide +kernel) (Unicode.isAscii_of_isDigit h)
  simpa [h] using same

theorem isDigit_of_mem_padded (mem : c ∈ padded n v) : c.isDigit = true := by
  induction n generalizing v with
  | zero => cases mem
  | succ n ih =>
    rcases List.mem_append.mp mem with front | last
    · exact ih front
    · rw [List.mem_singleton.mp last]
      exact isDigit_digitChar _ (Nat.mod_lt v (by decide))

theorem value_concat (radix : Nat) (ds : List Char) (c : Char) :
    value radix (ds ++ [c]) = radix * value radix ds + digit c := by
  rw [value, List.reverse_append, List.reverse_singleton, List.singleton_append, List.map_cons,
    Nat.ofDigits_cons, value, Nat.add_comm]

theorem value_padded (lt : v < 10 ^ n) : value 10 (padded n v) = v := by
  induction n generalizing v with
  | zero =>
    rw [Nat.lt_one_iff.mp lt]
    rfl
  | succ n ih =>
    have front : v / 10 < 10 ^ n := Nat.div_lt_of_lt_mul (by rwa [Nat.mul_comm, ← Nat.pow_succ])
    rw [padded, value_concat, ih front, digit_digitChar _ (Nat.mod_lt v (by decide)),
      Nat.div_add_mod]

theorem digit_lt_of_isDigit (h : c.isDigit = true) : digit c < 10 := by
  rw [isDigit_eq] at h
  exact of_decide_eq_true h

theorem padded_value (digits : ∀ c ∈ ds, c.isDigit = true) :
    padded ds.length (value 10 ds) = ds := by
  induction ds using List.reverseRecOn with
  | nil => rfl
  | append_singleton ds c ih =>
    have last := digits c (by simp)
    have lt := digit_lt_of_isDigit last
    have front := ih fun d mem => digits d (List.mem_append_left _ mem)
    rw [List.length_append, List.length_singleton, padded, value_concat,
      Nat.mul_add_div (by decide), Nat.div_eq_of_lt lt, Nat.add_zero, front, Nat.mul_add_mod,
      Nat.mod_eq_of_lt lt, digitChar_digit last]

/-- A row of digits is a number of its width. -/
theorem exists_eq_padded (digits : ∀ c ∈ ds, c.isDigit = true) :
    ∃ v < 10 ^ ds.length, ds = padded ds.length v := by
  refine ⟨value 10 ds, ?_, (padded_value digits).symm⟩
  have lt : Nat.ofDigits 10 (ds.reverse.map digit) < 10 ^ (ds.reverse.map digit).length :=
    Nat.ofDigits_lt_base_pow_length (by decide) fun d mem => by
      obtain ⟨c, among, rfl⟩ := List.mem_map.mp mem
      exact digit_lt_of_isDigit (digits c (List.mem_reverse.mp among))
  rwa [List.length_map, List.length_reverse] at lt

theorem padded_ne_nil (h : 0 < n) : padded n v ≠ [] := by
  rw [← List.length_pos_iff, length_padded]
  exact h

theorem numeral?_padded (pos : 0 < n) (lt : v < 10 ^ n) (fits : 10 ^ n ≤ limit) :
    numeral? 10 limit (padded n v) = some v := by
  have unsigned : '+' ∉ (padded n v).head? := by
    intro sign
    have digit := isDigit_of_mem_padded (List.mem_of_mem_head? sign)
    cases digit
  have digits : (padded n v).all (digit · < 10) = true :=
    List.all_eq_true.mpr fun c mem =>
      decide_eq_true (digit_lt_of_isDigit (isDigit_of_mem_padded mem))
  rw [numeral?_eq (by decide) limit (padded_ne_nil pos) unsigned, value_padded lt,
    if_pos ⟨digits, Nat.lt_of_lt_of_le lt fits⟩]

end TagLang.Text
