import TagLang.Text.Bytes

/-!
# Cuts at the borders of characters

A cut by bytes that falls between two characters is one by characters: it takes off whole
what has that many bytes.
-/

namespace TagLang.Text

/-- How many bytes a text takes. -/
def size (s : List Char) : Nat := s.foldr (fun c n => c.utf8Size + n) 0

variable {v w s : List Char}

@[simp] theorem size_nil : size [] = 0 := rfl

@[simp] theorem size_cons (c : Char) (s : List Char) : size (c :: s) = c.utf8Size + size s := rfl

@[simp] theorem size_append (w s : List Char) : size (w ++ s) = size w + size s := by
  induction w with
  | nil => simp
  | cons c w ih => rw [List.cons_append, size_cons, ih, size_cons, Nat.add_assoc]

theorem dropBytes?_cons (c : Char) (n : Nat) (s : List Char) :
    dropBytes? (c.utf8Size + n) (c :: s) = dropBytes? n s := by
  obtain ⟨m, bytes⟩ := Nat.exists_eq_add_of_lt (Nat.add_pos_left c.utf8Size_pos n)
  rw [Nat.zero_add] at bytes
  rw [bytes, dropBytes?, ← bytes, if_pos (Nat.le_add_right _ _), Nat.add_sub_cancel_left]

theorem takeBytes?_cons (c : Char) (n : Nat) (s : List Char) :
    takeBytes? (c.utf8Size + n) (c :: s) = (takeBytes? n s).map (c :: ·) := by
  obtain ⟨m, bytes⟩ := Nat.exists_eq_add_of_lt (Nat.add_pos_left c.utf8Size_pos n)
  rw [Nat.zero_add] at bytes
  rw [bytes, takeBytes?, ← bytes, if_pos (Nat.le_add_right _ _), Nat.add_sub_cancel_left]

theorem dropBytes?_size (w s : List Char) : dropBytes? (size w) (w ++ s) = some s := by
  induction w with
  | nil => rw [size_nil, dropBytes?, List.nil_append]
  | cons c w ih => rw [size_cons, List.cons_append, dropBytes?_cons, ih]

theorem takeBytes?_size (w s : List Char) : takeBytes? (size w) (w ++ s) = some w := by
  induction w with
  | nil => rw [size_nil, takeBytes?]
  | cons c w ih => rw [size_cons, List.cons_append, takeBytes?_cons, ih, Option.map_some]

/-- What stands between two texts of as many bytes each. -/
theorem stripBytes?_append (same : size v = size w) (s : List Char) :
    stripBytes? (size w) (w ++ s ++ v) = some s := by
  have whole : size (w ++ s ++ v) = size s + (size w + size w) := by
    rw [size_append, size_append, same, Nat.add_comm (size w), Nat.add_assoc]
  change (if size w + size w ≤ size (w ++ s ++ v) then
    (dropBytes? (size w) (w ++ s ++ v)).bind
      (takeBytes? (size (w ++ s ++ v) - (size w + size w))) else none) = some s
  rw [whole, if_pos (Nat.le_add_left _ _), Nat.add_sub_cancel, List.append_assoc,
    dropBytes?_size, Option.bind_some, takeBytes?_size]

end TagLang.Text
