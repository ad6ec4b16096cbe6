/-!
# Cutting a text by bytes

Delimiters and radix marks are cut off by their size in bytes. A cut that would
fall inside a character is no cut.
-/

namespace TagLang.Text

/-- A text without its first `n` bytes, if a character begins there. -/
def dropBytes? : Nat → List Char → Option (List Char)
  | 0, s => some s
  | _ + 1, [] => none
  | n + 1, c :: r => if c.utf8Size ≤ n + 1 then dropBytes? (n + 1 - c.utf8Size) r else none

/-- The first `n` bytes of a text, if they end with a character. -/
def takeBytes? : Nat → List Char → Option (List Char)
  | 0, _ => some []
  | _ + 1, [] => none
  | n + 1, c :: r =>
    if c.utf8Size ≤ n + 1 then (takeBytes? (n + 1 - c.utf8Size) r).map (c :: ·) else none

/-- A text without `n` bytes on either side. -/
def stripBytes? (n : Nat) (s : List Char) : Option (List Char) :=
  let size := s.foldr (fun c n => c.utf8Size + n) 0
  if n + n ≤ size then (dropBytes? n s).bind (takeBytes? (size - (n + n))) else none

end TagLang.Text
