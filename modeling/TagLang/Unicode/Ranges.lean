/-!
# Sorted code point ranges

A character property beyond the ASCII range is a table of inclusive ranges in
increasing order, so a search may stop at the first range that begins too late.
-/

namespace TagLang.Unicode

/-- Inclusive ranges of code points, sorted and disjoint. -/
abbrev Ranges := List (Nat × Nat)

/-- Whether one of the ranges holds the code point. -/
def Ranges.contains : Ranges → Nat → Bool
  | [], _ => false
  | (low, high) :: ranges, n =>
    if n < low then false else decide (n ≤ high) || Ranges.contains ranges n

end TagLang.Unicode
