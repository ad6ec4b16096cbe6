import TagLang.Position

/-!
# A cursor over source text

The characters between `start` and `stop` are the pending span; those after
`stop` are unread. Advancing lengthens the span, and `commit` makes the next
span begin where this one ends. Reading past the end of the text changes
nothing. Places are kept at both ends of the span, so a span knows where its
first character stands.
-/

namespace TagLang

/-- A position inside a text with a pending span behind it. The span is held last
character first. -/
structure Cursor where
  taken : List Char
  rest : List Char
  start : Place
  stop : Place
deriving DecidableEq, Repr, Inhabited

namespace Cursor

/-- At the first character of a text, with an empty span. -/
def ofText (text : List Char) : Cursor := ⟨[], text, Place.start, Place.start⟩

/-- The pending span. -/
def span (c : Cursor) : List Char := c.taken.reverse

/-- Whether every character has been read. -/
def atEnd (c : Cursor) : Bool := c.rest.isEmpty

/-- The `k`-th unread character, counted from one. -/
def look (c : Cursor) (k : Nat) : Option Char :=
  if k = 0 then none else c.rest[k - 1]?

/-- Whether the `k`-th unread character is `ch`. -/
def has (c : Cursor) (k : Nat) (ch : Char) : Bool := c.look k == some ch

/-- Whether the unread characters begin with `text`. -/
def hasText (c : Cursor) (text : List Char) : Bool := text.isPrefixOf c.rest

/-- Read one character. -/
def scan (c : Cursor) : Option Char × Cursor :=
  match c.rest with
  | [] => (none, c)
  | ch :: rest => (some ch, { c with taken := ch :: c.taken, rest, stop := c.stop.next ch })

/-- Read `n` characters, or all that are left. -/
def skip : Nat → Cursor → Cursor
  | 0, c => c
  | n + 1, c => skip n c.scan.2

/-- Read one character if it satisfies `p`, and say whether it did. -/
def advanceIf (p : Char → Bool) (c : Cursor) : Bool × Cursor :=
  match c.look 1 with
  | some ch => if p ch then (true, c.scan.2) else (false, c)
  | none => (false, c)

/-- Read one character if it is `ch`, and say whether it was. -/
def advanceOver (ch : Char) (c : Cursor) : Bool × Cursor := c.advanceIf (· == ch)

/-- Read characters as long as they satisfy `p`. -/
def advanceWhile (p : Char → Bool) (c : Cursor) : Cursor := c.skip (c.rest.takeWhile p).length

/-- Read `n` characters known to hold no line feed, so only the column moves. -/
def advanceSameLine (n : Nat) (c : Cursor) : Cursor :=
  { c with
    taken := (c.rest.take n).reverse ++ c.taken
    rest := c.rest.drop n
    stop := ⟨c.stop.line, c.stop.column + (c.rest.take n).length⟩ }

/-- Begin the next span where this one ends. -/
def commit (c : Cursor) : Cursor := { c with taken := [], start := c.stop }

@[simp] theorem rest_scan (c : Cursor) : c.scan.2.rest = c.rest.tail := by
  unfold scan
  split <;> simp_all

@[simp] theorem start_scan (c : Cursor) : c.scan.2.start = c.start := by
  unfold scan
  split <;> rfl

@[simp] theorem rest_skip (n : Nat) (c : Cursor) : (c.skip n).rest = c.rest.drop n := by
  induction n generalizing c with
  | zero => rfl
  | succ n ih => simp [skip, ih, List.drop_tail]

@[simp] theorem start_skip (n : Nat) (c : Cursor) : (c.skip n).start = c.start := by
  induction n generalizing c with
  | zero => rfl
  | succ n ih => simp [skip, ih]

theorem span_skip (n : Nat) (c : Cursor) : (c.skip n).span = c.span ++ c.rest.take n := by
  induction n generalizing c with
  | zero => simp [skip]
  | succ n ih =>
    simp only [skip, ih]
    cases h : c.rest <;> simp [scan, span, h]

theorem stop_skip (n : Nat) (c : Cursor) : (c.skip n).stop = c.stop.after (c.rest.take n) := by
  induction n generalizing c with
  | zero => simp [skip]
  | succ n ih =>
    simp only [skip, ih]
    cases h : c.rest <;> simp [scan, h]

@[simp] theorem rest_commit (c : Cursor) : c.commit.rest = c.rest := rfl

@[simp] theorem span_commit (c : Cursor) : c.commit.span = [] := rfl

end Cursor

end TagLang
