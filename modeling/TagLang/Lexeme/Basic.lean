import TagLang.Token.Kind
import TagLang.Unicode.Classes

/-!
# Cuts and lexemes

A cut splits a text in two: what was taken and what is left. A lexeme is a cut
with the kind of what was taken. Recognizers are built from few cuts, and each
of these loses no character: `Cut.Of` and `Lexeme.Splits` say so.
-/

namespace TagLang

/-- A text split into a taken part and the rest. -/
structure Cut where
  text : List Char
  rest : List Char
deriving DecidableEq, Repr, Inhabited

namespace Cut

/-- The two parts make up the text. -/
def Of (x : Cut) (s : List Char) : Prop := x.text ++ x.rest = s

/-- Take nothing. -/
def nothing (s : List Char) : Cut := ⟨[], s⟩

/-- Take the longest run of characters that satisfy `p`. -/
def run (p : Char → Bool) (s : List Char) : Cut := ⟨s.takeWhile p, s.dropWhile p⟩

/-- Take the first character if it satisfies `p`. -/
def one (p : Char → Bool) : List Char → Cut
  | [] => nothing []
  | c :: r => if p c then ⟨[c], r⟩ else nothing (c :: r)

/-- Put characters in front of what was taken. -/
def after (taken : List Char) (x : Cut) : Cut := ⟨taken ++ x.text, x.rest⟩

/-- Go on with a second cut where the first one ended. -/
def andThen (x : Cut) (next : List Char → Cut) : Cut := (next x.rest).after x.text

@[simp] theorem rest_after (taken : List Char) (x : Cut) : (x.after taken).rest = x.rest := rfl

@[simp] theorem text_after (taken : List Char) (x : Cut) :
    (x.after taken).text = taken ++ x.text := rfl

theorem of_nothing (s : List Char) : (nothing s).Of s := rfl

theorem of_run (p : Char → Bool) (s : List Char) : (run p s).Of s :=
  List.takeWhile_append_dropWhile

theorem of_one (p : Char → Bool) (s : List Char) : (one p s).Of s := by
  unfold one
  split
  · rfl
  · split <;> rfl

theorem Of.after {x : Cut} {s : List Char} (h : x.Of s) (taken : List Char) :
    (x.after taken).Of (taken ++ s) := by
  simp [Of, Cut.after, List.append_assoc, ← h.symm]

/-- A cut of the rest, put after what was taken before it. -/
theorem Of.under {x y : Cut} {s : List Char} (h : x.Of s) (hy : y.Of x.rest) :
    (y.after x.text).Of s := by
  have joined := hy.after x.text
  rwa [h] at joined

theorem Of.andThen {x : Cut} {s : List Char} {next : List Char → Cut} (h : x.Of s)
    (hn : (next x.rest).Of x.rest) : (x.andThen next).Of s :=
  h.under hn

theorem Of.length_le {x : Cut} {s : List Char} (h : x.Of s) : x.rest.length ≤ s.length := by
  rw [← h]
  simp

end Cut

/-- A recognized span of text and what follows it. -/
structure Lexeme where
  kind : TokenKind
  text : List Char
  rest : List Char
deriving DecidableEq, Repr, Inhabited

namespace Lexeme

/-- Name what a cut has taken. -/
def ofCut (kind : TokenKind) (x : Cut) : Lexeme := ⟨kind, x.text, x.rest⟩

/-- The lexeme takes at least one character and loses none. -/
def Splits (x : Lexeme) (s : List Char) : Prop := x.text ++ x.rest = s ∧ x.text ≠ []

theorem splits_ofCut {x : Cut} {s : List Char} {kind : TokenKind} (h : x.Of s)
    (ne : x.text ≠ []) : (ofCut kind x).Splits s := ⟨h, ne⟩

theorem Splits.length_lt {x : Lexeme} {s : List Char} (h : x.Splits s) :
    x.rest.length < s.length := by
  have taken : 0 < x.text.length := List.length_pos_iff.mpr h.2
  rw [← h.1, List.length_append]
  omega

end Lexeme

/-- Blanks: space, tab, carriage return and line feed. -/
def isBlank (c : Char) : Bool := c == ' ' || c == '\t' || c == '\r' || c == '\n'

/-- The characters inside a word. -/
def isWordBody (c : Char) : Bool := Unicode.isAlphanumeric c || c == '_'

/-- The hexadecimal digits of ASCII. -/
def isHexDigit (c : Char) : Bool :=
  c.isDigit || ('a' ≤ c && c ≤ 'f') || ('A' ≤ c && c ≤ 'F')

end TagLang
