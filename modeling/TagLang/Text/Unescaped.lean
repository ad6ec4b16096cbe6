import TagLang.Text.Numeral

/-!
# Decoding escapes

An escape stands for one character: by a letter, by four hexadecimal digits, or
by a code point in braces. A name in braces that is no code point is left as it
is written.
-/

namespace TagLang.Text

/-- The character with this code point, if there is one. -/
def charOf? (n : Nat) : Option Char :=
  if n.isValidChar then some (Char.ofNat n) else none

/-- The character an escape of one letter stands for. -/
def simpleEscape? : Char → Option Char
  | 'b' => some '\x08'
  | 'f' => some '\x0c'
  | 'n' => some '\n'
  | 'r' => some '\r'
  | 't' => some '\t'
  | '"' => some '"'
  | '\'' => some '\''
  | '\\' => some '\\'
  | _ => none

/-- What a code point in braces stands for: its character if the name is a number,
and otherwise the escape as it is written, for whoever knows the name. -/
def namedEscape (name : List Char) : List Char :=
  match (numeral? 16 UInt32.size name).bind charOf? with
  | some c => [c]
  | none => ['\\', 'u', '{'] ++ name ++ ['}']

/-- The text with its escapes decoded, if all of them are sound. -/
def unescape? (s : List Char) : Option (List Char) :=
  match s with
  | [] => some []
  | '\\' :: 'u' :: '{' :: r =>
    (unescape? ((r.dropWhile (· != '}')).drop 1)).map
      (namedEscape (r.takeWhile (· != '}')) ++ ·)
  | '\\' :: 'u' :: r =>
    ((numeral? 16 UInt32.size (r.take 4)).bind charOf?).bind fun c =>
      (unescape? (r.drop 4)).map (c :: ·)
  | ['\\'] => none
  | '\\' :: c :: r => (simpleEscape? c).bind fun d => (unescape? r).map (d :: ·)
  | c :: r => (unescape? r).map (c :: ·)
termination_by s.length
decreasing_by
  all_goals simp only [List.length_cons, List.length_drop]
  all_goals have := (List.dropWhile_sublist (· != '}') (l := r)).length_le
  all_goals omega

end TagLang.Text
