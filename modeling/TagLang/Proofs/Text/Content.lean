import TagLang.Lexeme.Quoted
import TagLang.Proofs.Text.Numeral
import TagLang.Text.Unescaped

/-!
# The content of text literals

What stands between the quotes of a text literal is a row of items: characters that stand
for themselves, and escapes. An item is written in one way and means one text, and decoding
what a row of items is written as gives their meanings one after the other
(`unescape?_written`). The only escape that the grammar admits and that means nothing is
one whose four digits are the code of a surrogate.
-/

namespace TagLang

/-- The quotes that delimit text literals. -/
inductive TextQuote
  | double | single
deriving DecidableEq, Repr

/-- The character of a quote. -/
def TextQuote.char : TextQuote → Char
  | .double => '"'
  | .single => '\''

theorem TextQuote.char_ne (q : TextQuote) : q.char ≠ '\\' ∧ q.char ≠ '\n' ∧ q.char ≠ '\r' := by
  cases q <;> decide

/-- How a text literal is delimited: by which quote, and by one of them or by three. -/
structure TextForm where
  quote : TextQuote
  multiline : Bool
deriving DecidableEq, Repr

namespace TextForm

/-- What stands on either side of the content. -/
def delimiter (f : TextForm) : List Char :=
  if f.multiline then [f.quote.char, f.quote.char, f.quote.char] else [f.quote.char]

theorem exists_delimiter_eq (f : TextForm) : ∃ w, f.delimiter = f.quote.char :: w := by
  cases line : f.multiline <;> exact ⟨_, by rw [delimiter, line]; rfl⟩

/-- The form of the literals that are delimited so. -/
def literal : TextForm → LiteralForm
  | ⟨.double, false⟩ => .doubleQuoted
  | ⟨.single, false⟩ => .singleQuoted
  | ⟨.double, true⟩ => .doubleQuotedMultiline
  | ⟨.single, true⟩ => .singleQuotedMultiline

/-- Whether a character can stand for itself. In single delimiters neither the quote nor a
line break can. -/
def Admits (f : TextForm) (c : Char) : Prop :=
  c ≠ '\\' ∧ (f.multiline = false → c ≠ f.quote.char ∧ c ≠ '\n' ∧ c ≠ '\r')

instance (f : TextForm) (c : Char) : Decidable (f.Admits c) :=
  inferInstanceAs (Decidable (_ ∧ _))

end TextForm

/-- The escapes of one letter. -/
inductive SimpleEscape
  | backspace | formFeed | lineFeed | carriageReturn | tab | doubleQuote | singleQuote | backslash
deriving DecidableEq, Repr

namespace SimpleEscape

/-- The letter behind the backslash. -/
def letter : SimpleEscape → Char
  | .backspace => 'b'
  | .formFeed => 'f'
  | .lineFeed => 'n'
  | .carriageReturn => 'r'
  | .tab => 't'
  | .doubleQuote => '"'
  | .singleQuote => '\''
  | .backslash => '\\'

/-- The character that the escape stands for. -/
def meaning : SimpleEscape → Char
  | .backspace => '\x08'
  | .formFeed => '\x0c'
  | .lineFeed => '\n'
  | .carriageReturn => '\r'
  | .tab => '\t'
  | .doubleQuote => '"'
  | .singleQuote => '\''
  | .backslash => '\\'

theorem simpleEscape?_letter (e : SimpleEscape) :
    Text.simpleEscape? e.letter = some e.meaning := by
  cases e <;> rfl

theorem letter_ne_u (e : SimpleEscape) : e.letter ≠ 'u' := by
  cases e <;> decide

theorem isSimpleEscape_letter (e : SimpleEscape) : Lexeme.isSimpleEscape e.letter = true := by
  cases e <;> rfl

theorem exists_letter_eq {c : Char} (h : Lexeme.isSimpleEscape c = true) :
    ∃ e : SimpleEscape, e.letter = c := by
  simp only [Lexeme.isSimpleEscape, Bool.or_eq_true, beq_iff_eq] at h
  rcases h with ((((((rfl | rfl) | rfl) | rfl) | rfl) | rfl) | rfl) | rfl
  · exact ⟨.backspace, rfl⟩
  · exact ⟨.formFeed, rfl⟩
  · exact ⟨.lineFeed, rfl⟩
  · exact ⟨.carriageReturn, rfl⟩
  · exact ⟨.tab, rfl⟩
  · exact ⟨.doubleQuote, rfl⟩
  · exact ⟨.singleQuote, rfl⟩
  · exact ⟨.backslash, rfl⟩

end SimpleEscape

/-- An item of the content of a text literal: a character that stands for itself, an escape
of one letter, a code point of four digits, or a code point by its name. -/
inductive TextItem
  | plain (c : Char)
  | simple (e : SimpleEscape)
  | coded (ds : List Char)
  | named (name : List Char)
deriving DecidableEq, Repr

namespace TextItem

/-- The characters that an item is written with. -/
def spelling : TextItem → List Char
  | .plain c => [c]
  | .simple e => ['\\', e.letter]
  | .coded ds => '\\' :: 'u' :: ds
  | .named name => '\\' :: 'u' :: '{' :: (name ++ ['}'])

/-- The characters that some items are written with. -/
def written (items : List TextItem) : List Char := items.flatMap spelling

/-- Whether the grammar of text literals has the item. -/
def Fits (f : TextForm) : TextItem → Prop
  | .plain c => f.Admits c
  | .simple _ => True
  | .coded ds => ds.length = 4 ∧ ds.all isHexDigit = true
  | .named name => name ≠ [] ∧ name.all Unicode.isAlphanumeric = true

instance (f : TextForm) : (i : TextItem) → Decidable (i.Fits f)
  | .plain c => inferInstanceAs (Decidable (f.Admits c))
  | .simple _ => inferInstanceAs (Decidable True)
  | .coded _ | .named _ => inferInstanceAs (Decidable (_ ∧ _))

/-- The four digits of a code point have to be those of a character, and no surrogate's. -/
def Scalar : TextItem → Prop
  | .coded ds => (Text.value 16 ds).isValidChar
  | _ => True

instance : (i : TextItem) → Decidable i.Scalar
  | .coded ds => inferInstanceAs (Decidable (Text.value 16 ds).isValidChar)
  | .plain _ | .simple _ | .named _ => inferInstanceAs (Decidable True)

/-- Whether a name is the code point of a character in hexadecimal digits. -/
def IsCodePoint (name : List Char) : Prop :=
  name.all isHexDigit = true ∧ (Text.value 16 name).isValidChar

instance (name : List Char) : Decidable (IsCodePoint name) :=
  inferInstanceAs (Decidable (_ ∧ _))

/-- The text that an item stands for. A name that is no code point stands for its escape as
it is written. -/
def meaning : TextItem → List Char
  | .plain c => [c]
  | .simple e => [e.meaning]
  | .coded ds => [Char.ofNat (Text.value 16 ds)]
  | .named name =>
    if IsCodePoint name then [Char.ofNat (Text.value 16 name)]
    else (named name).spelling

end TextItem

namespace Text

theorem unescape?_nil : unescape? [] = some [] := by
  rw [unescape?]

theorem unescape?_plain {c : Char} (h : c ≠ '\\') (s : List Char) :
    unescape? (c :: s) = (unescape? s).map (c :: ·) := by
  rw [unescape?] <;> simp [h]

theorem unescape?_simple {c : Char} (h : c ≠ 'u') (s : List Char) :
    unescape? ('\\' :: c :: s) = (simpleEscape? c).bind fun d => (unescape? s).map (d :: ·) := by
  rw [unescape?] <;> simp [h]

theorem unescape?_coded {s : List Char} (h : '{' ∉ s.head?) :
    unescape? ('\\' :: 'u' :: s) =
      ((numeral? 16 UInt32.size (s.take 4)).bind charOf?).bind fun c =>
        (unescape? (s.drop 4)).map (c :: ·) := by
  rw [unescape?]
  intro r brace
  exact h (by rw [brace]; rfl)

theorem unescape?_named (s : List Char) :
    unescape? ('\\' :: 'u' :: '{' :: s) =
      (unescape? ((s.dropWhile (· != '}')).drop 1)).map
        (namedEscape (s.takeWhile (· != '}')) ++ ·) := by
  rw [unescape?]

/-- Hexadecimal digits spell the code point that they have by their places. -/
theorem charOf?_numeral? {ds : List Char} (ne : ds ≠ []) (unsigned : '+' ∉ ds.head?) :
    (numeral? 16 UInt32.size ds).bind charOf? =
      if TextItem.IsCodePoint ds then some (Char.ofNat (value 16 ds)) else none := by
  rw [numeral?_eq (by decide) _ ne unsigned, ← all_isHexDigit]
  by_cases code : TextItem.IsCodePoint ds
  · obtain ⟨proper, valid⟩ := code
    -- a code point is far below the limit of the numeral
    have small : value 16 ds < UInt32.size := by
      have : UInt32.size = 4294967296 := rfl
      omega
    rw [if_pos ⟨proper, small⟩, if_pos ⟨proper, valid⟩, Option.bind_some, charOf?, if_pos valid]
  · rw [if_neg code]
    split
    · rename_i both
      rw [Option.bind_some, charOf?, if_neg fun valid => code ⟨both.1, valid⟩]
    · rfl

theorem unescape?_digits {ds : List Char} (length : ds.length = 4)
    (hex : ds.all isHexDigit = true) (s : List Char) :
    unescape? ('\\' :: 'u' :: (ds ++ s)) =
      if (value 16 ds).isValidChar then (unescape? s).map (Char.ofNat (value 16 ds) :: ·)
      else none := by
  have apart {c : Char} (other : isHexDigit c = false) : c ∉ ds.head? := fun mem => by
    have digit := List.all_eq_true.mp hex c (List.mem_of_mem_head? mem)
    rw [other] at digit
    cases digit
  have ne : ds ≠ [] := by
    rintro rfl
    cases length
  have brace : '{' ∉ (ds ++ s).head? := by
    obtain ⟨d, ds, rfl⟩ := List.exists_cons_of_ne_nil ne
    exact apart (by decide)
  have front : (ds ++ s).take 4 = ds := by
    rw [← length, List.take_left]
  have behind : (ds ++ s).drop 4 = s := by
    rw [← length, List.drop_left]
  rw [unescape?_coded brace, front, behind, charOf?_numeral? ne (apart (by decide))]
  by_cases valid : (value 16 ds).isValidChar
  · rw [if_pos ⟨hex, valid⟩, if_pos valid, Option.bind_some]
  · rw [if_neg fun both => valid both.2, if_neg valid, Option.bind_none]

theorem unescape?_name {name : List Char} (ne : name ≠ [])
    (body : name.all Unicode.isAlphanumeric = true) (s : List Char) :
    unescape? ('\\' :: 'u' :: '{' :: (name ++ '}' :: s)) =
      (unescape? s).map ((TextItem.named name).meaning ++ ·) := by
  have apart {c : Char} (other : Unicode.isAlphanumeric c = false) : c ∉ name := fun mem => by
    have inside := List.all_eq_true.mp body c mem
    rw [other] at inside
    cases inside
  have inner : ∀ c ∈ name, (c != '}') = true := fun c mem => by
    refine bne_iff_ne.mpr fun brace => ?_
    rw [brace] at mem
    exact apart (by decide) mem
  have unsigned : '+' ∉ name.head? := fun sign => apart (by decide) (List.mem_of_mem_head? sign)
  have taken : (name ++ '}' :: s).takeWhile (· != '}') = name := by
    rw [List.takeWhile_append_of_pos inner]
    simp
  have left : ((name ++ '}' :: s).dropWhile (· != '}')).drop 1 = s := by
    rw [List.dropWhile_append_of_pos inner]
    simp
  have kept : namedEscape name = (TextItem.named name).meaning := by
    rw [namedEscape, charOf?_numeral? ne unsigned, TextItem.meaning]
    by_cases code : TextItem.IsCodePoint name
    · rw [if_pos code, if_pos code]
    · rw [if_neg code, if_neg code]
      rfl
  rw [unescape?_named, taken, left, kept]

end Text

namespace TextItem

variable {f : TextForm} {i : TextItem}

/-- An item in single delimiters does not begin with their quote. -/
theorem exists_spelling_eq (fits : i.Fits f) (line : f.multiline = false) :
    ∃ c w, i.spelling = c :: w ∧ c ≠ f.quote.char := by
  cases i with
  | plain c => exact ⟨c, [], rfl, (fits.2 line).1⟩
  | simple e => exact ⟨_, _, rfl, f.quote.char_ne.1.symm⟩
  | coded ds => exact ⟨_, _, rfl, f.quote.char_ne.1.symm⟩
  | named name => exact ⟨_, _, rfl, f.quote.char_ne.1.symm⟩

theorem written_cons (i : TextItem) (items : List TextItem) :
    written (i :: items) = i.spelling ++ written items := rfl

/-- Decoding what an item is written as gives its meaning. -/
theorem unescape?_spelling (fits : i.Fits f) (s : List Char) :
    Text.unescape? (i.spelling ++ s) =
      if i.Scalar then (Text.unescape? s).map (i.meaning ++ ·) else none := by
  cases i with
  | plain c => exact Text.unescape?_plain fits.1 s
  | simple e =>
    have step := Text.unescape?_simple e.letter_ne_u s
    rw [e.simpleEscape?_letter] at step
    exact step
  | coded ds => exact Text.unescape?_digits fits.1 fits.2 s
  | named name =>
    have step := Text.unescape?_name fits.1 fits.2 s
    rw [List.append_cons] at step
    exact step

/-- Decoding the content of a text literal gives the meanings of its items, if each of its
escapes of four digits is the code of a character. -/
theorem unescape?_written {items : List TextItem} (fits : ∀ i ∈ items, i.Fits f) :
    Text.unescape? (written items) =
      if ∀ i ∈ items, i.Scalar then some (items.flatMap meaning) else none := by
  induction items with
  | nil => exact Text.unescape?_nil
  | cons i items ih =>
    obtain ⟨first, others⟩ := List.forall_mem_cons.mp fits
    have step := unescape?_spelling first (written items)
    rw [ih others] at step
    rw [written_cons, step]
    by_cases scalar : i.Scalar
    · by_cases rest : ∀ j ∈ items, j.Scalar
      · rw [if_pos scalar, if_pos rest, if_pos (List.forall_mem_cons.mpr ⟨scalar, rest⟩)]
        rfl
      · rw [if_pos scalar, if_neg rest, if_neg fun all => rest (List.forall_mem_cons.mp all).2]
        rfl
    · rw [if_neg scalar, if_neg fun all => scalar (List.forall_mem_cons.mp all).1]

end TextItem

end TagLang
