/-!
# Marks

A mark is a token with one fixed spelling that is no word: brackets, separators,
operators and arrows. `Mark.longest?` picks the longest spelling that begins a
text, so no mark ever ends where a longer one could have been read.
-/

namespace TagLang

/-- The tokens with a fixed spelling of punctuation. -/
inductive Mark
  | openParen | closeParen | openBracket | closeBracket | openCurly | closeCurly | graphStart
  | graphEnd | comma | semicolon
  | dot | rangeInclusive | rangeExclusive | dotDotDot | dotQuestion
  | dash | dashEquals | rightArrow | rightLongArrow | rightLongDoubleArrow | longLine
  | rightLongDiamondArrow
  | colon | colonColon | colonGreater | colonColonGreater
  | equals | fatArrow | equalsEquals | rightFatLongArrow | rightFatLongDoubleArrow
  | rightFatLongDiamondArrow
  | less | lessEquals | compare | leftFatLongArrow | leftRightFatLongArrow | leftArrow
  | leftRightArrow | leftLongArrow | leftRightLongArrow | leftTildeArrow | leftRightTildeArrow
  | leftTildeLongArrow | leftRightTildeLongArrow | leftColonArrow | leftRightColonArrow
  | greater | greaterEquals
  | tilde | tildeEquals | tildeArrow | tildeLongArrow | tildeLongDoubleArrow | tildeLongLine
  | tildeLongDiamondArrow
  | bitwiseAnd | bitwiseNand | bitwiseNor | bitwiseNot | bitwiseOr | shiftLeft | shiftRight
  | bitwiseXor | zeroShiftRight
  | ampersand | ampersandEquals | star | starEquals | caret | caretEquals | percent | plus
  | plusEquals | slash | slashEquals | question | questionQuestion | at | atBar | bar | dollar
deriving DecidableEq, Inhabited

namespace Mark

/-- The characters a mark is written with. -/
def spelling : Mark → List Char
  | .openParen => ['(']
  | .closeParen => [')']
  | .openBracket => ['[']
  | .closeBracket => [']']
  | .openCurly => ['{']
  | .closeCurly => ['}']
  | .graphStart => ['[', '%', '%']
  | .graphEnd => ['%', '%', ']']
  | .comma => [',']
  | .semicolon => [';']
  | .dot => ['.']
  | .rangeInclusive => ['.', '.']
  | .rangeExclusive => ['.', '.', '<']
  | .dotDotDot => ['.', '.', '.']
  | .dotQuestion => ['.', '?']
  | .dash => ['-']
  | .dashEquals => ['-', '=']
  | .rightArrow => ['-', '>']
  | .rightLongArrow => ['-', '-', '>']
  | .rightLongDoubleArrow => ['-', '-', '>', '>']
  | .longLine => ['-', '-', '-']
  | .rightLongDiamondArrow => ['-', '-', '<', '>']
  | .colon => [':']
  | .colonColon => [':', ':']
  | .colonGreater => [':', '>']
  | .colonColonGreater => [':', ':', '>']
  | .equals => ['=']
  | .fatArrow => ['=', '>']
  | .equalsEquals => ['=', '=']
  | .rightFatLongArrow => ['=', '=', '>']
  | .rightFatLongDoubleArrow => ['=', '=', '>', '>']
  | .rightFatLongDiamondArrow => ['=', '=', '<', '>']
  | .less => ['<']
  | .lessEquals => ['<', '=']
  | .compare => ['<', '=', '>']
  | .leftFatLongArrow => ['<', '=', '=']
  | .leftRightFatLongArrow => ['<', '=', '=', '>']
  | .leftArrow => ['<', '-']
  | .leftRightArrow => ['<', '-', '>']
  | .leftLongArrow => ['<', '-', '-']
  | .leftRightLongArrow => ['<', '-', '-', '>']
  | .leftTildeArrow => ['<', '~']
  | .leftRightTildeArrow => ['<', '~', '>']
  | .leftTildeLongArrow => ['<', '~', '~']
  | .leftRightTildeLongArrow => ['<', '~', '~', '>']
  | .leftColonArrow => ['<', ':']
  | .leftRightColonArrow => ['<', ':', '>']
  | .greater => ['>']
  | .greaterEquals => ['>', '=']
  | .tilde => ['~']
  | .tildeEquals => ['~', '=']
  | .tildeArrow => ['~', '>']
  | .tildeLongArrow => ['~', '~', '>']
  | .tildeLongDoubleArrow => ['~', '~', '>', '>']
  | .tildeLongLine => ['~', '~', '~']
  | .tildeLongDiamondArrow => ['~', '~', '<', '>']
  | .bitwiseAnd => ['~', 'a', 'n', 'd', '~']
  | .bitwiseNand => ['~', 'n', 'a', 'n', 'd', '~']
  | .bitwiseNor => ['~', 'n', 'o', 'r', '~']
  | .bitwiseNot => ['~', 'n', 'o', 't', '~']
  | .bitwiseOr => ['~', 'o', 'r', '~']
  | .shiftLeft => ['~', 's', 'h', 'l', '~']
  | .shiftRight => ['~', 's', 'h', 'r', '~']
  | .bitwiseXor => ['~', 'x', 'o', 'r', '~']
  | .zeroShiftRight => ['~', 'z', 's', 'h', 'r', '~']
  | .ampersand => ['&']
  | .ampersandEquals => ['&', '=']
  | .star => ['*']
  | .starEquals => ['*', '=']
  | .caret => ['^']
  | .caretEquals => ['^', '=']
  | .percent => ['%']
  | .plus => ['+']
  | .plusEquals => ['+', '=']
  | .slash => ['/']
  | .slashEquals => ['/', '=']
  | .question => ['?']
  | .questionQuestion => ['?', '?']
  | .at => ['@']
  | .atBar => ['@', '|']
  | .bar => ['|']
  | .dollar => ['$']

/-- The name a mark is reported under. -/
def name : Mark → String
  | .openParen => "OpenParen"
  | .closeParen => "CloseParen"
  | .openBracket => "OpenBracket"
  | .closeBracket => "CloseBracket"
  | .openCurly => "OpenCurly"
  | .closeCurly => "CloseCurly"
  | .graphStart => "GraphStart"
  | .graphEnd => "GraphEnd"
  | .comma => "Comma"
  | .semicolon => "Semicolon"
  | .dot => "Dot"
  | .rangeInclusive => "RangeInclusive"
  | .rangeExclusive => "RangeExclusive"
  | .dotDotDot => "DotDotDot"
  | .dotQuestion => "DotQuestion"
  | .dash => "Dash"
  | .dashEquals => "DashEquals"
  | .rightArrow => "RightArrow"
  | .rightLongArrow => "RightLongArrow"
  | .rightLongDoubleArrow => "RightLongDoubleArrow"
  | .longLine => "LongLine"
  | .rightLongDiamondArrow => "RightLongDiamondArrow"
  | .colon => "Colon"
  | .colonColon => "ColonColon"
  | .colonGreater => "ColonGreater"
  | .colonColonGreater => "ColonColonGreater"
  | .equals => "Equals"
  | .fatArrow => "FatArrow"
  | .equalsEquals => "EqualsEquals"
  | .rightFatLongArrow => "RightFatLongArrow"
  | .rightFatLongDoubleArrow => "RightFatLongDoubleArrow"
  | .rightFatLongDiamondArrow => "RightFatLongDiamondArrow"
  | .less => "Less"
  | .lessEquals => "LessEquals"
  | .compare => "Compare"
  | .leftFatLongArrow => "LeftFatLongArrow"
  | .leftRightFatLongArrow => "LeftRightFatLongArrow"
  | .leftArrow => "LeftArrow"
  | .leftRightArrow => "LeftRightArrow"
  | .leftLongArrow => "LeftLongArrow"
  | .leftRightLongArrow => "LeftRightLongArrow"
  | .leftTildeArrow => "LeftTildeArrow"
  | .leftRightTildeArrow => "LeftRightTildeArrow"
  | .leftTildeLongArrow => "LeftTildeLongArrow"
  | .leftRightTildeLongArrow => "LeftRightTildeLongArrow"
  | .leftColonArrow => "LeftColonArrow"
  | .leftRightColonArrow => "LeftRightColonArrow"
  | .greater => "Greater"
  | .greaterEquals => "GreaterEquals"
  | .tilde => "Tilde"
  | .tildeEquals => "TildeEquals"
  | .tildeArrow => "TildeArrow"
  | .tildeLongArrow => "TildeLongArrow"
  | .tildeLongDoubleArrow => "TildeLongDoubleArrow"
  | .tildeLongLine => "TildeLongLine"
  | .tildeLongDiamondArrow => "TildeLongDiamondArrow"
  | .bitwiseAnd => "BitwiseAnd"
  | .bitwiseNand => "BitwiseNand"
  | .bitwiseNor => "BitwiseNor"
  | .bitwiseNot => "BitwiseNot"
  | .bitwiseOr => "BitwiseOr"
  | .shiftLeft => "ShiftLeft"
  | .shiftRight => "ShiftRight"
  | .bitwiseXor => "BitwiseXor"
  | .zeroShiftRight => "ZeroShiftRight"
  | .ampersand => "Ampersand"
  | .ampersandEquals => "AmpersandEquals"
  | .star => "Star"
  | .starEquals => "StarEquals"
  | .caret => "Caret"
  | .caretEquals => "CaretEquals"
  | .percent => "Percent"
  | .plus => "Plus"
  | .plusEquals => "PlusEquals"
  | .slash => "Slash"
  | .slashEquals => "SlashEquals"
  | .question => "Question"
  | .questionQuestion => "QuestionQuestion"
  | .at => "At"
  | .atBar => "AtBar"
  | .bar => "Bar"
  | .dollar => "Dollar"

instance : Repr Mark := ⟨fun m _ => m.name⟩

/-- Every mark, once. -/
def all : List Mark := [
  .openParen, .closeParen, .openBracket, .closeBracket, .openCurly, .closeCurly, .graphStart,
  .graphEnd, .comma, .semicolon, .dot, .rangeInclusive, .rangeExclusive, .dotDotDot,
  .dotQuestion, .dash, .dashEquals, .rightArrow, .rightLongArrow, .rightLongDoubleArrow,
  .longLine, .rightLongDiamondArrow, .colon, .colonColon, .colonGreater, .colonColonGreater,
  .equals, .fatArrow, .equalsEquals, .rightFatLongArrow, .rightFatLongDoubleArrow,
  .rightFatLongDiamondArrow, .less, .lessEquals, .compare, .leftFatLongArrow,
  .leftRightFatLongArrow, .leftArrow, .leftRightArrow, .leftLongArrow, .leftRightLongArrow,
  .leftTildeArrow, .leftRightTildeArrow, .leftTildeLongArrow, .leftRightTildeLongArrow,
  .leftColonArrow, .leftRightColonArrow, .greater, .greaterEquals, .tilde, .tildeEquals,
  .tildeArrow, .tildeLongArrow, .tildeLongDoubleArrow, .tildeLongLine, .tildeLongDiamondArrow,
  .bitwiseAnd, .bitwiseNand, .bitwiseNor, .bitwiseNot, .bitwiseOr, .shiftLeft, .shiftRight,
  .bitwiseXor, .zeroShiftRight, .ampersand, .ampersandEquals, .star, .starEquals, .caret,
  .caretEquals, .percent, .plus, .plusEquals, .slash, .slashEquals, .question, .questionQuestion,
  .at, .atBar, .bar, .dollar]

theorem mem_all (m : Mark) : m ∈ all := by
  cases m <;> decide

/-- Whether a text begins with the mark. -/
def Begins (m : Mark) (s : List Char) : Prop := m.spelling <+: s

instance (m : Mark) (s : List Char) : Decidable (m.Begins s) :=
  inferInstanceAs (Decidable (m.spelling <+: s))

/-- The longer of two marks, the first if they are equally long. -/
def longer (m : Mark) : Option Mark → Mark
  | none => m
  | some n => if m.spelling.length < n.spelling.length then n else m

/-- The longest of the given marks that begin the text. -/
def longestOf? (s : List Char) : List Mark → Option Mark
  | [] => none
  | m :: ms => if m.Begins s then some (m.longer (longestOf? s ms)) else longestOf? s ms

/-- The mark with the longest spelling among those that begin the text. -/
def longest? (s : List Char) : Option Mark := longestOf? s all

theorem spelling_ne_nil (m : Mark) : m.spelling ≠ [] := by
  cases m <;> simp [spelling]

theorem begins_of_longestOf? {s : List Char} {ms : List Mark} {m : Mark}
    (h : longestOf? s ms = some m) : m.Begins s := by
  induction ms generalizing m with
  | nil => cases h
  | cons n ms ih =>
    unfold longestOf? at h
    split at h
    · rename_i hn
      cases h
      cases hl : longestOf? s ms with
      | none => exact hn
      | some k =>
        unfold longer
        dsimp only
        split
        · exact ih hl
        · exact hn
    · exact ih h

theorem begins_of_longest? {s : List Char} {m : Mark} (h : longest? s = some m) : m.Begins s :=
  begins_of_longestOf? h

theorem eq_of_spelling_eq {m n : Mark} (same : m.spelling = n.spelling) : m = n := by
  have apart : ∀ m ∈ all, ∀ n ∈ all, m.spelling = n.spelling → m = n := by decide +kernel
  exact apart m (mem_all m) n (mem_all n) same

theorem le_longer (m : Mark) (n : Option Mark) :
    m.spelling.length ≤ (m.longer n).spelling.length ∧
      ∀ k ∈ n, k.spelling.length ≤ (m.longer n).spelling.length := by
  cases n with
  | none => exact ⟨Nat.le_refl _, fun _ h => nomatch h⟩
  | some n =>
    simp only [longer, Option.mem_some_iff, forall_eq']
    split <;> omega

/-- Among the given marks that begin a text, a longest is found. -/
theorem exists_longestOf? {s : List Char} {ms : List Mark} {m : Mark} (mem : m ∈ ms)
    (begins : m.Begins s) :
    ∃ n, longestOf? s ms = some n ∧ m.spelling.length ≤ n.spelling.length := by
  induction ms with
  | nil => cases mem
  | cons k ms ih =>
    unfold longestOf?
    rcases List.mem_cons.mp mem with rfl | mem
    · exact ⟨_, if_pos begins, (le_longer _ _).1⟩
    · obtain ⟨n, found, le⟩ := ih mem
      split
      · exact ⟨_, rfl, Nat.le_trans le ((le_longer k _).2 n found)⟩
      · exact ⟨n, found, le⟩

theorem exists_longest? {s : List Char} {m : Mark} (begins : m.Begins s) :
    ∃ n, longest? s = some n ∧ m.spelling.length ≤ n.spelling.length :=
  exists_longestOf? (mem_all m) begins

end Mark

end TagLang
