import Mathlib.Data.List.DropRight
import TagLang.Literal.Value
import TagLang.Proofs.Lexeme.Numeral
import TagLang.Proofs.Text.Bytes
import TagLang.Proofs.Text.Numeral

/-!
# The values of integers

An integer is written in one of three bases: behind a mark of the base and in front of
suffixes that say nothing of its value. What is left when the underscores, the mark and the
suffixes are taken away is a row of digits of the base, so an integer has a value unless
its number is too large.
-/

namespace TagLang

open Text

/-- The bases in which integers are written. -/
inductive Base
  | binary | decimal | hex
deriving DecidableEq, Repr

namespace Base

/-- How many digits a base has. -/
def radix : Base → Nat
  | .binary => 2
  | .decimal => 10
  | .hex => 16

/-- The literals of a base. -/
def literal : Base → LiteralForm
  | .binary => .binaryInteger
  | .decimal => .decimalInteger
  | .hex => .hexInteger

/-- What a base is marked with in front of the digits. -/
def marks : Base → List (List Char)
  | .binary => [['0', 'b'], ['0', 'B']]
  | .decimal => [[]]
  | .hex => [['0', 'x'], ['0', 'X']]

/-- How many bytes the mark of a base takes. -/
def markSize : Base → Nat
  | .decimal => 0
  | _ => 2

/-- What may stand behind the digits. -/
def suffixes : Base → Language Char
  | .decimal => maybe (anyOf "uU") * maybe (anyOf "iIlLsSyY")
  | _ => 1

/-- The digits of a base. -/
def isDigit (b : Base) (c : Char) : Bool := decide (digit c < b.radix)

/-- Digits of a base, with underscores between and behind them. -/
def groups (b : Base) : Language Char := row b.isDigit fun c => b.isDigit c || c == '_'

variable {b : Base} {m ds x w : List Char} {t : Token}

theorem radix_le (b : Base) : b.radix ≤ 36 := by cases b <;> decide

theorem isDigit_binary : isDigit .binary = Lexeme.isBit := by
  have narrow (c : Char) (bit : Lexeme.isBit c = true) : Unicode.isAscii c = true := by
    rcases Bool.or_eq_true_iff.mp bit with zero | one
    · rw [eq_of_beq zero]
      rfl
    · rw [eq_of_beq one]
      rfl
  exact funext fun c => (eq_digit_lt (by decide) narrow (by decide +kernel) c).symm

theorem isDigit_decimal : isDigit .decimal = Char.isDigit := funext fun c => (isDigit_eq c).symm

theorem isDigit_hex : isDigit .hex = isHexDigit := funext fun c => (isHexDigit_eq c).symm

theorem exists_of_mem_based (cs : String)
    (marked : cs.toList.all (b.marks.contains ['0', ·]) = true)
    (bare : b.suffixes = 1) (mem : w ∈ LiteralForm.based cs b.isDigit) :
    ∃ m ∈ b.marks, ∃ ds ∈ b.groups, ∃ x ∈ b.suffixes, w = m ++ ds ++ x := by
  obtain ⟨c, d, ds, letter, first, further, rfl⟩ := Lexeme.mem_based.mp mem
  have mark : ['0', c] ∈ b.marks := by simpa using List.all_eq_true.mp marked c letter
  refine ⟨_, mark, d :: ds, mem_row.mpr ⟨d, ds, first, further, rfl⟩, [], ?_, ?_⟩
  · rw [bare]
    exact (Language.mem_one _).mpr rfl
  · rw [List.append_nil]
    rfl

/-- An integer is a mark, digits and suffixes. -/
theorem exists_of_mem_numerals (mem : w ∈ LiteralForm.numerals b.literal) :
    ∃ m ∈ b.marks, ∃ ds ∈ b.groups, ∃ x ∈ b.suffixes, w = m ++ ds ++ x := by
  cases b with
  | binary =>
    refine exists_of_mem_based "bB" (by decide) rfl ?_
    rwa [isDigit_binary]
  | decimal =>
    have split : w ∈ LiteralForm.grouped * suffixes .decimal := by
      rwa [suffixes, ← mul_assoc]
    obtain ⟨ds, inside, x, suffix, rfl⟩ := Language.mem_mul.mp split
    refine ⟨[], List.mem_singleton_self _, ds, ?_, x, suffix, rfl⟩
    rwa [groups, isDigit_decimal]
  | hex =>
    refine exists_of_mem_based "xX" (by decide) rfl ?_
    rwa [isDigit_hex]

theorem of_mem_marks (mem : m ∈ b.marks) :
    size m = b.markSize ∧ m.all (· != '_') = true := by
  have marks : b.marks.all (fun m => size m == b.markSize && m.all (· != '_')) = true := by
    cases b <;> decide
  simpa using List.all_eq_true.mp marks m mem

theorem of_mem_suffixes (mem : x ∈ b.suffixes) : ∀ c ∈ x, c.isAlpha = true := by
  cases b with
  | decimal =>
    obtain ⟨u, sign, z, size, rfl⟩ := Language.mem_mul.mp mem
    intro c among
    exact (List.mem_append.mp among).elim (all_of_mem_maybe (by decide) sign c)
      (all_of_mem_maybe (by decide) size c)
  | _ =>
    rw [(Language.mem_one x).mp mem]
    exact fun _ => nofun

/-- The digits without the underscores between and behind them. -/
def plain (ds : List Char) : List Char := ds.filter (· != '_')

theorem ungrouped_eq (hm : m ∈ b.marks) (hx : x ∈ b.suffixes) (text : t.text.toList = m ++ ds ++ x)
    (kind : LiteralKind) : (Literal.mk kind t).ungrouped = m ++ plain ds ++ x := by
  have letters : ∀ c ∈ x, (c != '_') = true := by
    intro c among
    have letter := of_mem_suffixes hx c among
    rw [bne_iff_ne]
    rintro rfl
    cases letter
  rw [Literal.ungrouped, text, List.filter_append, List.filter_append,
    List.filter_eq_self.mpr (List.all_eq_true.mp (of_mem_marks hm).2),
    List.filter_eq_self.mpr letters]
  rfl

theorem isDigit_of_mem_plain (hds : ds ∈ b.groups) : ∀ c ∈ plain ds, b.isDigit c = true := by
  obtain ⟨d, ds, first, further, rfl⟩ := mem_row.mp hds
  intro c among
  obtain ⟨inside, apart⟩ := List.mem_filter.mp among
  rcases List.mem_cons.mp inside with rfl | later
  · exact first
  · have either := List.all_eq_true.mp further c later
    rwa [(Bool.not_eq_true' (c == '_')).mp apart, Bool.or_false] at either

theorem plain_ne_nil (hds : ds ∈ b.groups) : plain ds ≠ [] := by
  obtain ⟨d, ds, first, -, rfl⟩ := mem_row.mp hds
  have apart : (d != '_') = true := by
    rw [bne_iff_ne]
    rintro rfl
    cases b <;> cases first
  exact List.ne_nil_of_mem (List.mem_filter.mpr ⟨List.mem_cons_self, apart⟩)

theorem dropBytes?_marks (hm : m ∈ b.marks) (s : List Char) :
    dropBytes? b.markSize (m ++ s) = some s := by
  rw [← (of_mem_marks hm).1]
  exact dropBytes?_size m s

/-- A row of digits is a numeral of its base unless its number is too large. -/
theorem numeral?_plain (hds : ds ∈ b.groups) (limit : Nat) :
    numeral? b.radix limit (plain ds) =
      if value b.radix (plain ds) < limit then some (value b.radix (plain ds)) else none := by
  have digits : (plain ds).all (digit · < b.radix) = true :=
    List.all_eq_true.mpr (isDigit_of_mem_plain hds)
  have unsigned : '+' ∉ (plain ds).head? := by
    intro sign
    have first := isDigit_of_mem_plain hds '+' (List.mem_of_mem_head? sign)
    cases b <;> cases first
  rw [numeral?_eq b.radix_le limit (plain_ne_nil hds) unsigned]
  exact if_congr (and_iff_right digits) rfl rfl

/-- Suffixes are letters, which no decimal digit is. -/
theorem rdropWhile_isAlpha (hds : ds ∈ groups .decimal) (hx : x ∈ suffixes .decimal) :
    (plain ds ++ x).rdropWhile Char.isAlpha = plain ds := by
  have letters : ∀ c ∈ x.reverse, c.isAlpha = true := fun c among =>
    of_mem_suffixes hx c (List.mem_reverse.mp among)
  have digits : (plain ds).rdropWhile Char.isAlpha = plain ds := by
    refine List.rdropWhile_eq_self_iff.mpr fun ne => ?_
    have last := isDigit_of_mem_plain hds _ (List.getLast_mem ne)
    rw [isDigit_decimal] at last
    exact Unicode.not_isAlpha_of_isDigit last
  rw [List.rdropWhile, List.reverse_append, List.dropWhile_append_of_pos letters]
  exact digits

/-- An integer has the value of its digits unless that is too large. -/
theorem integer?_eq (hm : m ∈ b.marks) (hds : ds ∈ b.groups) (hx : x ∈ b.suffixes)
    (text : t.text.toList = m ++ ds ++ x) :
    (Literal.mk (.ofForm b.literal) t).integer? =
      if value b.radix (plain ds) < 2 ^ 64 then some (value b.radix (plain ds)) else none := by
  have left := ungrouped_eq hm hx text (.ofForm b.literal)
  have dropped := dropBytes?_marks hm (plain ds ++ x)
  rw [List.append_assoc] at left
  rw [← numeral?_plain hds]
  cases b with
  | decimal =>
    obtain rfl := List.mem_singleton.mp hm
    change numeral? 10 _ (List.rdropWhile Char.isAlpha _) = _
    rw [left, List.nil_append, rdropWhile_isAlpha hds hx]
    rfl
  | binary | hex =>
    obtain rfl : x = [] := (Language.mem_one x).mp hx
    rw [List.append_nil, markSize.eq_def] at dropped
    rw [List.append_nil] at left
    change (dropBytes? 2 _).bind _ = _
    rw [left, dropped]
    rfl

end Base

end TagLang
