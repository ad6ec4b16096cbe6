/-!
# Binding powers

How tightly an operator holds its operands, from the loosest to the tightest.
-/

namespace TagLang

/-- The levels of precedence, loosest first. -/
inductive BindingPower
  | loosest | coalesce | bitwiseOr | bitwiseAnd | relational | range | shift | additive
  | multiplicative | exponent | unary | call | member | primary
deriving DecidableEq, Repr, Inhabited

namespace BindingPower

/-- The place of a level in the order. -/
def rank : BindingPower → Nat
  | .loosest => 0
  | .coalesce => 1
  | .bitwiseOr => 2
  | .bitwiseAnd => 3
  | .relational => 4
  | .range => 5
  | .shift => 6
  | .additive => 7
  | .multiplicative => 8
  | .exponent => 9
  | .unary => 10
  | .call => 11
  | .member => 12
  | .primary => 13

instance : LT BindingPower := ⟨fun a b => a.rank < b.rank⟩

instance : LE BindingPower := ⟨fun a b => a.rank ≤ b.rank⟩

instance (a b : BindingPower) : Decidable (a < b) := inferInstanceAs (Decidable (a.rank < b.rank))

instance (a b : BindingPower) : Decidable (a ≤ b) := inferInstanceAs (Decidable (a.rank ≤ b.rank))

/-- The name a level is reported under. -/
def name : BindingPower → String
  | .loosest => "Default"
  | .coalesce => "Coalesce"
  | .bitwiseOr => "BitwiseOr"
  | .bitwiseAnd => "BitwiseAnd"
  | .relational => "Relational"
  | .range => "Range"
  | .shift => "Shift"
  | .additive => "Additive"
  | .multiplicative => "Multiplicative"
  | .exponent => "Exponent"
  | .unary => "Unary"
  | .call => "Call"
  | .member => "Member"
  | .primary => "Primary"

/-- Every level, loosest first. -/
def all : List BindingPower := [
  .loosest, .coalesce, .bitwiseOr, .bitwiseAnd, .relational, .range, .shift, .additive,
  .multiplicative, .exponent, .unary, .call, .member, .primary]

theorem mem_all (b : BindingPower) : b ∈ all := by
  cases b <;> decide

/-- The level reported under a name. -/
def ofName? (s : String) : Option BindingPower := all.find? fun b => b.name == s

theorem rank_injective {a b : BindingPower} (h : a.rank = b.rank) : a = b := by
  cases a <;> cases b <;> first | rfl | exact absurd h (by decide)

end BindingPower

end TagLang
