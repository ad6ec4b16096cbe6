import TagLang.Proofs.Piece.Basic
import TagLang.Proofs.Registry.Operators

/-!
# Expressions as they are written

`Written` is an expression with the parentheses that group: `tree` forgets them
and `pieces` spells them. `Ranked` is the law of precedence, said of each operand
on its own; how the operators on the left edge of an expression compare with the
power it is parsed at, and which operator may come behind it, is said apart.
-/

namespace TagLang

/-- An expression as it is written. -/
inductive Written
  | literal (value : Literal)
  | identifier (name : Token)
  /-- Parentheses around an expression. -/
  | group (inner : Written)
  | unary (operator : Token) (operand : Written)
  | binary (left : Written) (operator : Token) (right : Written)
  | call (callee : Written) (arguments : List Written)
  | member (object : Written) (operator : Token) (name : Token)

namespace Token

/-- How tightly a token continues an expression. -/
def power (t : Token) : BindingPower :=
  ((Registry.standard.continuation? t.kind).map Prod.fst).getD .loosest

variable {t : Token}

theorem power_eq {q : BindingPower} {rule : ExprContinuation}
    (h : Registry.standard.continuation? t.kind = some (q, rule)) : t.power = q := by
  simp [Token.power, h]

/-- An operator between two operands is at most as tight as the power. -/
theorem power_le_exponent
    (h : Registry.standard.continuation? t.kind = some (t.power, .binary) ∨
      Registry.standard.continuation? t.kind = some (t.power, .power)) :
    t.power ≤ .exponent := by
  rcases h with binary | power
  · exact Nat.le_of_lt (Registry.lt_exponent_of_binary binary).1
  · exact Nat.le_of_eq (congrArg _ (Registry.eq_exponent_of_power power).1)

/-- The token does not bind more tightly than this power. -/
def Stops (t : Token) (limit : BindingPower) : Prop :=
  ∀ q rule, Registry.standard.continuation? t.kind = some (q, rule) → q ≤ limit

end Token

namespace Written

mutual

/-- The expression without its parentheses. -/
def tree : Written → Expr
  | .literal value => .literal value
  | .identifier name => .identifier name
  | .group inner => inner.tree
  | .unary operator operand => .unary operator operand.tree
  | .binary left operator right => .binary left.tree operator right.tree
  | .call callee arguments => .call callee.tree (trees arguments)
  | .member object operator name => .member object.tree operator name

/-- The expressions without their parentheses. -/
def trees : List Written → List Expr
  | [] => []
  | w :: ws => w.tree :: trees ws

end

mutual

/-- The pieces of an expression, in order. -/
def pieces : Written → List Piece
  | .literal value => [.held value.token]
  | .identifier name => [.held name]
  | .group inner => .mark .openParen :: (inner.pieces ++ [.mark .closeParen])
  | .unary operator operand => .held operator :: operand.pieces
  | .binary left operator right => left.pieces ++ .held operator :: right.pieces
  | .call callee arguments =>
    callee.pieces ++ .mark .openParen :: (argumentPieces arguments ++ [.mark .closeParen])
  | .member object operator name => object.pieces ++ [.held operator, .held name]

/-- The pieces of arguments with commas between them. -/
def argumentPieces : List Written → List Piece
  | [] => []
  | w :: ws => w.pieces ++ furtherPieces ws

/-- The pieces of arguments behind a comma each. -/
def furtherPieces : List Written → List Piece
  | [] => []
  | w :: ws => .mark .comma :: (w.pieces ++ furtherPieces ws)

end

theorem trees_eq_map (ws : List Written) : trees ws = ws.map tree := by
  induction ws with
  | nil => rfl
  | cons w ws ih => rw [trees, ih, List.map_cons]

theorem furtherPieces_eq (ws : List Written) :
    furtherPieces ws = Piece.further (ws.map pieces) := by
  induction ws with
  | nil => rfl
  | cons w ws ih => simp [furtherPieces, ih, Piece.further]

theorem argumentPieces_eq (ws : List Written) :
    argumentPieces ws = Piece.separated (ws.map pieces) := by
  cases ws with
  | nil => rfl
  | cons w ws => rw [argumentPieces, furtherPieces_eq, List.map_cons, Piece.separated]

/-- How tightly an expression holds together. -/
def level : Written → BindingPower
  | .unary .. => .unary
  | .binary _ operator _ => operator.power
  | _ => .primary

/-- What holds together at this level may be a left operand of the operator. The power groups
to the right, every other operator to the left. -/
def FitsLeft (operator : Token) (level : BindingPower) : Prop :=
  if operator.kind = .mark .caret then operator.power < level else operator.power ≤ level

/-- What holds together at this level may be a right operand of the operator. -/
def FitsRight (operator : Token) (level : BindingPower) : Prop :=
  if operator.kind = .mark .caret then operator.power ≤ level else operator.power < level

instance (operator : Token) (level : BindingPower) : Decidable (FitsLeft operator level) :=
  inferInstanceAs (Decidable
    (if operator.kind = .mark .caret then operator.power < level else operator.power ≤ level))

instance (operator : Token) (level : BindingPower) : Decidable (FitsRight operator level) :=
  inferInstanceAs (Decidable
    (if operator.kind = .mark .caret then operator.power ≤ level else operator.power < level))

mutual

/-- Every operand without parentheses of its own holds together tightly enough. -/
def Ranked : Written → Prop
  | .literal _ => True
  | .identifier _ => True
  | .group inner => inner.Ranked
  | .unary _ operand => .unary ≤ operand.level ∧ operand.Ranked
  | .binary left operator right =>
    FitsLeft operator left.level ∧ FitsRight operator right.level ∧ left.Ranked ∧ right.Ranked
  | .call callee arguments => .unary < callee.level ∧ callee.Ranked ∧ AllRanked arguments
  | .member object _ _ => .unary < object.level ∧ object.Ranked

/-- Each of the expressions obeys the law of precedence. -/
def AllRanked : List Written → Prop
  | [] => True
  | w :: ws => w.Ranked ∧ AllRanked ws

end

/-- The powers of the operators on the left edge, down to a prefix, a literal, an
identifier or a parenthesis. -/
def leftEdge : Written → List BindingPower
  | .binary left operator _ => operator.power :: left.leftEdge
  | .call callee _ => .call :: callee.leftEdge
  | .member object operator _ => operator.power :: object.leftEdge
  | _ => []

/-- An operator of this power may come behind the expression without taking a part
of it for its operand. -/
def Admits : Written → BindingPower → Prop
  | .unary .., power => power ≤ .unary
  | .binary _ operator _, power =>
    if operator.kind = .mark .caret then power < operator.power else power ≤ operator.power
  | _, _ => True

end Written

namespace Expr

mutual

/-- Every token of an expression is of the kind that its place asks for. -/
def WellFormed : Expr → Prop
  | .literal value => LiteralKind.ofTokenKind? value.token.kind = some value.kind
  | .identifier name => name.kind = .identifier
  | .unary operator operand =>
    Registry.standard.start? operator.kind = some .unary ∧ operand.WellFormed
  | .binary left operator right =>
    (Registry.standard.continuation? operator.kind = some (operator.power, .binary) ∨
      Registry.standard.continuation? operator.kind = some (operator.power, .power)) ∧
      left.WellFormed ∧ right.WellFormed
  | .call callee arguments => callee.WellFormed ∧ AllWellFormed arguments
  | .member object operator name =>
    Registry.standard.continuation? operator.kind = some (.member, .member) ∧
      name.kind = .identifier ∧ object.WellFormed

/-- Every token of the expressions is of the kind that its place asks for. -/
def AllWellFormed : List Expr → Prop
  | [] => True
  | e :: es => e.WellFormed ∧ AllWellFormed es

end

theorem allWellFormed_iff {es : List Expr} : AllWellFormed es ↔ ∀ e ∈ es, e.WellFormed := by
  induction es with
  | nil => simp [AllWellFormed]
  | cons e es ih => simp [AllWellFormed, ih]

end Expr

namespace Written

theorem allRanked_iff {ws : List Written} : AllRanked ws ↔ ∀ w ∈ ws, w.Ranked := by
  induction ws with
  | nil => simp [AllRanked]
  | cons w ws ih => simp [AllRanked, ih]

theorem allWellFormed_trees_iff {ws : List Written} :
    Expr.AllWellFormed (trees ws) ↔ ∀ w ∈ ws, w.tree.WellFormed := by
  simp [Expr.allWellFormed_iff, trees_eq_map]

end Written

end TagLang
