import TagLang.Proofs.Expr.Written

/-!
# Expressions with the parentheses they need

`Expr.written` puts an operand into parentheses where the law of precedence asks for
them and nowhere else. Parentheses leave no trace in the tree, so every way to write
an expression is the same once they are dropped.
-/

namespace TagLang

namespace Written

/-- The expression itself if it fits its place, and otherwise in parentheses. -/
def groupUnless (fits : Bool) (w : Written) : Written := if fits then w else .group w

@[simp] theorem tree_groupUnless (fits : Bool) (w : Written) :
    (w.groupUnless fits).tree = w.tree := by
  cases fits <;> rfl

theorem ranked_groupUnless {fits : Bool} {w : Written} (h : w.Ranked) :
    (w.groupUnless fits).Ranked := by
  cases fits <;> exact h

/-- What holds of the levels that fit and of the tightest one holds in either case. -/
theorem level_groupUnless {holds : BindingPower → Prop} [DecidablePred holds] {w : Written}
    (h : holds .primary) : holds (w.groupUnless (holds w.level)).level := by
  by_cases fits : holds w.level
  · simp [groupUnless, fits]
  · simp only [groupUnless, fits, decide_false, Bool.false_eq_true, if_false]
    exact h

end Written

namespace Expr

mutual

/-- The expression with the parentheses it needs. -/
def written : Expr → Written
  | .literal value => .literal value
  | .identifier name => .identifier name
  | .unary operator operand =>
    .unary operator (operand.written.groupUnless (.unary ≤ operand.written.level))
  | .binary left operator right =>
    .binary (left.written.groupUnless (Written.FitsLeft operator left.written.level)) operator
      (right.written.groupUnless (Written.FitsRight operator right.written.level))
  | .call callee arguments =>
    .call (callee.written.groupUnless (.unary < callee.written.level)) (writtens arguments)
  | .member object operator name =>
    .member (object.written.groupUnless (.unary < object.written.level)) operator name

/-- The expressions with the parentheses they need. -/
def writtens : List Expr → List Written
  | [] => []
  | e :: es => e.written :: writtens es

end

mutual

theorem tree_written (e : Expr) : e.written.tree = e := by
  cases e with
  | literal => rfl
  | identifier => rfl
  | unary operator operand =>
      rw [written, Written.tree, Written.tree_groupUnless, operand.tree_written]
  | binary left operator right =>
      rw [written, Written.tree, Written.tree_groupUnless, Written.tree_groupUnless,
        left.tree_written, right.tree_written]
  | call callee arguments =>
      rw [written, Written.tree, Written.tree_groupUnless, callee.tree_written,
        trees_writtens arguments]
  | member object operator name =>
      rw [written, Written.tree, Written.tree_groupUnless, object.tree_written]

theorem trees_writtens (es : List Expr) : Written.trees (writtens es) = es := by
  cases es with
  | nil => rfl
  | cons e es => rw [writtens, Written.trees, e.tree_written, trees_writtens es]

end

mutual

theorem ranked_written {e : Expr} (h : e.WellFormed) : e.written.Ranked := by
  cases e with
  | literal => trivial
  | identifier => trivial
  | unary operator operand =>
      refine ⟨Written.level_groupUnless ?_, Written.ranked_groupUnless (ranked_written h.2)⟩
      decide
  | binary left operator right =>
      have loose : operator.power < .primary :=
        Nat.lt_of_le_of_lt (Token.power_le_exponent h.1) BindingPower.exponent_lt_primary
      refine ⟨Written.level_groupUnless ?_, Written.level_groupUnless ?_,
        Written.ranked_groupUnless (ranked_written h.2.1),
        Written.ranked_groupUnless (ranked_written h.2.2)⟩
      · rw [Written.FitsLeft]
        split
        · exact loose
        · exact Nat.le_of_lt loose
      · rw [Written.FitsRight]
        split
        · exact Nat.le_of_lt loose
        · exact loose
  | call callee arguments =>
      exact ⟨Written.level_groupUnless BindingPower.unary_lt_primary,
        Written.ranked_groupUnless (ranked_written h.1), allRanked_writtens h.2⟩
  | member object operator name =>
      exact ⟨Written.level_groupUnless BindingPower.unary_lt_primary,
        Written.ranked_groupUnless (ranked_written h.2.2)⟩

theorem allRanked_writtens {es : List Expr} (h : AllWellFormed es) :
    Written.AllRanked (writtens es) := by
  cases es with
  | nil => trivial
  | cons e es => exact ⟨ranked_written h.1, allRanked_writtens h.2⟩

end

/-- The pieces of an expression. -/
def pieces (e : Expr) : List Piece := e.written.pieces

end Expr

namespace Written

@[simp] theorem plain_pieces_groupUnless (fits : Bool) (w : Written) :
    Piece.plain (w.groupUnless fits).pieces = Piece.plain w.pieces := by
  cases fits with
  | true => rfl
  | false => simp [groupUnless, pieces]

mutual

/-- However an expression is written, its pieces are the same up to parentheses. -/
theorem plain_pieces (w : Written) : Piece.plain w.pieces = Piece.plain w.tree.pieces := by
  cases w with
  | literal => rfl
  | identifier => rfl
  | group inner => simpa [pieces, tree] using inner.plain_pieces
  | unary operator operand =>
      have inner := operand.plain_pieces
      simp only [Expr.pieces, tree, Expr.written, pieces] at inner ⊢
      exact Piece.plain_cons_congr _ (inner.trans (plain_pieces_groupUnless _ _).symm)
  | binary left operator right =>
      have first := left.plain_pieces
      have second := right.plain_pieces
      simp only [Expr.pieces, tree, Expr.written, pieces] at first second ⊢
      rw [Piece.plain_append, Piece.plain_append, first, plain_pieces_groupUnless,
        Piece.plain_cons_congr _ (second.trans (plain_pieces_groupUnless _ _).symm)]
  | call callee arguments =>
      have first := callee.plain_pieces
      have second := plain_argumentPieces arguments
      simp only [Expr.pieces, tree, Expr.written, pieces] at first ⊢
      simp [first, second]
  | member object operator name =>
      have inner := object.plain_pieces
      simp only [Expr.pieces, tree, Expr.written, pieces] at inner ⊢
      rw [Piece.plain_append, inner, Piece.plain_append, plain_pieces_groupUnless]

theorem plain_argumentPieces (ws : List Written) :
    Piece.plain (argumentPieces ws) = Piece.plain (argumentPieces (Expr.writtens (trees ws))) := by
  cases ws with
  | nil => rfl
  | cons w ws =>
      have first := w.plain_pieces
      rw [Expr.pieces] at first
      simp [argumentPieces, trees, Expr.writtens, first, plain_furtherPieces ws]

theorem plain_furtherPieces (ws : List Written) :
    Piece.plain (furtherPieces ws) = Piece.plain (furtherPieces (Expr.writtens (trees ws))) := by
  cases ws with
  | nil => rfl
  | cons w ws =>
      have first := w.plain_pieces
      rw [Expr.pieces] at first
      refine Piece.plain_cons_congr _ ?_
      rw [Piece.plain_append, Piece.plain_append, first, plain_furtherPieces ws]

end

end Written

end TagLang
