import TagLang.Proofs.Expr.LeftEdge
import TagLang.Proofs.Piece.Legible

/-!
# What the parser of expressions gives back

An expression that is written with the parentheses it needs, or with more, is parsed back
as it was, and what comes behind it is left. The operators on its left edge are met by one
loop from the innermost to the outermost, so a written expression is followed down its left
edge: `yields_expr_of_extended` leads from its first token to the loop behind its last one,
and operands on the other side are parsed one level below.
-/

namespace TagLang

open Parse

namespace Written

/-- The first token of a written expression begins one. -/
theorem exists_start_of_shows {c : Written} {a : Spot} (wf : c.tree.WellFormed)
    (shown : Piece.Shows c.pieces a) :
    ∃ rule, Registry.standard.start? a.tokens.head.kind = some rule := by
  cases c with
  | literal value =>
      have wf : LiteralKind.ofTokenKind? value.token.kind = some value.kind := wf
      refine ⟨.literal, ?_⟩
      rw [shown.1.kind, Registry.start?_eq_literal_iff, Piece.kind_held,
        ← LiteralKind.isSome_ofTokenKind?, wf]
      rfl
  | identifier name =>
      refine ⟨.identifier, ?_⟩
      rw [shown.1.kind]
      exact Registry.start?_eq_identifier_iff.mpr wf
  | group inner =>
      refine ⟨.group, ?_⟩
      rw [shown.1.kind]
      exact Registry.start?_eq_group_iff.mpr rfl
  | unary operator operand =>
      refine ⟨.unary, ?_⟩
      rw [shown.1.kind]
      exact wf.1
  | binary left operator right =>
      rw [pieces, Piece.shows_append] at shown
      exact exists_start_of_shows wf.2.1 shown.1
  | call callee arguments =>
      rw [pieces, Piece.shows_append] at shown
      exact exists_start_of_shows wf.1 shown.1
  | member object operator name =>
      rw [pieces, Piece.shows_append] at shown
      exact exists_start_of_shows wf.2.2 shown.1

/-- An expression goes on in the line that has been reached. -/
theorem line_of_shows {c : Written} {a : Spot} (shown : Piece.Shows c.pieces a) :
    a.tokens.head.position.line = a.line := by
  cases c with
  | literal | identifier | group | unary => exact shown.1.line
  | binary left operator right =>
      rw [pieces, Piece.shows_append] at shown
      exact line_of_shows shown.1
  | call callee arguments =>
      rw [pieces, Piece.shows_append] at shown
      exact line_of_shows shown.1
  | member object operator name =>
      rw [pieces, Piece.shows_append] at shown
      exact line_of_shows shown.1

end Written

/-- A written expression of fewer than `bound` pieces is parsed back, at any power that the
operators on its left edge exceed and the token behind it does not. -/
def Level.WritesExpr (l : Level) (bound : Nat) : Prop :=
  ∀ (c : Written) (power : BindingPower) (a : Spot), c.pieces.length < bound →
    c.tree.WellFormed → c.Ranked → Piece.Shows c.pieces a → power ≤ .unary →
    (∀ q ∈ c.leftEdge, power < q) → (a.after c.pieces).tokens.head.Stops power →
    (l.expr power).Takes a c.pieces fun o => ∃ e, o = some e ∧ e.erase = c.tree.erase

variable {below : Level} {bound n : Nat} {power : BindingPower} {c : Written} {a : Spot}

theorem Level.WritesExpr.required (complete : below.WritesExpr bound)
    (room : c.pieces.length < bound) (wf : c.tree.WellFormed) (ranked : c.Ranked)
    (shown : Piece.Shows c.pieces a) (loose : power ≤ .unary)
    (tighter : ∀ q ∈ c.leftEdge, power < q)
    (stops : (a.after c.pieces).tokens.head.Stops power) :
    (below.required power).Takes a c.pieces fun e => e.erase = c.tree.erase := by
  refine takes_look_bind (yields_bind.mpr ?_)
  refine (complete c power a room wf ranked shown loose tighter stops).yields ?_
  rintro _ ⟨e, rfl, same⟩
  exact yields_done.mpr ⟨same, rfl⟩

/-- Behind a whole expression comes a token that continues none. -/
theorem Level.WritesExpr.expression (complete : below.WritesExpr bound)
    (room : c.pieces.length < bound) (wf : c.tree.WellFormed) (ranked : c.Ranked)
    (shown : Piece.Shows c.pieces a)
    (stops : Registry.standard.continuation? (a.after c.pieces).tokens.head.kind = none) :
    below.expression.Takes a c.pieces fun e => e.erase = c.tree.erase := by
  refine complete.required room wf ranked shown (by decide)
    (Written.loosest_lt_of_mem_leftEdge wf ranked) ?_
  intro q rule follows
  rw [stops] at follows
  cases follows

namespace Grammar

theorem yields_extended_of_stops {s : Stream' Token} {left : Expr} {k : Nat}
    {post : Expr → Stream' Token → Prop} (stops : s.head.Stops power) (h : post left s) :
    (extended .standard n below power (k + 1) left).Yields s post := by
  simp only [extended, bind_eq, yields_bind, yields_look]
  cases follows : Registry.standard.continuation? s.head.kind with
  | none => exact yields_done.mpr h
  | some next =>
      obtain ⟨tighter, rule⟩ := next
      simp only [if_pos (stops tighter rule follows), pure_eq, yields_done]
      exact h

theorem yields_extended_of_continued {s : Stream' Token} {left : Expr} {k : Nat}
    {post : Expr → Stream' Token → Prop} {tighter : BindingPower} {rule : ExprContinuation}
    (follows : Registry.standard.continuation? s.head.kind = some (tighter, rule))
    (lt : power < tighter)
    (h : (continued n below rule left s.head tighter).Yields s.tail fun e t =>
      (extended .standard n below power k e).Yields t post) :
    (extended .standard n below power (k + 1) left).Yields s post := by
  simp only [extended, bind_eq, yields_bind, yields_look, follows,
    if_neg (BindingPower.not_le.mpr lt), yields_next]
  exact h

theorem yields_expr_of_begun {s : Stream' Token} {rule : ExprStart}
    {post : Option Expr → Stream' Token → Prop}
    (begins : Registry.standard.start? s.head.kind = some rule)
    (h : (begun below rule s.head).Yields s.tail fun e t =>
      (extended .standard n below power n e).Yields t fun e u => post (some e) u) :
    (expr .standard n below power).Yields s post := by
  simp only [expr, bind_eq, yields_bind, yields_next, begins]
  refine h.mono ?_
  intro e t ht
  exact ht.mono fun e u hu => yields_done.mpr hu

theorem takes_arguments (complete : below.WritesExpr bound) {ws : List Written}
    (room : (Written.argumentPieces ws).length < bound) (enough : ws.length ≤ n)
    (wf : Expr.AllWellFormed (Written.trees ws)) (ranked : Written.AllRanked ws)
    (shown : Piece.Shows (Written.argumentPieces ws ++ [.mark .closeParen]) a) :
    (arguments n below).Takes a (Written.argumentPieces ws ++ [.mark .closeParen]) fun es =>
      Expr.erases es = Expr.erases (Written.trees ws) := by
  rw [Written.argumentPieces_eq] at room shown ⊢
  rw [Written.allWellFormed_trees_iff] at wf
  rw [Written.allRanked_iff] at ranked
  have loop := @takes_items _ _ below.expression Written.pieces
    (fun e w => e.erase = w.tree.erase) ws n a ?_ ?_ enough shown
  · refine loop.mono ?_
    intro es same
    show Expr.erases es = Expr.erases (Written.trees ws)
    rw [Expr.erases_eq_map, Expr.erases_eq_map, Written.trees_eq_map, List.map_map]
    exact List.map_eq_map_of_forall₂ same
  · intro w hw b shown behind
    have fits := Nat.lt_of_le_of_lt (Piece.length_le_length_separated hw) room
    refine complete.expression fits (wf w hw) (ranked w hw) shown ?_
    rcases List.mem_pair.mp behind with comma | closed
    · rw [comma]
      exact Registry.continuation?_comma
    · rw [closed]
      exact Registry.continuation?_closeParen
  · intro w hw b shown closed
    obtain ⟨rule, begins⟩ := Written.exists_start_of_shows (wf w hw) shown
    rw [closed, Registry.start?_closeParen] at begins
    cases begins

section LeftEdge

/-- A written expression leads from its first token to the loop behind its last one. The loop
has gone as many rounds as there are operators on the left edge. -/
def LeadsOn (below : Level) (n : Nat) (c : Written) : Prop :=
  ∀ (power : BindingPower) (a : Spot) (post : Option Expr → Stream' Token → Prop),
    c.pieces.length ≤ n → c.tree.WellFormed → c.Ranked → Piece.Shows c.pieces a →
    (∀ q ∈ c.leftEdge, power < q) →
    (∀ q rule, Registry.standard.continuation? (a.after c.pieces).tokens.head.kind =
      some (q, rule) → c.Admits q) →
    (∀ e : Expr, e.erase = c.tree.erase →
      (extended .standard n below power (n - c.leftEdge.length) e).Yields
        (a.after c.pieces).tokens fun e t => post (some e) t) →
    (expr .standard n below power).Yields a.tokens post

theorem leadsOn_literal (value : Literal) : LeadsOn below n (.literal value) := by
  intro power a post room wf ranked shown tighter admits loop
  have kind : a.tokens.head.kind = value.token.kind := shown.1.kind
  have wf : LiteralKind.ofTokenKind? value.token.kind = some value.kind := wf
  rw [← kind] at wf
  have begins : Registry.standard.start? a.tokens.head.kind = some .literal := by
    rw [Registry.start?_eq_literal_iff, ← LiteralKind.isSome_ofTokenKind?, wf]
    rfl
  apply yields_expr_of_begun begins
  simp only [begun, wf, pure_eq, yields_done]
  apply loop (.literal ⟨value.kind, a.tokens.head⟩)
  rw [Expr.erase, shown.1.erase_head]
  rfl

theorem leadsOn_identifier (name : Token) : LeadsOn below n (.identifier name) := by
  intro power a post room wf ranked shown tighter admits loop
  have kind : a.tokens.head.kind = name.kind := shown.1.kind
  apply yields_expr_of_begun (Registry.start?_eq_identifier_iff.mpr (kind.trans wf))
  apply yields_done.mpr
  apply loop (.identifier a.tokens.head)
  rw [Expr.erase, shown.1.erase_head]
  rfl

theorem leadsOn_group (complete : below.WritesExpr n) (inner : Written) :
    LeadsOn below n (.group inner) := by
  intro power a post room wf ranked shown tighter admits loop
  rw [Written.pieces, Piece.shows_cons, Piece.shows_append] at shown
  obtain ⟨opening, shown, closing, -⟩ := shown
  have closed : ((a.past (.mark .openParen)).after inner.pieces).tokens.head.kind =
    .mark .closeParen := closing.kind
  have fits : inner.pieces.length < n := by
    simp only [Written.pieces, List.length_cons, List.length_append] at room
    omega
  apply yields_expr_of_begun (Registry.start?_eq_group_iff.mpr opening.kind)
  simp only [begun, bind_eq, yields_bind]
  refine (complete.expression fits wf ranked shown ?_).yields ?_
  · rw [closed]
    exact Registry.continuation?_closeParen
  · intro e same
    refine yields_expect closed (yields_done.mpr ?_)
    have h := loop e same
    rw [Written.pieces, Spot.after_cons, Spot.after_append] at h
    exact h

theorem leadsOn_unary (complete : below.WritesExpr n) (operator : Token) (operand : Written) :
    LeadsOn below n (.unary operator operand) := by
  intro power a post room wf ranked shown tighter admits loop
  have kind : a.tokens.head.kind = operator.kind := shown.1.kind
  have fits : operand.pieces.length < n := by
    simp only [Written.pieces, List.length_cons] at room
    omega
  have begins : Registry.standard.start? a.tokens.head.kind = some .unary := by
    rw [kind]
    exact wf.1
  apply yields_expr_of_begun begins
  simp only [begun, bind_eq, yields_bind]
  refine (complete.required fits wf.2 ranked.2 shown.2 (Nat.le_refl _)
    (Written.unary_lt_of_mem_leftEdge wf.2 ranked.2 ranked.1) admits).yields ?_
  intro e same
  refine yields_done.mpr (loop (.unary a.tokens.head e) ?_)
  rw [Expr.erase, same, shown.1.erase_head]
  rfl

/-- An operand on the left leads on to the operator behind it, whose handler is one more round
of the loop. -/
theorem yields_expr_of_left {left : Written} {tighter : BindingPower} {rule : ExprContinuation}
    {post : Option Expr → Stream' Token → Prop} (leads : LeadsOn below n left)
    (room : left.pieces.length < n) (wf : left.tree.WellFormed) (ranked : left.Ranked)
    (shown : Piece.Shows left.pieces a) (lt : power < tighter)
    (edge : ∀ q ∈ left.leftEdge, power < q) (admits : left.Admits tighter)
    (follows : Registry.standard.continuation? (a.after left.pieces).tokens.head.kind =
      some (tighter, rule))
    (h : ∀ e : Expr, e.erase = left.tree.erase →
      (continued n below rule e (a.after left.pieces).tokens.head tighter).Yields
        (a.after left.pieces).tokens.tail fun e t =>
          (extended .standard n below power (n - (left.leftEdge.length + 1)) e).Yields t
            fun e t => post (some e) t) :
    (expr .standard n below power).Yields a.tokens post := by
  have short := left.two_mul_length_leftEdge_lt
  have rounds : n - left.leftEdge.length = n - (left.leftEdge.length + 1) + 1 := by omega
  refine leads power a post (Nat.le_of_lt room) wf ranked shown edge ?_ ?_
  · intro q other followsToo
    rw [follows] at followsToo
    cases followsToo
    exact admits
  · intro e same
    rw [rounds]
    exact yields_extended_of_continued follows lt (h e same)

theorem leadsOn_binary (complete : below.WritesExpr n) {left : Written} (operator : Token)
    (right : Written) (leads : LeadsOn below n left) :
    LeadsOn below n (.binary left operator right) := by
  intro power a post room wf ranked shown tighter admits loop
  rw [Written.pieces, Piece.shows_append] at shown
  obtain ⟨shownLeft, shown, shownRight⟩ := shown
  have kind : (a.after left.pieces).tokens.head.kind = operator.kind := shown.kind
  have fits : left.pieces.length < n ∧ right.pieces.length < n := by
    simp only [Written.pieces, List.length_append, List.length_cons] at room
    omega
  have operand {l : Expr} (sameLeft : l.erase = left.tree.erase) {limit : BindingPower}
      (loose : limit ≤ .unary) (fitsRight : limit < right.level)
      (stops : (a.after (left.pieces ++ .held operator :: right.pieces)).tokens.head.Stops limit) :
      (below.required limit).Yields (a.after left.pieces).tokens.tail fun r t =>
        (extended .standard n below power (n - (left.leftEdge.length + 1))
          (.binary l (a.after left.pieces).tokens.head r)).Yields t
          fun e t => post (some e) t := by
    rw [Spot.after_append, Spot.after_cons] at stops
    refine (complete.required fits.2 wf.2.2 ranked.2.2.2 shownRight loose
      (Written.lt_of_mem_leftEdge wf.2.2 ranked.2.2.2 loose fitsRight) stops).yields ?_
    intro r sameRight
    have h := loop (.binary l (a.after left.pieces).tokens.head r) (by
      rw [Expr.erase, sameLeft, sameRight, shown.erase_head]
      rfl)
    rw [Written.pieces, Spot.after_append, Spot.after_cons] at h
    exact h
  have lt : power < operator.power := tighter _ List.mem_cons_self
  have edge : ∀ q ∈ left.leftEdge, power < q := fun q hq => tighter q (List.mem_cons_of_mem _ hq)
  have admitsLeft : left.Admits operator.power :=
    Written.admits_of_fitsLeft wf.2.1 wf.1 ranked.1
  have fitsRight := ranked.2.1
  rw [Written.FitsRight] at fitsRight
  rcases wf.1 with rule | rule
  · obtain ⟨loose, apart⟩ := Registry.lt_exponent_of_binary rule
    rw [if_neg apart] at fitsRight
    refine yields_expr_of_left leads fits.1 wf.2.1 ranked.2.2.1 shownLeft lt edge admitsLeft
      (kind ▸ rule) ?_
    intro l sameLeft
    simp only [continued, bind_eq, pure_eq, yields_bind, yields_done]
    refine operand sameLeft (Nat.le_of_lt (Nat.lt_trans loose BindingPower.exponent_lt_unary))
      fitsRight ?_
    intro q rule follows
    have le := admits q rule follows
    rwa [Written.Admits, if_neg apart] at le
  · obtain ⟨tightest, caret⟩ := Registry.eq_exponent_of_power rule
    rw [if_pos caret, tightest] at fitsRight
    refine yields_expr_of_left leads fits.1 wf.2.1 ranked.2.2.1 shownLeft lt edge admitsLeft
      (kind ▸ rule) ?_
    intro l sameLeft
    simp only [continued, bind_eq, pure_eq, yields_bind, yields_done]
    refine operand sameLeft (by decide) (Nat.lt_of_succ_le fitsRight) ?_
    intro q rule follows
    have le := admits q rule follows
    rw [Written.Admits, if_pos caret, tightest] at le
    exact Nat.le_of_lt_succ le

theorem leadsOn_call (complete : below.WritesExpr n) {callee : Written}
    (arguments : List Written) (leads : LeadsOn below n callee) :
    LeadsOn below n (.call callee arguments) := by
  intro power a post room wf ranked shown tighter admits loop
  rw [Written.pieces, Piece.shows_append] at shown
  obtain ⟨shownCallee, opening, shown⟩ := shown
  have kind : (a.after callee.pieces).tokens.head.kind = .mark .openParen := opening.kind
  have fits : callee.pieces.length < n ∧ (Written.argumentPieces arguments).length < n := by
    simp only [Written.pieces, List.length_append, List.length_cons] at room
    omega
  have enough : arguments.length ≤ (Written.argumentPieces arguments).length := by
    rw [Written.argumentPieces_eq]
    exact Piece.length_separated_ge fun w _ => w.pieces_ne_nil
  refine yields_expr_of_left leads fits.1 wf.1 ranked.2.1 shownCallee
    (tighter _ List.mem_cons_self) (fun q hq => tighter q (List.mem_cons_of_mem _ hq))
    (Written.admits_of_unary_lt wf.1 ranked.1 _) (kind ▸ Registry.continuation?_openParen) ?_
  intro e same
  simp only [continued, bind_eq, pure_eq, yields_bind, yields_done]
  refine (takes_arguments complete fits.2 (by omega) wf.2 ranked.2.2 shown).yields ?_
  intro es sameArguments
  have h := loop (.call e es) (by rw [Expr.erase, same, sameArguments]; rfl)
  rw [Written.pieces, Spot.after_append, Spot.after_cons] at h
  exact h

theorem leadsOn_member {object : Written} (operator name : Token)
    (leads : LeadsOn below n object) : LeadsOn below n (.member object operator name) := by
  intro power a post room wf ranked shown tighter admits loop
  rw [Written.pieces, Piece.shows_append] at shown
  obtain ⟨shownObject, shown, named, -⟩ := shown
  have fits : object.pieces.length < n := by
    simp only [Written.pieces, List.length_append, List.length_cons] at room
    omega
  have kind : (a.after object.pieces).tokens.head.kind = operator.kind := shown.kind
  have identifier : (a.after object.pieces).tokens.tail.head.kind = .identifier :=
    named.kind.trans wf.2.1
  have lt : power < operator.power := tighter _ List.mem_cons_self
  rw [Token.power_eq wf.1] at lt
  refine yields_expr_of_left leads fits wf.2.2 ranked.2 shownObject lt
    (fun q hq => tighter q (List.mem_cons_of_mem _ hq))
    (Written.admits_of_unary_lt wf.2.2 ranked.1 _) (kind ▸ wf.1) ?_
  intro e same
  simp only [continued, bind_eq, pure_eq, yields_bind, yields_done]
  apply yields_expect identifier
  have h := loop (.member e (a.after object.pieces).tokens.head
    (a.after object.pieces).tokens.tail.head) (by
      rw [Expr.erase, same, shown.erase_head, ← Spot.tokens_past, named.erase_head]
      rfl)
  rw [Written.pieces, Spot.after_append, Spot.after_cons] at h
  exact h

/-- Induction down the left edge: the operand on the left is read first, and the loop that is
entered behind it reads the operator. -/
theorem leadsOn (complete : below.WritesExpr n) (c : Written) : LeadsOn below n c := by
  cases c with
  | literal value => exact leadsOn_literal value
  | identifier name => exact leadsOn_identifier name
  | group inner => exact leadsOn_group complete inner
  | unary operator operand => exact leadsOn_unary complete operator operand
  | binary left operator right =>
      exact leadsOn_binary complete operator right (leadsOn complete left)
  | call callee arguments => exact leadsOn_call complete arguments (leadsOn complete callee)
  | member object operator name => exact leadsOn_member operator name (leadsOn complete object)

end LeftEdge

/-- The parses of one level are as complete as those below it, and reach one piece further. -/
theorem takes_expr (complete : below.WritesExpr n) (c : Written) (power : BindingPower)
    (a : Spot) (room : c.pieces.length ≤ n) (wf : c.tree.WellFormed) (ranked : c.Ranked)
    (shown : Piece.Shows c.pieces a) (loose : power ≤ .unary)
    (tighter : ∀ q ∈ c.leftEdge, power < q) (stops : (a.after c.pieces).tokens.head.Stops power) :
    (expr .standard n below power).Takes a c.pieces fun o =>
      ∃ e, o = some e ∧ e.erase = c.tree.erase := by
  have edge := c.two_mul_length_leftEdge_lt
  obtain ⟨rounds, count⟩ : ∃ k, n - c.leftEdge.length = k + 1 :=
    ⟨n - (c.leftEdge.length + 1), by omega⟩
  refine leadsOn complete c power a _ room wf ranked shown tighter ?_ ?_
  · intro q rule follows
    exact Written.admits_of_le loose (stops q rule follows) tighter
  · intro e same
    rw [count]
    exact yields_extended_of_stops stops ⟨⟨e, rfl, same⟩, rfl⟩

/-- Every level of nesting gives back what has fewer pieces. -/
theorem writesExpr_level (n : Nat) : (level .standard n).WritesExpr n := by
  induction n with
  | zero =>
      intro c power a room
      cases room
  | succ n ih =>
      intro c power a room
      exact takes_expr ih c power a (Nat.le_of_lt_succ room)

end Grammar

namespace Written

mutual

theorem ordinary_pieces (c : Written) : Piece.Ordinary c.pieces := by
  cases c with
  | literal | identifier => simp [pieces]
  | group inner => simp [pieces, inner.ordinary_pieces, Piece.Content.implied]
  | unary operator operand => simp [pieces, operand.ordinary_pieces]
  | binary left operator right => simp [pieces, left.ordinary_pieces, right.ordinary_pieces]
  | call callee arguments =>
      simp [pieces, callee.ordinary_pieces, ordinary_argumentPieces arguments,
        Piece.Content.implied]
  | member object operator name => simp [pieces, object.ordinary_pieces]

theorem ordinary_argumentPieces (ws : List Written) : Piece.Ordinary (argumentPieces ws) := by
  cases ws with
  | nil => simp [argumentPieces]
  | cons w ws => simp [argumentPieces, w.ordinary_pieces, ordinary_furtherPieces ws]

theorem ordinary_furtherPieces (ws : List Written) : Piece.Ordinary (furtherPieces ws) := by
  cases ws with
  | nil => simp [furtherPieces]
  | cons w ws => simp [furtherPieces, w.ordinary_pieces, ordinary_furtherPieces ws, Piece.Content.implied]

end

end Written

namespace Parser

variable {c : Written} {rest : String} {file : Option String} {options : LexerOptions}

/-- An expression that obeys the law of precedence is parsed back from the text that it is
written as, with any further parentheses, and the token behind it is left. -/
theorem exists_expression_of_written (wf : c.tree.WellFormed) (ranked : c.Ranked)
    (printable : Piece.Printable c.pieces) (sep : Separates rest.toList)
    (ends : Registry.standard.continuation?
      (ofSource rest file options).stream.look.1.kind = none) :
    ∃ e q, (ofSource (Piece.print c.pieces ++ rest) file options).ask
        (ofSource (Piece.print c.pieces ++ rest) file options).level.expression = (.ok e, q) ∧
      e.erase = c.tree.erase ∧
      q.stream.look.1.erase = (ofSource rest file options).stream.look.1.erase := by
  have reached : (ofSource (Piece.print c.pieces ++ rest) file options).Reached
    (Piece.print c.pieces ++ rest) file options := .start
  obtain ⟨a, ahead, shown, behind⟩ := exists_shows_ofSource
    (printable.legible c.ordinary_pieces) sep file options
  have room := length_lt_depth_ofSource c.pieces rest file options
  have stops : Registry.standard.continuation? (a.after c.pieces).tokens.head.kind = none := by
    rw [(Token.erase_eq_iff.mp behind).1]
    exact ends
  have takes := (Grammar.writesExpr_level _).expression room wf ranked shown stops
  obtain ⟨e, q, ok, same, left⟩ := ask_of_takes reached.inOrder ahead takes
  exact ⟨e, q, ok, same, by rw [left, behind]⟩

/-- A product of a grouped difference and a power, in front of the word that ends a construct. -/
theorem exists_expression_of_written_product :
    ∃ e q, (ofSource "( ( a - b ) ) * f ( - 1 , c ) ^ d end" none .standard).ask
        (ofSource "( ( a - b ) ) * f ( - 1 , c ) ^ d end" none .standard).level.expression =
          (.ok e, q) ∧ q.stream.look.1.kind = .word .endWord := by
  let name (text : String) : Written := .identifier ⟨.identifier, text, .null⟩
  let operator (m : Mark) : Token := ⟨.mark m, String.ofList m.spelling, .null⟩
  let one : Written := .literal ⟨.decimalInteger, ⟨.literal .decimalInteger, "1", .null⟩⟩
  let c : Written := .binary
    (.group (.group (.binary (name "a") (operator .dash) (name "b")))) (operator .star)
    (.binary (.call (name "f") [.unary (operator .dash) one, name "c"]) (operator .caret) (name "d"))
  have wf : c.tree.WellFormed := by
    refine ⟨.inl (by decide), ⟨.inl (by decide), rfl, rfl⟩, .inr (by decide), ⟨rfl, ?_⟩, rfl⟩
    exact ⟨⟨by decide, rfl⟩, rfl, trivial⟩
  have ranked : c.Ranked := by
    refine ⟨by decide, by decide, ⟨by decide, by decide, trivial, trivial⟩, by decide, by decide,
      ⟨by decide, trivial, ?_⟩, trivial⟩
    exact ⟨⟨by decide, trivial⟩, trivial, trivial⟩
  have text : Piece.print c.pieces ++ " end" = "( ( a - b ) ) * f ( - 1 , c ) ^ d end" := by
    decide +kernel
  have printable : Piece.Printable c.pieces := by decide +kernel
  have next : (ofSource " end" none .standard).stream.look.1.kind = .word .endWord := by
    decide +kernel
  have ends : Registry.standard.continuation?
      (ofSource " end" none .standard).stream.look.1.kind = none := by
    rw [next]
    decide
  obtain ⟨e, q, ok, -, left⟩ := exists_expression_of_written wf ranked printable
    (by decide +kernel) ends
  rw [text] at ok
  exact ⟨e, q, ok, (Token.erase_eq_iff.mp left).1.trans next⟩

end Parser

end TagLang
