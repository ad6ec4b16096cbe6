import TagLang.Grammar.Unit
import TagLang.Proofs.Expr.Written
import TagLang.Proofs.Parser.Reached
import TagLang.Proofs.Piece.Regular

/-!
# What the parser of expressions accepts

Whatever tokens are ahead, an expression that is returned was written there: the
tokens taken are those of a `Written` tree that obeys the law of precedence, every
operator on its left edge binds more tightly than the power it was parsed at, and
the token behind it does not. The loop that extends an expression keeps all of
this but the last as its invariant (`ReadFrom`), and one level of nesting is sound
if the level below it is.
-/

namespace TagLang

open Parse

variable {s t u : Stream' Token} {power : BindingPower} {n : Nat} {below : Level}

namespace Written

/-- The written expression was read from the first sequence, which left the second one,
where operators bind more tightly than the power. -/
structure ReadFrom (w : Written) (power : BindingPower) (s t : Stream' Token) : Prop where
  wellFormed : w.tree.WellFormed
  ranked : w.Ranked
  reads : Piece.Reads w.pieces s t
  tighter : ∀ q ∈ w.leftEdge, power < q
  admits : ∀ q rule, Registry.standard.continuation? t.head.kind = some (q, rule) → w.Admits q

/-- An expression whose left edge is tighter than a power holds together at least as
tightly as any looser power than the prefix operators'. -/
theorem lt_level {w : Written} (loose : power < .unary) (h : ∀ q ∈ w.leftEdge, power < q) :
    power < w.level := by
  cases w with
  | unary => exact loose
  | binary left operator right => exact h _ List.mem_cons_self
  | _ => exact Nat.lt_trans loose BindingPower.unary_lt_primary

/-- What may be continued by an operator of a looser power than the prefix operators'
holds together at least as tightly as the operator. -/
theorem le_level {w : Written} (loose : power < .unary) (h : w.Admits power) :
    power ≤ w.level := by
  cases w with
  | unary => exact h
  | binary left operator right =>
      simp only [Admits] at h
      split at h
      · exact Nat.le_of_lt h
      · exact h
  | _ => exact Nat.le_of_lt (Nat.lt_trans loose BindingPower.unary_lt_primary)

/-- What may be continued by a power holds together more tightly than it. -/
theorem exponent_lt_level {w : Written} (wf : w.tree.WellFormed) (h : w.Admits .exponent) :
    .exponent < w.level := by
  cases w with
  | binary left operator right =>
      rcases wf.1 with binary | power
      · have below := (Registry.lt_exponent_of_binary binary).1
        have apart := (Registry.lt_exponent_of_binary binary).2
        simp only [Admits, if_neg apart] at h
        exact absurd h (Nat.not_le.mpr below)
      · have equal := Registry.eq_exponent_of_power power
        simp only [Admits, if_pos equal.2] at h
        rw [equal.1] at h
        exact absurd h (Nat.lt_irrefl _)
  | unary => exact BindingPower.exponent_lt_unary
  | _ => exact BindingPower.exponent_lt_primary

/-- What a call or a member may continue is no operator and has no prefix. -/
theorem unary_lt_level {w : Written} (wf : w.tree.WellFormed) (tight : .unary < power)
    (h : w.Admits power) : .unary < w.level := by
  cases w with
  | unary => exact absurd h (Nat.not_le.mpr tight)
  | binary left operator right =>
      have loose : operator.power ≤ .exponent := by
        rcases wf.1 with binary | power
        · exact Nat.le_of_lt (Registry.lt_exponent_of_binary binary).1
        · exact Nat.le_of_eq (congrArg _ (Registry.eq_exponent_of_power power).1)
      have reached : power ≤ operator.power := by
        simp only [Admits] at h
        split at h
        · exact Nat.le_of_lt h
        · exact h
      have tighter := Nat.lt_trans BindingPower.exponent_lt_unary tight
      exact absurd (Nat.le_trans reached loose) (Nat.not_le.mpr tighter)
  | _ => exact BindingPower.unary_lt_primary

/-- What is parsed at the power of the prefix operators is fit for their operand. -/
theorem unary_le_level {w : Written} (h : ∀ q ∈ w.leftEdge, .unary < q) : .unary ≤ w.level := by
  cases w with
  | unary => exact Nat.le_refl _
  | binary left operator right => exact Nat.le_of_lt (h _ List.mem_cons_self)
  | _ => exact Nat.le_of_lt BindingPower.unary_lt_primary

section Continuations

variable {w r : Written} {tighter : BindingPower}

theorem fits_of_continuation? {x : Token} {rule : ExprContinuation}
    (follows : Registry.standard.continuation? x.kind = some (tighter, rule)) :
    (Piece.held x).Fits x := by
  obtain ⟨m, hm⟩ := Registry.exists_mark_of_continuation? follows
  exact Piece.fits_held (by simp [hm])

theorem ReadFrom.binary (read : w.ReadFrom power s t)
    (follows : Registry.standard.continuation? t.head.kind = some (tighter, .binary))
    (lt : power < tighter) (right : r.ReadFrom tighter t.tail u) (stops : u.head.Stops tighter) :
    (Written.binary w t.head r).ReadFrom power s u := by
  have tokenPower : t.head.power = tighter := Token.power_eq follows
  obtain ⟨looser, apart⟩ := Registry.lt_exponent_of_binary follows
  have loose : tighter < .unary := Nat.lt_trans looser BindingPower.exponent_lt_unary
  refine ⟨⟨.inl (by rwa [tokenPower]), read.wellFormed, right.wellFormed⟩,
    ⟨?_, ?_, read.ranked, right.ranked⟩,
    read.reads.append ⟨fits_of_continuation? follows, right.reads⟩, ?_, ?_⟩
  · rw [FitsLeft, if_neg apart, tokenPower]
    exact le_level loose (read.admits _ _ follows)
  · rw [FitsRight, if_neg apart, tokenPower]
    exact lt_level loose right.tighter
  · simpa [leftEdge, tokenPower] using ⟨lt, read.tighter⟩
  · intro q rule hq
    rw [Admits, if_neg apart, tokenPower]
    exact stops q rule hq

/-- The operator that groups to the right reads its right operand at the next looser power. -/
theorem ReadFrom.exponent (read : w.ReadFrom power s t)
    (follows : Registry.standard.continuation? t.head.kind = some (tighter, .power))
    (lt : power < tighter) (right : r.ReadFrom .multiplicative t.tail u)
    (stops : u.head.Stops .multiplicative) :
    (Written.binary w t.head r).ReadFrom power s u := by
  have tokenPower : t.head.power = tighter := Token.power_eq follows
  have admitted : w.Admits tighter := read.admits _ _ follows
  have fits := fits_of_continuation? follows
  obtain ⟨equal, caret⟩ := Registry.eq_exponent_of_power follows
  rw [equal] at lt tokenPower admitted follows
  refine ⟨⟨.inr (by rwa [tokenPower]), read.wellFormed, right.wellFormed⟩,
    ⟨?_, ?_, read.ranked, right.ranked⟩, read.reads.append ⟨fits, right.reads⟩, ?_, ?_⟩
  · rw [FitsLeft, if_pos caret, tokenPower]
    exact exponent_lt_level read.wellFormed admitted
  · rw [FitsRight, if_pos caret, tokenPower]
    have multiplicative : BindingPower.multiplicative < .unary := by decide
    exact lt_level multiplicative right.tighter
  · simpa [leftEdge, tokenPower] using ⟨lt, read.tighter⟩
  · intro q rule hq
    rw [Admits, if_pos caret, tokenPower]
    exact Nat.lt_succ_of_le (stops q rule hq)

theorem ReadFrom.call (read : w.ReadFrom power s t) {ws : List Written}
    (follows : Registry.standard.continuation? t.head.kind = some (tighter, .call))
    (lt : power < tighter) (wellFormed : Expr.AllWellFormed (trees ws)) (ranked : AllRanked ws)
    (reads : Piece.Reads (argumentPieces ws ++ [.mark .closeParen]) t.tail u) :
    (Written.call w ws).ReadFrom power s u := by
  have admitted : w.Admits tighter := read.admits _ _ follows
  obtain ⟨equal, opened⟩ := Registry.eq_call_of_call follows
  rw [equal] at lt admitted
  refine ⟨⟨read.wellFormed, wellFormed⟩,
    ⟨unary_lt_level read.wellFormed (by decide) admitted, read.ranked, ranked⟩,
    read.reads.append ⟨Piece.fits_mark opened, reads⟩, ?_, fun _ _ _ => trivial⟩
  simpa [leftEdge] using ⟨lt, read.tighter⟩

theorem ReadFrom.member (read : w.ReadFrom power s t)
    (follows : Registry.standard.continuation? t.head.kind = some (tighter, .member))
    (lt : power < tighter) (named : t.tail.head.kind = .identifier) :
    (Written.member w t.head t.tail.head).ReadFrom power s t.tail.tail := by
  have tokenPower : t.head.power = tighter := Token.power_eq follows
  have admitted : w.Admits tighter := read.admits _ _ follows
  have fits := fits_of_continuation? follows
  have equal := Registry.eq_member_of_member follows
  rw [equal] at lt admitted tokenPower follows
  refine ⟨⟨follows, named, read.wellFormed⟩,
    ⟨unary_lt_level read.wellFormed (by decide) admitted, read.ranked⟩,
    read.reads.append ⟨fits, Piece.fits_held (by rw [named]; decide), rfl⟩, ?_,
    fun _ _ _ => trivial⟩
  simpa [leftEdge, tokenPower] using ⟨lt, read.tighter⟩

end Continuations

end Written

/-- Expressions of this level are read as they are written, at any power. -/
def Level.ReadsExpr (l : Level) : Prop :=
  ∀ power s, (l.expr power).Ensures s fun o t =>
    ∀ e, o = some e → ∃ w : Written, w.tree = e ∧ w.ReadFrom power s t ∧ t.head.Stops power

theorem Level.ReadsExpr.required (h : below.ReadsExpr) (power : BindingPower)
    (s : Stream' Token) : (below.required power).Ensures s fun e t =>
      ∃ w : Written, w.tree = e ∧ w.ReadFrom power s t ∧ t.head.Stops power := by
  simp only [Level.required, bind_eq, ensures_bind, ensures_look]
  refine (h power s).mono ?_
  intro o t ht
  cases o with
  | none => exact ensures_fail
  | some e => exact ensures_done.mpr (ht e rfl)

namespace Grammar

/-- Items are read with commas between them, through the closing parenthesis. -/
theorem ensures_items {α β : Type} {item : Parse α} (value : β → α) (shape : β → List Piece)
    (good : β → Prop)
    (h : ∀ s, item.Ensures s fun a t => ∃ b, value b = a ∧ good b ∧ Piece.Reads (shape b) s t)
    (n : Nat) (s : Stream' Token) :
    (items n item).Ensures s fun as t => ∃ bs : List β, bs.map value = as ∧ (∀ b ∈ bs, good b) ∧
      Piece.Reads (Piece.separated (bs.map shape) ++ [.mark .closeParen]) s t := by
  simp only [items, bind_eq, ensures_bind, ensures_accept]
  split
  · rename_i closed
    simp only [if_true, pure_eq, ensures_done]
    exact ⟨[], rfl, by simp, Piece.fits_mark closed, rfl⟩
  · simp only [Bool.false_eq_true, if_false, ensures_bind]
    refine (h s).mono ?_
    rintro first t ⟨b, rfl, goodFirst, readFirst⟩
    refine ensures_gather (fun gathered u => ∃ bs : List β, bs ≠ [] ∧
      bs.map value = gathered.reverse ∧ (∀ b ∈ bs, good b) ∧
      Piece.Reads (Piece.separated (bs.map shape)) s u) ?_ n ?_
    · rintro gathered u ⟨bs, ne, values, all, reads⟩
      simp only [furtherItem, bind_eq, ensures_bind, ensures_accept]
      split
      · rename_i comma
        simp only [if_true, ensures_bind]
        refine (h u.tail).mono ?_
        rintro a v ⟨b, rfl, goodNext, readNext⟩
        refine ensures_done.mpr ⟨bs ++ [b], by simp, by simp [values], ?_, ?_⟩
        · simpa [or_imp, forall_and] using ⟨all, goodNext⟩
        · rw [List.map_append, List.map_singleton, Piece.separated_concat (by simpa using ne)]
          exact reads.append ⟨Piece.fits_mark comma, readNext⟩
      · simp only [Bool.false_eq_true, if_false, pure_eq, ensures_done, ensures_expect]
        intro closed
        exact ⟨bs, values, all, reads.append ⟨Piece.fits_mark closed, rfl⟩⟩
    · refine ⟨[b], by simp, rfl, by simpa using goodFirst, ?_⟩
      simpa [Piece.separated, Piece.further] using readFirst

/-- The arguments of a call are read as written expressions. -/
theorem ensures_arguments (sound : below.ReadsExpr) (n : Nat) (s : Stream' Token) :
    (arguments n below).Ensures s fun es t => ∃ ws : List Written, Written.trees ws = es ∧
      Expr.AllWellFormed es ∧ Written.AllRanked ws ∧
      Piece.Reads (Written.argumentPieces ws ++ [.mark .closeParen]) s t := by
  refine (ensures_items Written.tree Written.pieces (fun w => w.tree.WellFormed ∧ w.Ranked)
    ?_ n s).mono ?_
  · intro s
    refine (sound.required .loosest s).mono ?_
    rintro e t ⟨w, rfl, read, -⟩
    exact ⟨w, rfl, ⟨read.wellFormed, read.ranked⟩, read.reads⟩
  · rintro es t ⟨ws, rfl, good, reads⟩
    refine ⟨ws, Written.trees_eq_map ws, ?_, ?_, ?_⟩
    · rw [← Written.trees_eq_map]
      exact Written.allWellFormed_trees_iff.mpr fun w hw => (good w hw).1
    · exact Written.allRanked_iff.mpr fun w hw => (good w hw).2
    · rw [Written.argumentPieces_eq]
      exact reads

theorem ensures_begun (sound : below.ReadsExpr) {x : Token} {rule : ExprStart}
    (begins : Registry.standard.start? x.kind = some rule) (power : BindingPower)
    (hx : s.head = x) :
    (begun below rule x).Ensures s.tail fun e t =>
      ∃ w : Written, w.tree = e ∧ w.ReadFrom power s t := by
  have fits : (Piece.held x).Fits s.head := by
    rw [hx]
    exact Piece.fits_held (Registry.ne_eof_of_start? begins)
  cases rule with
  | literal =>
      rw [begun]
      split
      · rename_i kind hk
        exact ensures_done.mpr ⟨.literal ⟨kind, x⟩, rfl, hk, trivial, ⟨fits, rfl⟩,
          by simp [Written.leftEdge], fun _ _ _ => trivial⟩
      · exact ensures_fail
  | identifier =>
      have kind := Registry.start?_eq_identifier_iff.mp begins
      exact ensures_done.mpr ⟨.identifier x, rfl, kind, trivial, ⟨fits, rfl⟩,
        by simp [Written.leftEdge], fun _ _ _ => trivial⟩
  | group =>
      have opened : s.head.kind = .mark .openParen := by
        rw [hx]
        exact Registry.start?_eq_group_iff.mp begins
      simp only [begun, Level.expression, bind_eq, ensures_bind]
      refine (sound.required .loosest s.tail).mono ?_
      rintro e t ⟨w, rfl, read, -⟩
      refine ensures_expect.mpr fun closed => ensures_done.mpr ⟨.group w, rfl, ?_⟩
      refine ⟨read.wellFormed, read.ranked, ?_, by simp [Written.leftEdge], fun _ _ _ => trivial⟩
      exact ⟨Piece.fits_mark opened, read.reads.append ⟨Piece.fits_mark closed, rfl⟩⟩
  | unary =>
      simp only [begun, bind_eq, ensures_bind]
      refine (sound.required .unary s.tail).mono ?_
      rintro e t ⟨w, rfl, read, stops⟩
      refine ensures_done.mpr ⟨.unary x w, rfl, ?_⟩
      refine ⟨⟨begins, read.wellFormed⟩, ⟨Written.unary_le_level read.tighter, read.ranked⟩,
        ⟨fits, read.reads⟩, by simp [Written.leftEdge], stops⟩

/-- One round of extending an expression keeps what is known of it. -/
theorem ensures_continued (sound : below.ReadsExpr) {w : Written} (read : w.ReadFrom power s t)
    {tighter : BindingPower} {rule : ExprContinuation}
    (follows : Registry.standard.continuation? t.head.kind = some (tighter, rule))
    (lt : power < tighter) :
    (continued n below rule w.tree t.head tighter).Ensures t.tail fun e u =>
      ∃ w' : Written, w'.tree = e ∧ w'.ReadFrom power s u := by
  cases rule with
  | binary =>
      simp only [continued, bind_eq, ensures_bind]
      refine (sound.required tighter t.tail).mono ?_
      rintro e u ⟨r, rfl, right, stops⟩
      exact ensures_done.mpr ⟨.binary w t.head r, rfl, read.binary follows lt right stops⟩
  | power =>
      simp only [continued, bind_eq, ensures_bind]
      refine (sound.required .multiplicative t.tail).mono ?_
      rintro e u ⟨r, rfl, right, stops⟩
      exact ensures_done.mpr ⟨.binary w t.head r, rfl, read.exponent follows lt right stops⟩
  | call =>
      simp only [continued, bind_eq, ensures_bind]
      refine (ensures_arguments sound n t.tail).mono ?_
      rintro es u ⟨ws, rfl, wellFormed, ranked, reads⟩
      exact ensures_done.mpr ⟨.call w ws, rfl, read.call follows lt wellFormed ranked reads⟩
  | member =>
      simp only [continued, bind_eq, ensures_bind]
      refine ensures_expect.mpr ?_
      intro named
      exact ensures_done.mpr ⟨.member w t.head t.tail.head, rfl, read.member follows lt named⟩

/-- The loop goes on as long as the next token binds more tightly than the power. -/
theorem ensures_extended (sound : below.ReadsExpr) (k : Nat) {w : Written}
    (read : w.ReadFrom power s t) :
    (extended .standard n below power k w.tree).Ensures t fun e u =>
      ∃ w' : Written, w'.tree = e ∧ w'.ReadFrom power s u ∧ u.head.Stops power := by
  induction k generalizing w t with
  | zero => exact ensures_refuse
  | succ k ih =>
      simp only [extended, bind_eq, ensures_bind, ensures_look]
      cases follows : Registry.standard.continuation? t.head.kind with
      | none =>
          refine ensures_done.mpr ⟨w, rfl, read, ?_⟩
          intro q rule hq
          rw [follows] at hq
          cases hq
      | some next =>
          obtain ⟨tighter, rule⟩ := next
          by_cases le : tighter ≤ power
          · simp only [if_pos le, pure_eq, ensures_done]
            refine ⟨w, rfl, read, ?_⟩
            intro q rule hq
            rw [follows] at hq
            cases hq
            exact le
          · simp only [if_neg le, ensures_bind, ensures_next]
            refine (ensures_continued sound read follows (BindingPower.not_le.mp le)).mono ?_
            rintro e u ⟨w', rfl, read'⟩
            exact ih read'

theorem ensures_expr (sound : below.ReadsExpr) (power : BindingPower) (s : Stream' Token) :
    (expr .standard n below power).Ensures s fun o t =>
      ∀ e, o = some e → ∃ w : Written, w.tree = e ∧ w.ReadFrom power s t ∧ t.head.Stops power := by
  simp only [expr, bind_eq, ensures_bind, ensures_next]
  cases begins : Registry.standard.start? s.head.kind with
  | none =>
      refine ensures_done.mpr ?_
      intro e he
      cases he
  | some rule =>
      simp only [ensures_bind]
      refine (ensures_begun sound begins power rfl).mono ?_
      rintro e t ⟨w, rfl, read⟩
      refine (ensures_extended sound n read).mono ?_
      rintro e u ⟨w', rfl, read', stops⟩
      refine ensures_done.mpr ?_
      rintro _ ⟨rfl⟩
      exact ⟨w', rfl, read', stops⟩

/-- Every level of nesting reads expressions as they are written. -/
theorem readsExpr_level (n : Nat) : (level .standard n).ReadsExpr := by
  induction n with
  | zero => exact fun power s => ensures_refuse
  | succ n ih => exact fun power s => ensures_expr ih power s

end Grammar

namespace Parser

variable {source : String} {file : Option String} {options : LexerOptions} {p : Parser}

/-- An expression that a parser of the language returns, at any power and after any other
parses, was written ahead: the tokens taken spell it, parentheses included, every operand
without parentheses of its own obeys the law of precedence, the operators on the left edge
bind more tightly than the power, and the next token does not. -/
theorem exists_written_of_required (h : p.Reached source file options) (power : BindingPower)
    {e : Expr} (ok : (p.ask (p.level.required power)).1 = .ok e) :
    ∃ (c : Written) (taken : List Token), c.tree = e ∧ e.WellFormed ∧ c.Ranked ∧
      (∀ q ∈ c.leftEdge, power < q) ∧
      p.stream.upcoming = taken ++ₛ (p.ask (p.level.required power)).2.stream.upcoming ∧
      List.Forall₂ Piece.Spells c.pieces taken ∧
      (p.ask (p.level.required power)).2.stream.look.1.Stops power := by
  have sound : p.level.ReadsExpr := by
    rw [level, h.registry_eq]
    exact Grammar.readsExpr_level _
  obtain ⟨c, rfl, read, stops⟩ := ask_of_ensures h.inOrder (sound.required power _) ok
  obtain ⟨taken, consumed, fits⟩ := Piece.exists_of_reads read.reads
  refine ⟨c, taken, rfl, read.wellFormed, read.ranked, read.tighter, consumed, ?_, ?_⟩
  · exact Piece.spells_of_fits fits fun t ht => h.regular_of_mem consumed ht
  · have reached := h.ask (p.level.required power)
    rw [reached.inOrder.upcoming_look.2.2]
    exact stops

/-- A sum whose second operand is a product with a grouped operand. -/
theorem exists_written_of_required_sum :
    ∃ (e : Expr) (c : Written),
      ((ofSource "a - b * (c + 1) end" none .standard).ask
        ((ofSource "a - b * (c + 1) end" none .standard).level.required .loosest)).1 = .ok e ∧
      c.tree = e ∧ c.Ranked := by
  obtain ⟨e, ok⟩ := Except.exists_eq_ok (show ((ofSource "a - b * (c + 1) end" none .standard).ask
    ((ofSource "a - b * (c + 1) end" none .standard).level.required .loosest)).1.isOk = true by
      decide +kernel)
  obtain ⟨c, -, tree, -, ranked, -⟩ := exists_written_of_required .start .loosest ok
  exact ⟨e, c, ok, tree, ranked⟩

end Parser

end TagLang
