import TagLang.Proofs.Element.Soundness

/-!
# What the parser of scripts accepts

A script that is returned accounts for every token of its source: up to parentheses, the
tokens that the lexer reads are those of the pieces of the unit, and what the unit holds
are these very tokens.
-/

namespace TagLang

open Parse

namespace Grammar

theorem ensures_uses (n : Nat) (s : Stream' Token) :
    (uses n).Ensures s fun us t =>
      (∀ u ∈ us, u.WellFormed) ∧ Piece.Reads (us.flatMap Use.pieces) s t := by
  refine ensures_gather_reads Use.pieces Use.WellFormed ?_ n s
  intro s
  simp only [use, nextIs, bind_eq, pure_eq, ensures_bind, ensures_look, ensures_done]
  split
  · rename_i introduced
    have introduced : s.head.kind = .word .useWord := by simpa using introduced
    have fits : (Piece.held s.head).Fits s.head := Piece.fits_held (by rw [introduced]; decide)
    simp only [ensures_bind, ensures_next]
    refine (ensures_path n s.tail).mono ?_
    rintro name t ⟨wf, reads⟩
    refine ensures_accept.mpr ?_
    split
    · rename_i renamed
      refine ensures_bind.mpr (ensures_expect.mpr fun synonym => ensures_done.mpr ?_)
      refine ⟨⟨introduced, wf, by simpa using synonym⟩, fits, ?_⟩
      exact reads.append ⟨⟨by rw [renamed]; decide, renamed⟩,
        Piece.fits_held (by rw [synonym]; decide), rfl⟩
    · refine ensures_done.mpr ⟨⟨introduced, wf, by simp⟩, fits, ?_⟩
      simpa using reads
  · exact ensures_done.mpr rfl

/-- A script that is returned is well formed, and its pieces cover all tokens up to the end
of the source. -/
theorem ensures_scriptUnit (n : Nat) (s : Stream' Token) :
    (scriptUnit .standard n).Ensures s fun u t => u.WellFormed ∧
      ∃ m, Piece.Covers u.pieces s m ∧ u.eof = m.head ∧ t = m.tail := by
  simp only [scriptUnit, scriptOf, bind_eq, ensures_bind]
  refine (ensures_uses n s).mono ?_
  rintro us t ⟨wf, reads⟩
  refine (ensures_gather_covers Element.pieces Element.WellFormed ?_ n t).mono ?_
  · intro s
    simp only [furtherTopLevel, nextIs, bind_eq, pure_eq, ensures_bind, ensures_look, ensures_done]
    split
    · exact ensures_done.mpr rfl
    · refine ensures_bind.mpr (((sound_level n).element s).mono ?_)
      rintro e t ⟨wf, -, covers⟩
      exact ensures_done.mpr ⟨wf, covers⟩
  · rintro es m ⟨wfElements, covers⟩
    refine ensures_expect.mpr fun eof => ensures_done.mpr ?_
    refine ⟨⟨wf, Element.allWellFormed_iff.mpr wfElements, eof⟩, m, ?_, rfl, rfl⟩
    rw [CompilationUnit.pieces, Element.bodyPieces_eq]
    exact reads.covers.append covers

end Grammar

namespace Token

/-- Every token but a parenthesis. -/
def plain (ts : List Token) : List Token :=
  ts.filter fun t => t.kind != .mark .openParen && t.kind != .mark .closeParen

end Token

namespace Piece

variable {p : Piece} {ps : List Piece} {t : Token} {ts : List Token}

theorem Spells.kind_eq (h : p.Spells t) : t.kind = p.kind := by
  obtain ⟨content, breaks⟩ := p
  cases content with
  | held u => exact congrArg Token.kind h
  | mark m => exact h.1
  | word w => exact h.1
  | tag name => exact h.1
  | identifier text => exact h.1

/-- Parentheses are dropped on both sides alike. -/
theorem spells_plain (h : List.Forall₂ Spells ps ts) :
    List.Forall₂ Spells (plain ps) (Token.plain ts) := by
  induction h with
  | nil => exact .nil
  | @cons p t ps ts spells _ ih =>
      simp only [plain, Token.plain, List.filter_cons, spells.kind_eq]
      split
      · exact .cons spells ih
      · exact ih

/-- What a list of pieces holds is among the tokens. -/
theorem mem_of_held (h : List.Forall₂ Spells ps ts) (mem : p ∈ ps) (held : p.content = .held t) :
    t ∈ ts := by
  induction h with
  | nil => cases mem
  | @cons q u ps ts spells _ ih =>
      rcases List.mem_cons.mp mem with rfl | mem
      · rw [Spells, held] at spells
        cases spells
        exact List.mem_cons_self
      · exact List.mem_cons_of_mem _ (ih mem)

end Piece

namespace CompilationUnit

/-- The pieces of a unit through the end of the source. -/
def flatten (u : CompilationUnit) : List Piece := u.pieces ++ [.held u.eof]

/-- No identifier that the unit holds is a registered tag. -/
def NamesUntagged (u : CompilationUnit) : Prop :=
  ∀ p ∈ u.flatten, ∀ t, p.content = .held t → t.kind = .identifier →
    t.text ∉ Registry.standard.tags

end CompilationUnit

/-- The tokens of a source without trivia, as the parser of the language reads them: an
identifier that is registered is a tag. -/
def taggedTokens (source : String) (file : Option String) : List Token :=
  (Parser.ofSource source file .standard).stream.lexer.readAll.1

/-- The tokens before the first end of a source are determined. -/
theorem eq_of_append_eq {w ts : List Token} {m n : Stream' Token} (same : w ++ₛ m = ts ++ₛ n)
    (hw : ∀ t ∈ w, t.kind ≠ .eof) (hm : m.head.kind = .eof) (hts : ∀ t ∈ ts, t.kind ≠ .eof)
    (hn : n.head.kind = .eof) : w = ts ∧ m = n := by
  induction w generalizing ts with
  | nil =>
      cases ts with
      | nil => exact ⟨rfl, same⟩
      | cons t ts =>
          have first : m.head = t := congrArg Stream'.head same
          rw [first] at hm
          exact absurd hm (hts t List.mem_cons_self)
  | cons x w ih =>
      cases ts with
      | nil =>
          have first : x = n.head := congrArg Stream'.head same
          rw [← first] at hn
          exact absurd hn (hw x List.mem_cons_self)
      | cons t ts =>
          have first : x = t := congrArg Stream'.head same
          have others := congrArg Stream'.tail same
          obtain ⟨rfl, rfl⟩ := ih others (List.forall_mem_cons.mp hw).2 (List.forall_mem_cons.mp hts).2
          exact ⟨by rw [first], rfl⟩

section Accounting

variable {source : String} {file : Option String} {u : CompilationUnit}

/-- The tagged tokens of a source are what a parser of it has ahead, up to the first of the
tokens at the end. -/
theorem exists_taggedTokens_eq (source : String) (file : Option String) :
    ∃ ts e, taggedTokens source file = ts ++ [e] ∧ (∀ t ∈ ts, t.kind ≠ .eof) ∧ e.kind = .eof ∧
      (Parser.ofSource source file .standard).stream.upcoming = ts ++ₛ Stream'.const e := by
  obtain ⟨tags, -, stream⟩ := Parser.exists_stream_ofSource source file .standard
  rw [taggedTokens, stream, TokenStream.upcoming_ofLexer]
  exact TaggedLexer.exists_readAll_eq

theorem regular_of_mem_taggedTokens {t : Token} (h : t ∈ taggedTokens source file) : t.Regular := by
  obtain ⟨ts, e, all, -, -, come⟩ := exists_taggedTokens_eq source file
  have reached : (Parser.ofSource source file .standard).Reached source file .standard := .start
  have ahead : (Parser.ofSource source file .standard).stream.upcoming =
      (ts ++ [e]) ++ₛ Stream'.const e := by
    rw [come, Stream'.append_append_stream, Stream'.append_eq_cons, ← Stream'.const_eq]
  rw [all] at h
  exact reached.regular_of_mem ahead h

/-- A script that is returned accounts for every token: without the parentheses, the tokens of
the source are spelled by the pieces of the unit, one for one and in order, and are the very
tokens that the unit holds. The unit is well formed at every depth, and none of its names is
a registered tag. -/
theorem spells_of_parseScript (ok : parseScript source file = .ok u) :
    List.Forall₂ Piece.Spells (Piece.plain u.flatten) (Token.plain (taggedTokens source file)) ∧
      u.WellFormed ∧ u.NamesUntagged := by
  have reached : (Parser.ofSource source file .standard).Reached source file .standard := .start
  obtain ⟨wf, m, ⟨qs, reads, same⟩, last, -⟩ := Parser.ask_of_ensures reached.inOrder
    (Grammar.ensures_scriptUnit _ _) ok
  obtain ⟨w, ahead, fits⟩ := Piece.exists_of_reads reads
  obtain ⟨ts, e, all, inner, atEnd, come⟩ := exists_taggedTokens_eq source file
  obtain ⟨rfl, rfl⟩ := eq_of_append_eq (ahead.symm.trans come)
    (fun _ => Piece.ne_eof_of_fits fits) (by rw [← last]; exact wf.2.2) inner atEnd
  have spells : List.Forall₂ Piece.Spells (qs ++ [.held u.eof]) (taggedTokens source file) := by
    rw [all]
    refine List.rel_append ?_ (.cons last.symm .nil)
    refine Piece.spells_of_fits fits fun t ht => ?_
    have here : t ∈ taggedTokens source file := by
      rw [all]
      exact List.mem_append_left _ ht
    exact regular_of_mem_taggedTokens here
  have plain : Piece.plain u.flatten = Piece.plain (qs ++ [.held u.eof]) := by
    rw [CompilationUnit.flatten, Piece.plain_append, Piece.plain_append, same]
  have accounts := Piece.spells_plain spells
  rw [← plain] at accounts
  refine ⟨accounts, wf, ?_⟩
  intro p hp t held name
  have mem : p ∈ Piece.plain u.flatten := by
    refine List.mem_filter.mpr ⟨hp, ?_⟩
    simp [Piece.kind, held, Piece.Content.kind, name]
  have kept := Piece.mem_of_held accounts mem held
  exact (regular_of_mem_taggedTokens ((List.mem_filter.mp kept).1)).identifier name

/-- A use and a function with a branch. -/
theorem spells_of_parseScript_sample :
    ∃ u, parseScript "use a.b function f (x : y) if (x) return -x else end end" none = .ok u ∧
      u.WellFormed := by
  have parsed : (parseScript "use a.b function f (x : y) if (x) return -x else end end"
      none).isOk = true := by
    decide +kernel
  obtain ⟨u, ok⟩ := Except.exists_eq_ok parsed
  exact ⟨u, ok, (spells_of_parseScript ok).2.1⟩

end Accounting

end TagLang
