import Mathlib.Data.Nat.Find
import TagLang.Proofs.Expr.Advances
import TagLang.Proofs.Lexer.Truncated
import TagLang.Proofs.Parser.Faults
import TagLang.Proofs.Unit.Deeper
import TagLang.Proofs.Unit.Viable

/-!
# Errors are found as early as they can be

Where a source is no unit, what stands in front of the position of the error is the beginning
of one (`exists_completion`). An error names a token, and if it could be found without that
token, it would be found in front of any other one, which it could not name. So the parse
waits for that token, and what it has read until then can be completed.
-/

namespace TagLang

open Stream'

namespace Parse

variable {α : Type} {p : Parse α} {r : Registry} {s t : Stream' Token} {e : SyntaxError}

/-- A parse that fails on a token it names has not failed before it sees that token. -/
theorem exists_waits_of_blames (blames : ∀ s, p.Blames r s) (failed : p.on s = (.error e, t)) :
    ∃ i, (s.get i).position = e.position ∧ (∀ j < i, r.Consumes (s.get j)) ∧
      p.feed (s.take i) = .waits := by
  classical
  obtain ⟨m, names, consumes⟩ := blames s e t failed
  have named : ∃ i, (s.get i).position = e.position := ⟨m, names.position.symm⟩
  have le := Nat.find_min' named names.position.symm
  refine ⟨Nat.find named, Nat.find_spec named, fun j lt => consumes j (by omega), ?_⟩
  have other (j : Nat) (lt : j < Nat.find named) : (s.get j).position ≠ e.position :=
    Nat.find_min named lt
  generalize Nat.find named = i at other
  have whole : s.take i ++ₛ s.drop i = s := append_take_drop i s
  cases fed : p.feed (s.take i) with
  | waits => rfl
  | comes a us =>
      have run := on_of_comes fed (s.drop i)
      rw [whole, failed] at run
      cases run
  | fails e' =>
      have run := on_of_fails fed (s.drop i)
      rw [whole, failed] at run
      cases run
      -- Behind the tokens read, nothing stands at the position of the error now.
      let x : Token := ⟨.eof, "", ⟨e.position.file, e.position.line + 1, e.position.column⟩⟩
      have again := on_of_fails fed (const x)
      obtain ⟨j, names, -⟩ := blames (s.take i ++ₛ const x) e _ (Prod.ext again rfl)
      have position := names.position
      by_cases inside : j < (s.take i).length
      · rw [get_append_left _ _ _ inside, take_get] at position
        rw [length_take] at inside
        exact absurd position.symm (other j inside)
      · obtain ⟨k, rfl⟩ : ∃ k, j = (s.take i).length + k :=
          ⟨j - (s.take i).length, by omega⟩
        rw [get_append_right, get_const] at position
        have line := congrArg Position.line position
        exact absurd line (Nat.ne_of_lt (Nat.lt_succ_self _))

end Parse

namespace Filler

theorem legible (z : Filler) : z.piece.Legible := by
  cases z <;> decide +kernel

/-- Fillers that are shown are what the next tokens are. -/
theorem leads_of_shows {zs : List Filler} {follow : Stream' Token → Prop} {a : Spot}
    (shows : Piece.Shows (zs.map piece) a) (behind : follow (a.after (zs.map piece)).tokens) :
    Leads zs follow a.tokens := by
  induction zs generalizing a with
  | nil => exact behind
  | cons z zs ih =>
      obtain ⟨first, others⟩ := shows
      exact ⟨first.kind, first.text, ih others behind⟩

variable {file : String} {options : LexerOptions} {tags : List String} {place : Place}

/-- Fillers that are laid out behind a line break are the tokens that come, and then the source
ends. -/
theorem leads_layout (same : ∀ t, t ∈ tags ↔ t ∈ Registry.standard.tags) (zs : List Filler) :
    Leads zs AtEnd (TaggedLexer.before file options tags place
      ('\n' :: Piece.layout (zs.map piece))).upcoming := by
  rw [TaggedLexer.upcoming_blank rfl, ← List.append_nil (Piece.layout _)]
  have legible : ∀ p ∈ zs.map piece, p.Legible := by
    intro p mem
    obtain ⟨z, -, rfl⟩ := List.mem_map.mp mem
    exact z.legible
  obtain ⟨shows, place', left⟩ := shows_layout legible Breaks.nil.separates same
  refine leads_of_shows shows ?_
  rw [left]
  exact ⟨Lexer.tokenAt file place' [], rfl, TaggedLexer.upcoming_nil⟩

end Filler

namespace Parser

/-- What is parsed as a whole: it blames tokens, its beginnings can be completed, and what a
bound allows a looser one allows. -/
structure Completable (unit : Nat → Parse CompilationUnit) : Prop where
  blames : ∀ n s, (unit n).Blames .standard s
  viable : ∃ zs, ∀ n k, (unit n).Viable k (unit (k + 3)) zs Filler.AtEnd fun _ => 0
  within : ∀ n n', n ≤ n' → (unit n).Within (unit n')

theorem completable_script : Completable (Grammar.scriptUnit .standard) where
  blames _ _ := Grammar.blames_scriptUnit
  viable := ⟨[], fun _ _ => Grammar.viable_scriptUnit (Nat.le_refl _)⟩
  within _ _ := Grammar.within_scriptUnit

theorem completable_unit : Completable (Grammar.compilationUnit .standard) where
  blames _ _ := Grammar.blames_compilationUnit
  viable := ⟨[.symbolTag, .name], fun _ _ => Grammar.viable_compilationUnit (Nat.le_refl _)⟩
  within _ _ := Grammar.within_compilationUnit

/-- A parser has two more levels of nesting than there are characters. -/
theorem length_lt_depth (source : String) (file : Option String) :
    source.toList.length + 2 ≤ (ofSource source file .standard).depth := by
  obtain ⟨tags, -, stream⟩ := exists_stream_ofSource source file .standard
  rw [depth, stream]
  exact Nat.add_le_add_right (Nat.le_add_left _ _) 2

/-- Where a source is not parsed, the parse waits in front of the token that the error names.
The text before that token has the tokens that the parse has read, and with what completes
them laid out behind it, it is parsed. -/
theorem Completable.exists_ok {unit : Nat → Parse CompilationUnit} (h : Completable unit)
    {source : String} {file : Option String} {e : SyntaxError}
    (failed : ((ofSource source file .standard).ask
      (unit (ofSource source file .standard).depth)).1 = .error e) :
    ∃ z u, ((ofSource (e.position.textBefore source ++ z) file .standard).ask
      (unit (ofSource (e.position.textBefore source ++ z) file .standard).depth)).1 = .ok u := by
  obtain ⟨tags, same, stream⟩ := exists_stream_ofSource source file .standard
  have inOrder : (ofSource source file .standard).stream.InOrder := Reached.start.inOrder
  rw [(ask_eq_on _ inOrder).1, stream, TokenStream.upcoming_ofLexer] at failed
  generalize (ofSource source file .standard).depth = n at failed
  obtain ⟨i, position, consumes, waits⟩ :=
    Parse.exists_waits_of_blames (h.blames n) (Prod.ext failed rfl)
  obtain ⟨closing, viable⟩ := h.viable
  obtain ⟨zs, completes⟩ := (viable n i).exists_of_waits waits (Nat.le_of_eq (length_take i _))
  let z := String.ofList ('\n' :: Piece.layout (zs.map Filler.piece))
  let completed := e.position.textBefore source ++ z
  obtain ⟨tags', same', stream'⟩ := exists_stream_ofSource completed file .standard
  obtain ⟨a, b, split, le, placed, cut⟩ :=
    TaggedLexer.exists_upcoming_cut (fun t => (same t).trans (same' t).symm) i fun j lt =>
      Registry.regular_of_consumes (consumes j lt)
  have front : e.position.textBefore source = String.ofList a := by
    rw [← position, placed, Position.textBefore_ofPlace split]
  have text : completed.toList = a ++ '\n' :: Piece.layout (zs.map Filler.piece) := by
    simp [completed, z, front]
  have room : i + 3 ≤ (ofSource completed file .standard).depth := by
    have enough := length_lt_depth completed file
    rw [text, List.length_append, List.length_cons] at enough
    omega
  have yields : (unit (i + 3)).Yields (ofSource completed file .standard).stream.upcoming
      fun _ t => Filler.AtEnd t := by
    rw [stream', TokenStream.upcoming_ofLexer, text, cut _ (.cons _)]
    exact completes _ (Filler.leads_layout same' zs)
  obtain ⟨u, ok, -⟩ := ask_of_yields Reached.start.inOrder ((h.within _ _ room).yields yields)
  exact ⟨z, u, ok⟩

end Parser

/-- Where a source is no script, or no unit, the part of it in front of the error is the
beginning of one. -/
theorem exists_completion (source : String) (file : Option String) (e : SyntaxError) :
    (parseScript source file = .error e →
        ∃ z u, parseScript (e.position.textBefore source ++ z) file = .ok u) ∧
      (parse source file = .error e →
        ∃ z u, parse (e.position.textBefore source ++ z) file = .ok u) :=
  ⟨Parser.completable_script.exists_ok, Parser.completable_unit.exists_ok⟩

/-- No loop has such a second word, but a tag may be followed by one that fits. A unit holds one
element, and the first one may be followed by nothing. -/
theorem exists_completion_forever :
    (∃ e, parseScript "repeat forever" none = .error e ∧
        ∃ z u, parseScript (e.position.textBefore "repeat forever" ++ z) none = .ok u) ∧
      ∃ e, parse "if a\nend\nsymbol b" none = .error e ∧
        ∃ z u, parse (e.position.textBefore "if a\nend\nsymbol b" ++ z) none = .ok u := by
  have script : (parseScript "repeat forever" none).isOk = false := by decide +kernel
  have unit : (parse "if a\nend\nsymbol b" none).isOk = false := by decide +kernel
  obtain ⟨e, failed⟩ := Except.exists_eq_error script
  obtain ⟨e', failed'⟩ := Except.exists_eq_error unit
  refine ⟨⟨e, failed, ?_⟩, e', failed', ?_⟩
  · exact (exists_completion "repeat forever" none e).1 failed
  · exact (exists_completion "if a\nend\nsymbol b" none e').2 failed'

end TagLang
