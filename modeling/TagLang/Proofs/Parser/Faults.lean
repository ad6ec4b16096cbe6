import TagLang.Proofs.Parser.Calls
import TagLang.Proofs.Parser.Reached
import TagLang.Proofs.Unit.Orderly

/-!
# What the errors of a parser name

Whatever a parser is asked to parse, and whatever it was asked before, an error names one of
the tokens that were ahead and leaves the parser in front of that token, just behind it, or
in front of the tag before it, as the cause of the error has it.
-/

namespace TagLang

open Parse Stream'

namespace Parser

variable {α : Type}

/-- Where a parse that can be asked for fails, the error names a token. -/
theorem Query.blames (q : Query α) (r : Registry) (n : Nat) (s : Stream' Token) :
    (q.parse r n).Blames r s := by
  have level := @Grammar.orderly_level r n
  cases q with
  | unit => exact Grammar.blames_compilationUnit
  | script => exact Grammar.blames_scriptUnit
  | element => exact (level.element s).blames
  | elements => exact (Grammar.orderly_elements level).blames
  | leading => exact Grammar.orderly_leading.blames
  | trailing => exact Grammar.orderly_trailing.blames
  | path => exact Grammar.orderly_path.blames
  | parameters => exact Grammar.orderly_parameters.blames
  | arguments => exact (Grammar.orderly_arguments level).blames
  | expr power => exact level.blames_expr power
  | required power => exact (level.required power s).blames
  | closing => exact Grammar.orderly_closing.blames
  | atSequenceEnd => exact Orderly.blames (orderly_look_bind orderly_done)
  | nextIsTag tag => exact (Grammar.orderly_nextIsTag tag).blames
  | acceptTag tag => exact (Grammar.orderly_acceptTag tag).blames
  | canBegin => exact Orderly.blames (orderly_look_bind orderly_done)

theorem inOrder_foldl_register {s : TokenStream} (h : s.InOrder) (tags : List String) :
    (tags.foldl TokenStream.register s).InOrder := by
  induction tags generalizing s with
  | nil => exact h
  | cons tag tags ih =>
      obtain ⟨ts, held⟩ := h
      exact ih ⟨ts, held.register tag⟩

/-- No call upsets the ring of tokens that were read ahead. -/
theorem inOrder_call {p : Parser} (h : p.stream.InOrder) (c : Call α) :
    (p.call c).2.stream.InOrder := by
  cases c with
  | query q => exact (ask_eq_on _ h).2.2
  | stream r =>
      have replied := (TokenStream.run_eq_on (r.parse p.stream.isEmpty) h).2.2
      cases r with
      | register tag =>
          obtain ⟨ts, held⟩ := h
          exact ⟨ts, held.register tag⟩
      | _ =>
          show (p.stream.reply _).2.InOrder
          rw [TokenStream.reply]
          split <;> simp_all
  | register c => exact inOrder_foldl_register h c.tags
  | startWith kind rule => exact h
  | continueWith kind power rule => exact h

theorem inOrder_calls {p : Parser} (h : p.stream.InOrder) (cs : List ((α : Type) × Call α)) :
    (p.calls cs).2.stream.InOrder := by
  induction cs generalizing p with
  | nil => exact h
  | cons c cs ih => exact ih (inOrder_call h c.2)

/-- A parser was made for a source and has answered any calls since. If it then fails to parse
something, the error names one of the tokens ahead, the `i`-th counted from zero: the position
is that of the token, and what the cause says of it is so. Exactly the tokens before it are
taken, with two exceptions: a token that begins no expression is taken too, and where the
second word of a construct does not fit, the tag before it is left as well. -/
theorem exists_names_of_error {source : String} {file : Option String} {options : LexerOptions}
    {cs : List ((α : Type) × Call α)} {p : Parser} {q : Query α} {e : SyntaxError}
    (reached : ((ofSource source file options).calls cs).2 = p)
    (failed : (p.query q).1 = .error e) :
    ∃ i k, e.Names p.stream.upcoming i k ∧
      (p.query q).2.stream.upcoming = p.stream.upcoming.drop k := by
  have made : (ofSource source file options).Reached source file options := .start
  have inOrder : p.stream.InOrder := by
    rw [← reached]
    exact inOrder_calls made.inOrder cs
  obtain ⟨outcome, left, -⟩ := ask_eq_on (q.parse p.registry p.depth) inOrder
  have run : (q.parse p.registry p.depth).on p.stream.upcoming =
      (.error e, (q.parse p.registry p.depth).on p.stream.upcoming |>.2) :=
    Prod.ext (outcome.symm.trans failed) rfl
  obtain ⟨i, names, -⟩ := q.blames p.registry p.depth p.stream.upcoming e _ run
  refine ⟨i, _, names, ?_⟩
  rw [query, left, left_eq_drop_taken]

/-- No path begins with a tag, and then no second word of a loop fits. -/
theorem exists_names_of_error_repeat :
    ∃ p : Parser, ((ofSource "repeat forever" none .standard).calls [⟨Path, .query .path⟩]).2 = p ∧
      ∃ e, (p.query .element).1 = .error e ∧ ∃ i k, e.Names p.stream.upcoming i k ∧
        (p.query .element).2.stream.upcoming = p.stream.upcoming.drop k := by
  have fails : ((((ofSource "repeat forever" none .standard).calls
      [⟨Path, .query .path⟩]).2).query .element).1.isOk = false := by
    decide +kernel
  obtain ⟨e, failed⟩ := Except.exists_eq_error fails
  exact ⟨_, rfl, e, failed, exists_names_of_error rfl failed⟩

end Parser

end TagLang
