import TagLang.Proofs.Element.Parallel

/-!
# Whole sources of tokens in pairs

Units and scripts go in parallel where tokens come in pairs with and without the `#` of a tag.
-/

namespace TagLang

open Parse

variable {m : Token.Pairing} {top : Level}

namespace Grammar

theorem parallel_use (n : Nat) :
    Parse.Parallel m (Option.map (Use.map .bare)) (use n) (use n) := by
  refine (parallel_nextIs _).bindBool ?_ ?_
  · exact .done rfl
  · refine parallel_next.bind fun tag tag' sameTag => ?_
    refine (parallel_path n).bind fun name name' sameName => (parallel_accept _).bindBool ?_ ?_
    · refine .done (congrArg some ?_)
      simp only [Use.map, sameTag, sameName, Option.map_none]
    · refine (parallel_expect _).map fun synonym synonym' sameSynonym => congrArg some ?_
      simp only [Use.map, sameTag, sameName, Option.map_some, sameSynonym]

theorem parallel_uses (n : Nat) :
    Parse.Parallel m (List.map (Use.map .bare)) (uses n) (uses n) :=
  parallel_gather (parallel_use n) n rfl

theorem parallel_unitOf (h : top.Parallel m) (n : Nat) :
    Parse.Parallel m (CompilationUnit.map .bare) (unitOf top n) (unitOf top n) := by
  refine (parallel_uses n).bind fun uses uses' sameUses => ?_
  refine h.element.bind fun element element' sameElement => ?_
  refine (parallel_expect _).map fun eof eof' sameEof => ?_
  simp only [CompilationUnit.map, List.map_cons, List.map_nil, sameUses, sameElement, sameEof]

theorem parallel_scriptOf (h : top.Parallel m) (n : Nat) :
    Parse.Parallel m (CompilationUnit.map .bare) (scriptOf top n) (scriptOf top n) := by
  have round : Parse.Parallel m (Option.map (Element.map .bare)) (furtherTopLevel top)
      (furtherTopLevel top) := by
    refine (parallel_nextIs _).bindBool ?_ ?_
    · exact h.element.map fun _ _ same => congrArg some same
    · exact .done rfl
  refine (parallel_uses n).bind fun uses uses' sameUses => ?_
  refine (parallel_gather round n rfl).bind fun elements elements' sameElements => ?_
  refine (parallel_expect _).map fun eof eof' sameEof => ?_
  simp only [CompilationUnit.map, sameUses, sameElements, sameEof]

end Grammar

end TagLang
