import TagLang.Proofs.Element.Orderly

/-!
# Orderly parses of whole sources

Uses are parsed in an orderly way. A whole unit is not, since it takes the end of the source,
but where it fails it names a token all the same.
-/

namespace TagLang

open Parse Stream'

namespace Grammar

variable {r : Registry} {n : Nat} {s : Stream' Token}

theorem orderly_use : (use n).Orderly r s := by
  refine orderly_look_bind ?_
  show (if s.head.kind == .word .useWord then _ else _ : Parse (Option Use)).Orderly r s
  split
  · rename_i same
    have kind : s.head.kind = .word .useWord := by simpa using same
    refine orderly_next_bind (Registry.consumes_of_kind ?_ ?_) ?_
    · simp [kind]
    · simp [kind, TokenKind.isFault]
    · refine orderly_path.bind fun name t => ?_
      refine (orderly_accept (by decide) rfl).bind fun renamed u => ?_
      cases renamed with
      | true => exact (orderly_expect (by decide) rfl).map
      | false => exact orderly_done
  · exact orderly_done

theorem orderly_uses : (uses n).Orderly r s := orderly_gather (fun _ => orderly_use) n []

/-- The end of the source is taken by nothing but a whole unit. -/
theorem blames_compilationUnit : (compilationUnit r n).Blames r s := by
  refine orderly_uses.blames_bind fun uses t _ => ?_
  exact ((orderly_level n).element t).blames_bind fun element u _ => blames_expect.map

theorem orderly_furtherTopLevel {top : Level} (h : top.Orderly r) :
    (furtherTopLevel top).Orderly r s := by
  refine orderly_look_bind ?_
  show (if s.head.kind == .eof then done none
    else top.element.bind fun e => done (some e)).Orderly r s
  split
  · exact orderly_done
  · exact (h.element s).map

theorem blames_scriptUnit : (scriptUnit r n).Blames r s := by
  refine orderly_uses.blames_bind fun uses t _ => ?_
  have elements : (gather (furtherTopLevel (level r n)) n []).Orderly r t :=
    orderly_gather (fun _ => orderly_furtherTopLevel (orderly_level n)) n []
  exact elements.blames_bind fun _ u _ => blames_expect.map

end Grammar

end TagLang
