import TagLang.Proofs.Parser.Reached
import TagLang.Proofs.Piece.Basic

/-!
# Pieces before a parser of the language

Of a mark or a reserved word a parse looks at the kind alone. Where all tokens are
regular the kind says the text too, so a token that fits a piece spells it.
-/

namespace TagLang.Piece

variable {p : Piece} {ps : List Piece} {t : Token} {taken : List Token}

theorem Fits.spells (h : p.Fits t) (regular : t.Regular) : p.Spells t := by
  obtain ⟨content, breaks⟩ := p
  obtain ⟨-, fits⟩ := h
  cases content with
  | held u => exact fits
  | mark m => exact ⟨fits, regular.mark m fits⟩
  | word w => exact ⟨fits, regular.word w fits⟩
  | tag name => exact fits
  | identifier text => exact fits

theorem spells_of_fits (h : List.Forall₂ Fits ps taken) (regular : ∀ t ∈ taken, t.Regular) :
    List.Forall₂ Spells ps taken := by
  induction h with
  | nil => exact .nil
  | cons fits _ ih =>
      obtain ⟨first, others⟩ := List.forall_mem_cons.mp regular
      exact .cons (fits.spells first) (ih others)

end TagLang.Piece
