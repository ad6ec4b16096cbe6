import Mathlib.Data.List.Forall2
import Mathlib.Data.Stream.Init
import TagLang.Token.Basic

/-!
# Pieces of written trees

A tree is written as a sequence of pieces, one for each token. Most pieces are
tokens that the tree holds; the others it only implies: separators, brackets and
fixed words. `Reads` says that the tokens between two places of a sequence are
those of the given pieces, as far as a parse looks at them; `Covers` says the same
up to parentheses, which group without leaving a trace in the tree.
-/

namespace TagLang

/-- What a piece is: a token that the tree holds, or what stands for one that it
only implies. -/
inductive Piece.Content
  | held (token : Token)
  | mark (mark : Mark)
  | word (word : Keyword)
  | tag (name : String)
  | identifier (text : String)

/-- One token of a written tree, and whether it begins a line. -/
structure Piece where
  content : Piece.Content
  breaks : Bool

namespace Piece

namespace Content

/-- The kind of the token. -/
def kind : Content → TokenKind
  | .held t => t.kind
  | .mark m => .mark m
  | .word w => .word w
  | .tag _ => .tag
  | .identifier _ => .identifier

/-- The text that the token is written with. -/
def text : Content → String
  | .held t => t.text
  | .mark m => String.ofList m.spelling
  | .word w => String.ofList w.spelling
  | .tag name => name
  | .identifier text => text

/-- A parse that looks for this content accepts the token. Of a mark or a word it looks
at the kind alone. -/
def Fits : Content → Token → Prop
  | .held t, u => u = t
  | .mark m, u => u.kind = .mark m
  | .word w, u => u.kind = .word w
  | .tag name, u => u.kind = .tag ∧ u.tagName = name
  | .identifier text, u => u.kind = .identifier ∧ u.text = text

/-- The token has the kind and the text of the content, and is the very token where the
tree holds one. A tag may have a `#` before its name. -/
def Spells : Content → Token → Prop
  | .held t, u => u = t
  | .mark m, u => u.kind = .mark m ∧ u.text = String.ofList m.spelling
  | .word w, u => u.kind = .word w ∧ u.text = String.ofList w.spelling
  | .tag name, u => u.kind = .tag ∧ u.tagName = name
  | .identifier text, u => u.kind = .identifier ∧ u.text = text

end Content

def held (t : Token) : Piece := ⟨.held t, false⟩

def mark (m : Mark) : Piece := ⟨.mark m, false⟩

def word (w : Keyword) : Piece := ⟨.word w, false⟩

def tag (name : String) : Piece := ⟨.tag name, false⟩

def identifier (text : String) : Piece := ⟨.identifier text, false⟩

/-- Pieces behind a comma each. -/
def further (items : List (List Piece)) : List Piece := items.flatMap fun ps => mark .comma :: ps

/-- Pieces with a comma between each two. -/
def separated : List (List Piece) → List Piece
  | [] => []
  | ps :: items => ps ++ further items

theorem separated_concat {items : List (List Piece)} (ne : items ≠ []) (ps : List Piece) :
    separated (items ++ [ps]) = separated items ++ mark .comma :: ps := by
  cases items with
  | nil => exact absurd rfl ne
  | cons qs items => simp [separated, further, List.append_assoc]

section Length

variable {β : Type} {shape : β → List Piece} {bs : List β} {b : β}

theorem length_le_length_flatMap (h : b ∈ bs) : (shape b).length ≤ (bs.flatMap shape).length :=
  (List.sublist_flatten_of_mem (List.mem_map_of_mem h)).length_le

theorem length_flatMap_ge (ne : ∀ b ∈ bs, shape b ≠ []) : bs.length ≤ (bs.flatMap shape).length := by
  induction bs with
  | nil => exact Nat.le_refl _
  | cons b bs ih =>
      obtain ⟨first, others⟩ := List.forall_mem_cons.mp ne
      have pos := List.length_pos_iff.mpr first
      have le := ih others
      rw [List.flatMap_cons, List.length_append, List.length_cons]
      omega

theorem length_le_length_separated (h : b ∈ bs) :
    (shape b).length ≤ (separated (bs.map shape)).length := by
  cases bs with
  | nil => cases h
  | cons c bs =>
      rw [List.map_cons, separated, List.length_append, further, List.flatMap_map]
      rcases List.mem_cons.mp h with rfl | h
      · omega
      · have le := @length_le_length_flatMap _ (fun b => mark .comma :: shape b) bs b h
        rw [List.length_cons] at le
        omega

theorem length_separated_ge (ne : ∀ b ∈ bs, shape b ≠ []) :
    bs.length ≤ (separated (bs.map shape)).length := by
  cases bs with
  | nil => exact Nat.le_refl _
  | cons c bs =>
      have pos := List.length_pos_iff.mpr (ne c List.mem_cons_self)
      have le := @length_flatMap_ge _ (fun b => mark .comma :: shape b) bs fun _ _ => by simp
      rw [List.map_cons, separated, List.length_append, further, List.flatMap_map, List.length_cons]
      omega

end Length

/-- The kind of the token. -/
def kind (p : Piece) : TokenKind := p.content.kind

/-- The text that the token is written with. -/
def text (p : Piece) : String := p.content.text

@[simp] theorem kind_held (t : Token) : (held t).kind = t.kind := rfl

/-- The first piece begins a line. -/
def beginLine : List Piece → List Piece
  | [] => []
  | p :: ps => { p with breaks := true } :: ps

/-- A parse that looks for this piece accepts the token, which is not the one at the
end of the source. -/
def Fits (p : Piece) (t : Token) : Prop := t.kind ≠ .eof ∧ p.content.Fits t

/-- The token is what the piece is written as. -/
def Spells (p : Piece) (t : Token) : Prop := p.content.Spells t

theorem fits_mark {m : Mark} {t : Token} (h : t.kind = .mark m) : (mark m).Fits t :=
  ⟨by simp [h], h⟩

theorem fits_identifier {text : String} {t : Token} (kind : t.kind = .identifier)
    (h : t.text = text) : (identifier text).Fits t :=
  ⟨by simp [kind], kind, h⟩

theorem fits_held {t : Token} (h : t.kind ≠ .eof) : (held t).Fits t := ⟨h, rfl⟩

/-- The tokens from the first sequence up to the second one fit the pieces. -/
def Reads : List Piece → Stream' Token → Stream' Token → Prop
  | [], s, t => s = t
  | p :: ps, s, t => p.Fits s.head ∧ Reads ps s.tail t

variable {p : Piece} {ps qs : List Piece} {s t u : Stream' Token}

@[simp] theorem reads_nil : Reads [] s t ↔ s = t := Iff.rfl

@[simp] theorem reads_cons : Reads (p :: ps) s t ↔ p.Fits s.head ∧ Reads ps s.tail t := Iff.rfl

theorem reads_append : Reads (ps ++ qs) s u ↔ ∃ t, Reads ps s t ∧ Reads qs t u := by
  induction ps generalizing s with
  | nil => simp
  | cons p ps ih =>
      simp only [List.cons_append, reads_cons, ih]
      constructor
      · rintro ⟨fits, t, first, second⟩
        exact ⟨t, ⟨fits, first⟩, second⟩
      · rintro ⟨t, ⟨fits, first⟩, second⟩
        exact ⟨fits, t, first, second⟩

theorem Reads.append (first : Reads ps s t) (second : Reads qs t u) : Reads (ps ++ qs) s u :=
  reads_append.mpr ⟨t, first, second⟩

@[simp] theorem reads_beginLine : Reads (beginLine ps) s t ↔ Reads ps s t := by
  cases ps <;> rfl

/-- What is read is a list of tokens, none of them the end of the source. -/
theorem exists_of_reads (h : Reads ps s t) :
    ∃ w, s = w ++ₛ t ∧ List.Forall₂ Fits ps w := by
  induction ps generalizing s with
  | nil => exact ⟨[], h, .nil⟩
  | cons p ps ih =>
      obtain ⟨w, hw, fits⟩ := ih h.2
      refine ⟨s.head :: w, ?_, .cons h.1 fits⟩
      rw [Stream'.cons_append_stream, ← hw, Stream'.eta]

/-- The end of the source fits no piece. -/
theorem ne_eof_of_fits {w : List Token} (h : List.Forall₂ Fits ps w) {t : Token} (ht : t ∈ w) :
    t.kind ≠ .eof := by
  induction h with
  | nil => cases ht
  | cons fits _ ih =>
      rcases List.mem_cons.mp ht with rfl | ht
      · exact fits.1
      · exact ih ht

/-- Every piece but a parenthesis. -/
def plain (ps : List Piece) : List Piece :=
  ps.filter fun p => p.kind != .mark .openParen && p.kind != .mark .closeParen

@[simp] theorem plain_append (ps qs : List Piece) : plain (ps ++ qs) = plain ps ++ plain qs :=
  List.filter_append ..

@[simp] theorem plain_nil : plain [] = [] := rfl

@[simp] theorem plain_openParen (ps : List Piece) : plain (mark .openParen :: ps) = plain ps := rfl

@[simp] theorem plain_closeParen (ps : List Piece) :
    plain (mark .closeParen :: ps) = plain ps := rfl

theorem plain_cons_congr (p : Piece) {ps qs : List Piece} (h : plain ps = plain qs) :
    plain (p :: ps) = plain (p :: qs) := by
  rw [← List.singleton_append, plain_append, h, ← plain_append, List.singleton_append]

/-- The tokens from the first sequence up to the second one fit the pieces, if
parentheses are put in or left out. -/
def Covers (ps : List Piece) (s t : Stream' Token) : Prop :=
  ∃ qs, Reads qs s t ∧ plain qs = plain ps

theorem Reads.covers (h : Reads ps s t) : Covers ps s t := ⟨ps, h, rfl⟩

theorem Covers.refl : Covers [] s s := ⟨[], rfl, rfl⟩

theorem Covers.append (first : Covers ps s t) (second : Covers qs t u) :
    Covers (ps ++ qs) s u := by
  obtain ⟨ps', hp, plainp⟩ := first
  obtain ⟨qs', hq, plainq⟩ := second
  exact ⟨ps' ++ qs', hp.append hq, by simp only [plain_append, plainp, plainq]⟩

theorem Covers.cons (first : p.Fits s.head) (second : Covers ps s.tail t) :
    Covers (p :: ps) s t :=
  Covers.append (show Reads [p] s s.tail from ⟨first, rfl⟩).covers second

theorem Covers.congr (h : Covers ps s t) (same : plain ps = plain qs) : Covers qs s t := by
  obtain ⟨ps', hp, plainp⟩ := h
  exact ⟨ps', hp, plainp.trans same⟩

end Piece

end TagLang
