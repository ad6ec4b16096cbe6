import TagLang.Proofs.Piece.Loops

/-!
# Texts of pieces that can be read again

The marks and the fixed words that a tree only implies are legible (`legible_of_implied`),
so pieces can be read again from their text if the tokens among them are legible.
-/

namespace TagLang

/-- The text of the token is one lexeme, and a token of its kind where the words of the
language are tags. -/
def Token.Legible (t : Token) : Prop := (Piece.held t).Legible

instance (t : Token) : Decidable t.Legible := inferInstanceAs (Decidable (Piece.held t).Legible)

namespace Piece

namespace Content

/-- What trees imply. -/
def implied : List Content := [
  .mark .openParen, .mark .closeParen, .mark .comma, .mark .dot, .mark .colon, .mark .equals,
  .word .asWord, .word .endWord, .tag "else", .tag "regardless", .identifier "in",
  .identifier "type", .identifier "for", .identifier "until", .identifier "while"]

/-- Either a token or what trees imply. -/
def Ordinary : Content → Prop
  | .held _ => True
  | c => c ∈ implied

/-- If it is a token, it is legible. -/
def Printable : Content → Prop
  | .held t => t.Legible
  | _ => True

instance : DecidablePred Printable
  | .held t => inferInstanceAs (Decidable t.Legible)
  | .mark _ | .word _ | .tag _ | .identifier _ => .isTrue trivial

end Content

/-- Every piece is a token or what trees imply. -/
def Ordinary (ps : List Piece) : Prop := ∀ p ∈ ps, p.content.Ordinary

/-- Every token among the pieces is legible. -/
def Printable (ps : List Piece) : Prop := ∀ p ∈ ps, p.content.Printable

instance (ps : List Piece) : Decidable (Printable ps) :=
  inferInstanceAs (Decidable (∀ p ∈ ps, p.content.Printable))

variable {p : Piece} {ps qs : List Piece}

theorem legible_of_implied (h : p.content ∈ Content.implied) : p.Legible := by
  have table : ∀ c ∈ Content.implied, (Piece.mk c false).Legible := by decide +kernel
  obtain ⟨whole, ne, fault, trivia, kind⟩ := table _ h
  exact ⟨whole, ne, fault, trivia, kind⟩

theorem Printable.legible (h : Printable ps) (ordinary : Ordinary ps) : ∀ p ∈ ps, p.Legible := by
  intro p hp
  have printable := h p hp
  have ordinary := ordinary p hp
  obtain ⟨content, breaks⟩ := p
  cases content with
  | held t =>
      obtain ⟨whole, ne, fault, trivia, kind⟩ := printable
      exact ⟨whole, ne, fault, trivia, kind⟩
  | mark | word | tag | identifier => exact legible_of_implied ordinary

@[simp] theorem ordinary_nil : Ordinary [] := by
  intro p hp
  cases hp

@[simp] theorem ordinary_cons : Ordinary (p :: ps) ↔ p.content.Ordinary ∧ Ordinary ps :=
  List.forall_mem_cons

@[simp] theorem ordinary_append : Ordinary (ps ++ qs) ↔ Ordinary ps ∧ Ordinary qs :=
  List.forall_mem_append

@[simp] theorem ordinary_held (t : Token) : (held t).content.Ordinary := trivial

@[simp] theorem ordinary_mark {m : Mark} :
    (mark m).content.Ordinary ↔ Content.mark m ∈ Content.implied := Iff.rfl

@[simp] theorem ordinary_word {w : Keyword} :
    (word w).content.Ordinary ↔ Content.word w ∈ Content.implied := Iff.rfl

@[simp] theorem ordinary_tag {name : String} :
    (tag name).content.Ordinary ↔ Content.tag name ∈ Content.implied := Iff.rfl

@[simp] theorem ordinary_identifier {text : String} :
    (identifier text).content.Ordinary ↔ Content.identifier text ∈ Content.implied := Iff.rfl

theorem length_le_length_layout (ps : List Piece) : ps.length ≤ (layout ps).length := by
  induction ps with
  | nil => exact Nat.le_refl _
  | cons p ps ih =>
      have more : layout (p :: ps) = p.spelling ++ layout ps := rfl
      have blank : 0 < p.spelling.length := Nat.zero_lt_succ _
      rw [more, List.length_append, List.length_cons]
      omega

theorem length_le_length_render (ps : List Piece) : ps.length ≤ (render ps).length + 1 := by
  have le := length_le_length_layout ps
  rw [render, List.length_tail]
  omega

end Piece

/-- The text of pieces, with one blank between each two. -/
def Piece.print (ps : List Piece) : String := String.ofList (render ps)

namespace Parser

variable {ps : List Piece} {rest : String}

/-- What a parse comes to behind the pieces ahead is the parser's answer, and the token behind
them is the next one. -/
theorem ask_of_takes {α : Type} {p : Parser} {parse : Parse α} {post : α → Prop} {a : Spot}
    (inOrder : p.stream.InOrder) (ahead : p.stream.upcoming = a.tokens)
    (takes : parse.Takes a ps post) :
    ∃ x q, p.ask parse = (.ok x, q) ∧ post x ∧ q.stream.look.1 = (a.after ps).tokens.head := by
  rw [Parse.Takes, ← ahead] at takes
  obtain ⟨x, ok, holds, left⟩ := ask_of_yields inOrder takes
  refine ⟨x, _, Prod.ext ok rfl, holds, ?_⟩
  rw [(ask_eq_on parse inOrder).2.2.upcoming_look.2.2, left]

/-- A parser of the text of pieces has them ahead, and then what a parser of the rest of the
text has. -/
theorem exists_shows_ofSource (legible : ∀ p ∈ ps, p.Legible) (sep : Separates rest.toList)
    (file : Option String) (options : LexerOptions) :
    ∃ a : Spot, (ofSource (Piece.print ps ++ rest) file options).stream.upcoming = a.tokens ∧
      Piece.Shows ps a ∧ (a.after ps).tokens.head.erase =
        (ofSource rest file options).stream.look.1.erase := by
  obtain ⟨tags, same, stream⟩ := exists_stream_ofSource (Piece.print ps ++ rest) file options
  obtain ⟨tags', same', stream'⟩ := exists_stream_ofSource rest file options
  rw [String.toList_append, Piece.print, String.toList_ofList] at stream
  obtain ⟨a, tokens, shows, place, left⟩ := shows_render legible sep same
  refine ⟨a, ?_, shows, ?_⟩
  · rw [Piece.print, stream, TokenStream.upcoming_ofLexer, tokens]
  · have inOrder : (ofSource rest file options).stream.InOrder := Reached.start.inOrder
    rw [left, inOrder.upcoming_look.2.2, stream', TokenStream.upcoming_ofLexer]
    exact Token.erase_eq_iff.mpr
      (TaggedLexer.head_upcoming_congr fun t => (same t).trans (same' t).symm)

/-- A parser of the text of pieces has more levels of nesting than there are pieces. -/
theorem length_lt_depth_ofSource (ps : List Piece) (rest : String) (file : Option String)
    (options : LexerOptions) :
    ps.length < (ofSource (Piece.print ps ++ rest) file options).depth := by
  obtain ⟨tags, -, stream⟩ := exists_stream_ofSource (Piece.print ps ++ rest) file options
  rw [String.toList_append, Piece.print, String.toList_ofList] at stream
  have unread : (Piece.render ps ++ rest.toList).length ≤
      (ofSource (Piece.print ps ++ rest) file options).stream.remaining := by
    rw [Piece.print, stream]
    exact Nat.le_add_left _ _
  have le := Piece.length_le_length_render ps
  rw [List.length_append] at unread
  rw [depth]
  omega

end Parser

end TagLang
