import TagLang.Proofs.Element.Written
import TagLang.Proofs.Piece.Layout

/-!
# Where an element may end

Behind an element comes another one, the word or the tag that ends its sequence, or the end
of the source. An element begins with annotations or with its tag, on a line of its own
(`Opens`), and a sequence ends with tokens that begin none (`Closes`). In either case what
comes before may end there: no operator continues an expression, no name or list of
annotations goes on, and what looks like the value of a result is none (`Boundary`).
-/

namespace TagLang

namespace TokenKind

/-- The kinds of the tags that begin constructs. -/
def constructTags : List TokenKind := [.tag, .word .moduleWord, .word .packageWord]

/-- The kinds of the tokens that begin elements. -/
def openings : List TokenKind := .documentation :: .identifier :: constructTags

end TokenKind

namespace Registry

variable {t : Token}

theorem tagName_mem_openers (h : standard.isConstructTag t = true) : t.tagName ∈ openers := by
  have some : (standard.candidates t.tagName) ≠ [] := by
    intro empty
    simp [isConstructTag, empty] at h
  obtain ⟨c, hc⟩ := List.exists_mem_of_ne_nil _ some
  exact mem_openers_of_mem_candidates hc

/-- No auxiliary tag begins a construct. -/
theorem owner?_eq_none_of_isConstructTag (h : standard.isConstructTag t = true) :
    standard.owner? t.tagName = none := by
  have table : ∀ word ∈ openers, standard.owner? word = none := by decide
  exact table _ (tagName_mem_openers h)

/-- No tag of a construct goes over several lines. -/
theorem count_newline_of_isConstructTag (h : standard.isConstructTag t = true) :
    t.text.toList.count '\n' = 0 := by
  have table : ∀ word ∈ openers, word.toList.count '\n' = 0 := by decide
  have name := table _ (tagName_mem_openers h)
  rw [Token.tagName] at name
  split at name
  · rename_i rest text
    rw [String.toList_ofList] at name
    rw [text, List.count_cons, name]
    rfl
  · exact name

/-- A construct begins with a tag or with one of two reserved words. -/
theorem kind_of_isConstructTag (regular : t.Regular) (h : standard.isConstructTag t = true) :
    t.kind ∈ TokenKind.constructTags := by
  have table : ∀ w ∈ Keyword.all,
      standard.isConstructTag ⟨.word w, String.ofList w.spelling, .null⟩ = true →
        TokenKind.word w ∈ TokenKind.constructTags := by
    decide
  obtain ⟨kind, text, position⟩ := t
  cases kind with
  | tag => exact List.mem_cons_self
  | word w =>
      have spelled : text = String.ofList w.spelling := regular.word w rfl
      subst spelled
      exact table w (Keyword.mem_all w) h
  | _ => simp [isConstructTag, dispatches, TokenKind.isKeyword] at h

end Registry

namespace Spot

/-- An element begins here, with annotations or with its tag. -/
inductive Opens (a : Spot) : Prop
  | annotated (kind : a.tokens.head.kind.annotates = true)
      (later : a.line < a.tokens.head.position.line)
      (next : a.tokens.tail.head.kind.annotates = true ∨
        Registry.standard.isConstructTag a.tokens.tail.head = true)
  | tagged (regular : a.tokens.head.Regular)
      (tag : Registry.standard.isConstructTag a.tokens.head = true)

/-- A sequence of elements ends here. -/
def Closes (a : Spot) : Prop := Grammar.endsSequence .standard a.tokens.head = true

/-- No value of a result begins here: no expression does, or a name annotates an element on
a later line. -/
def Bare (a : Spot) : Prop :=
  Registry.standard.start? a.tokens.head.kind = none ∨
    a.tokens.head.kind = .identifier ∧ a.line < a.tokens.head.position.line ∧
      (a.tokens.tail.head.kind.annotates = true ∨
        Registry.standard.isConstructTag a.tokens.tail.head = true)

/-- An element may end here. -/
structure Boundary (a : Spot) : Prop where
  ne_mark : ∀ m, a.tokens.head.kind ≠ .mark m
  bare : a.Bare

variable {a : Spot}

theorem Opens.kind_mem (h : a.Opens) : a.tokens.head.kind ∈ TokenKind.openings := by
  cases h with
  | annotated kind =>
      revert kind
      cases a.tokens.head.kind <;> simp [TokenKind.annotates, TokenKind.openings]
  | tagged regular tag =>
      apply List.mem_cons_of_mem
      apply List.mem_cons_of_mem
      exact Registry.kind_of_isConstructTag regular tag

theorem Opens.ne_eof (h : a.Opens) : a.tokens.head.kind ≠ .eof := by
  have others : ∀ kind ∈ TokenKind.openings, kind ≠ .eof := by decide
  exact others _ h.kind_mem

theorem Opens.boundary (h : a.Opens) : a.Boundary := by
  have others : ∀ kind ∈ TokenKind.openings, (∀ m ∈ Mark.all, kind ≠ .mark m) ∧
      (Registry.standard.start? kind = none ∨ kind = .identifier) := by
    decide
  obtain ⟨ne_mark, start⟩ := others _ h.kind_mem
  refine ⟨fun m => ne_mark m (Mark.mem_all m), ?_⟩
  cases h with
  | annotated kind later next => exact start.imp_right fun name => ⟨name, later, next⟩
  | tagged regular tag =>
      refine .inl (start.resolve_right fun name => ?_)
      have kind := Registry.kind_of_isConstructTag regular tag
      rw [name] at kind
      revert kind
      decide

theorem Opens.not_closes (h : a.Opens) : ¬ a.Closes := by
  intro closes
  have others : ∀ kind ∈ TokenKind.openings, kind ≠ .word .endWord ∧ kind ≠ .eof := by decide
  obtain ⟨ne_end, ne_eof⟩ := others _ h.kind_mem
  rw [Closes, Grammar.endsSequence] at closes
  split at closes
  · contradiction
  · contradiction
  · rename_i tag
    cases h with
    | annotated kind => simp [tag, TokenKind.annotates] at kind
    | tagged regular isTag =>
        rw [Registry.owner?_eq_none_of_isConstructTag isTag] at closes
        cases closes
  · cases closes

theorem Closes.boundary (h : a.Closes) : a.Boundary := by
  rw [Closes, Grammar.endsSequence] at h
  split at h
  · rename_i word
    exact ⟨by simp [word], .inl (by rw [word]; decide)⟩
  · rename_i eof
    exact ⟨by simp [eof], .inl (by rw [eof]; decide)⟩
  · rename_i tag
    exact ⟨by simp [tag], .inl (by rw [tag]; decide)⟩
  · cases h

theorem closes_of_endWord (h : a.tokens.head.kind = .word .endWord) : a.Closes := by
  simp [Closes, Grammar.endsSequence, h]

theorem closes_of_eof (h : a.tokens.head.kind = .eof) : a.Closes := by
  simp [Closes, Grammar.endsSequence, h]

/-- An auxiliary tag ends a sequence. -/
theorem closes_of_isTag {tag : String} (h : a.tokens.head.IsTag tag)
    (owned : (Registry.standard.owner? tag).isSome = true) : a.Closes := by
  simp [Closes, Grammar.endsSequence, h.1, h.2, owned]

theorem Boundary.continuation? (h : a.Boundary) :
    Registry.standard.continuation? a.tokens.head.kind = none :=
  Registry.continuation?_eq_none h.ne_mark

end Spot

namespace Token

variable {t u : Token} {tag : String}

theorem tagName_congr (text : t.text = u.text) : t.tagName = u.tagName := by
  rw [tagName, tagName, text]

theorem isConstructTag_congr (kind : t.kind = u.kind) (text : t.text = u.text) :
    Registry.standard.isConstructTag t = Registry.standard.isConstructTag u := by
  rw [Registry.isConstructTag, Registry.isConstructTag, Registry.dispatches, Registry.dispatches,
    kind, tagName_congr text]

theorem isTag_congr (kind : t.kind = u.kind) (text : t.text = u.text) :
    t.IsTag tag ↔ u.IsTag tag := by
  rw [IsTag, IsTag, kind, tagName_congr text]

theorem not_isTag_of_word {w : Keyword} (h : t.kind = .word w) : ¬ t.IsTag tag := by
  rintro ⟨kind, -⟩
  rw [h] at kind
  cases kind

end Token

theorem Annotation.annotates_of_wellFormed {x : Annotation} (wf : x.WellFormed) :
    x.token.kind.annotates = true := by
  cases x with
  | documentation t =>
      have kind : t.kind = .documentation := wf
      rw [token, kind]
      rfl
  | named t =>
      have kind : t.kind = .identifier := wf
      rw [token, kind]
      rfl

/-- The same spot one line further. -/
def Spot.nextLine (a : Spot) : Spot := ⟨a.line + 1, a.tokens⟩

namespace Head

variable {h : Head} {kind : ElementKind} {a : Spot}

/-- The second word behind the tag, if there is one. -/
def second (h : Head) (kind : ElementKind) : List Piece :=
  ((kind.second? h.tag.tagName).map Piece.identifier).toList

/-- The annotations before the tag, the tag and the second word, wherever they begin. -/
def start (h : Head) (kind : ElementKind) : List Piece :=
  Piece.leading h.leading ++ .held h.tag :: h.second kind

/-- The opening of an element is shown on the next line. -/
theorem shows_opening : Piece.Shows (h.opening kind) a ↔ Piece.Shows (h.start kind) a.nextLine := by
  have first (t : Token) : ({ Piece.held t with breaks := true }).Shown a ↔
      (Piece.held t).Shown a.nextLine := by
    constructor
    · rintro ⟨kind, text, line, regular⟩
      exact ⟨kind, text, line, regular⟩
    · rintro ⟨kind, text, line, regular⟩
      exact ⟨kind, text, line, regular⟩
  rw [opening, start]
  cases h.leading with
  | nil => exact and_congr (first _) Iff.rfl
  | cons b bs => exact and_congr (first _) Iff.rfl

theorem after_opening : a.after (h.opening kind) = a.nextLine.after (h.start kind) := by
  rw [opening, start]
  cases h.leading with
  | nil => rfl
  | cons b bs => rfl

theorem length_opening (h : Head) (kind : ElementKind) :
    (h.opening kind).length = (h.start kind).length := by
  rw [opening, start]
  cases h.leading with
  | nil => rfl
  | cons b bs => rfl

theorem Begins.isConstructTag (wf : h.Begins kind) :
    Registry.standard.isConstructTag h.tag = true := by
  obtain ⟨c, candidate, -⟩ := wf.construct
  have ne := List.ne_nil_of_mem candidate
  simp [Registry.isConstructTag, wf.dispatches, ne]

/-- The tag is still one where it is shown. -/
theorem Begins.isConstructTag_of_shown (wf : h.Begins kind) (shown : (Piece.held h.tag).Shown a) :
    Registry.standard.isConstructTag a.tokens.head = true := by
  rw [Token.isConstructTag_congr shown.kind shown.text]
  exact wf.isConstructTag

theorem Begins.opens (wf : h.Begins kind) (shown : Piece.Shows (h.opening kind) a) : a.Opens := by
  rw [shows_opening, start] at shown
  cases annotations : h.leading with
  | nil =>
      rw [annotations] at shown
      have tag := wf.isConstructTag_of_shown shown.1
      exact .tagged shown.1.regular tag
  | cons x xs =>
      have annotates := fun y hy => Annotation.annotates_of_wellFormed (wf.leading y hy)
      rw [annotations] at shown annotates
      obtain ⟨first, others⟩ := shown
      have kind : a.tokens.head.kind = x.token.kind := first.kind
      have line : a.tokens.head.position.line = a.line + 1 := first.line
      refine .annotated ?_ ?_ ?_
      · rw [kind]
        exact annotates x List.mem_cons_self
      · rw [line]
        exact Nat.lt_succ_self _
      · cases xs with
        | nil => exact .inr (wf.isConstructTag_of_shown others.1)
        | cons y ys =>
            have kind : a.tokens.tail.head.kind = y.token.kind := others.1.kind
            rw [kind]
            exact .inl (annotates y (by simp))

/-- The first token is shown first. -/
theorem first_of_shows (shown : Piece.Shows (h.opening kind) a) :
    a.tokens.head.kind = h.first.kind ∧ a.tokens.head.text = h.first.text := by
  rw [shows_opening, start] at shown
  rw [first]
  cases annotations : h.leading with
  | nil =>
      rw [annotations] at shown
      exact ⟨shown.1.kind, shown.1.text⟩
  | cons x xs =>
      rw [annotations] at shown
      exact ⟨shown.1.kind, shown.1.text⟩

end Head

namespace Element

variable {e : Element} {es : List Element} {a : Spot}

theorem pieces_ne_nil (e : Element) : e.pieces ≠ [] := by
  rw [pieces, opening, Head.opening]
  cases e.head.leading <;> simp [Piece.leading, Piece.beginLine]

theorem begins_of_wellFormed (wf : e.WellFormed) : e.head.Begins e.kind := by
  cases e <;> exact wf.1

theorem opens_of_shows (wf : e.WellFormed) (shown : Piece.Shows e.pieces a) : a.Opens := by
  rw [pieces, Piece.shows_append] at shown
  exact (begins_of_wellFormed wf).opens shown.1

/-- An element is shown on the next line, where its first piece breaks no line itself. -/
theorem shows_pieces : Piece.Shows e.pieces a ↔ Piece.Shows (Piece.leading e.head.leading ++
    ((.held e.head.tag :: e.head.second e.kind) ++ e.content)) a.nextLine := by
  rw [pieces, Piece.shows_append, opening, Head.after_opening, Head.shows_opening,
    ← Piece.shows_append, Head.start, List.append_assoc]

theorem after_pieces : a.after e.pieces = a.nextLine.after (Piece.leading e.head.leading ++
    ((.held e.head.tag :: e.head.second e.kind) ++ e.content)) := by
  rw [pieces, Spot.after_append, opening, Head.after_opening, Head.start, ← Spot.after_append,
    List.append_assoc]

theorem length_leading_add_length_content_lt (e : Element) :
    (Piece.leading e.head.leading).length + e.content.length < e.pieces.length := by
  rw [pieces, List.length_append, opening, Head.length_opening, Head.start, List.length_append,
    List.length_cons]
  omega

/-- Behind something that has a boundary after some elements, there is one before them. -/
theorem boundary_of_shows (wf : AllWellFormed es) (shown : Piece.Shows (bodyPieces es) a)
    (behind : (a.after (bodyPieces es)).Boundary) : a.Boundary := by
  cases es with
  | nil => exact behind
  | cons e es =>
      rw [bodyPieces_eq, List.flatMap_cons, Piece.shows_append] at shown
      exact (opens_of_shows wf.1 shown.1).boundary

end Element

end TagLang
