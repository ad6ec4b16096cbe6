import TagLang.Proofs.Element.Completeness
import TagLang.Proofs.Element.Ordinary

/-!
# Scripts are parsed back from their text

`CompilationUnit.print` writes a unit with every element on a line of its own and one blank
between any two other tokens. A unit that is `Printable` is parsed back from this text as it
was, positions aside.
-/

namespace TagLang

open Parse

variable {n : Nat} {a : Spot}

namespace Grammar

section Uses

/-- Neither a name nor a use goes on here. -/
def UseEnds (a : Spot) : Prop :=
  a.tokens.head.kind ≠ .mark .dot ∧ a.tokens.head.kind ≠ .word .asWord

theorem takes_use {u : Use} (room : u.pieces.length < n) (wf : u.WellFormed)
    (shown : Piece.Shows u.pieces a) (ends : UseEnds (a.after u.pieces)) :
    (use n).Takes a u.pieces fun o => ∃ x, o = some x ∧ x.erase = u.erase := by
  obtain ⟨tag, name, synonym⟩ := u
  obtain ⟨isUse, wfName, wfSynonym⟩ := wf
  obtain ⟨first, shown⟩ := shown
  have here : (a.tokens.head.kind == .word .useWord) = true := by
    simpa [first.kind] using isUse
  have taken : next.Takes a [.held tag] fun t => t.erase = tag.erase :=
    takes_next first.erase_head
  have fits : name.pieces.length < n := by
    simp only [Use.pieces, List.length_cons, List.length_append] at room
    omega
  refine takes_look_bind ?_
  show (if _ then _ else _ : Parse (Option Use)).Takes a _ _
  rw [if_pos here]
  refine taken.bind fun t sameTag => ?_
  cases synonym with
  | none =>
      have shownName := (Piece.shows_append.mp shown).1
      simp only [Use.pieces, Spot.after_cons, Spot.after_append] at ends
      refine (takes_path fits wfName shownName ends.1).bind fun path sameName => ?_
      refine takes_accept_bind_of_ne ends.2 (takes_done ⟨_, rfl, ?_⟩)
      rw [Use.erase, sameTag, sameName]
      rfl
  | some u =>
      obtain ⟨shownName, word, shownSynonym, -⟩ := Piece.shows_append.mp shown
      have isAs : ((a.past (.held tag)).after name.pieces).tokens.head.kind = .word .asWord :=
        word.kind
      refine (takes_path fits wfName shownName (by rw [isAs]; decide)).bind
        fun path sameName => ?_
      refine takes_accept_bind isAs ?_
      refine (takes_expect shownSynonym (wfSynonym u rfl)).map fun t same => ⟨_, rfl, ?_⟩
      rw [Use.erase, sameTag, sameName, Option.map_some, Token.erase_eq_iff.mpr same]
      rfl

theorem takes_uses {us : List Use} (room : (us.flatMap Use.pieces).length < n)
    (wf : ∀ u ∈ us, u.WellFormed) (shown : Piece.Shows (us.flatMap Use.pieces) a)
    (ends : UseEnds (a.after (us.flatMap Use.pieces)))
    (other : (a.after (us.flatMap Use.pieces)).tokens.head.kind ≠ .word .useWord) :
    (uses n).Takes a (us.flatMap Use.pieces) fun xs => xs.map Use.erase = us.map Use.erase := by
  have enough : us.length ≤ (us.flatMap Use.pieces).length :=
    Piece.length_flatMap_ge fun _ _ => by simp [Use.pieces]
  have loop := @takes_gather _ _ (use n) Use.pieces (fun x u => x.erase = u.erase) UseEnds us n a
    ?_ ?_ ends ?_ (Nat.lt_of_le_of_lt enough room) shown
  · exact loop.mono fun xs same => List.map_eq_map_of_forall₂ same
  · intro u hu b shown ends
    exact takes_use (Nat.lt_of_le_of_lt (Piece.length_le_length_flatMap hu) room) (wf u hu) shown
      ends
  · intro u hu b shown
    have isUse : b.tokens.head.kind = .word .useWord := shown.1.kind.trans (wf u hu).1
    rw [UseEnds, isUse]
    decide
  · refine takes_look_bind ?_
    show (if _ then _ else _ : Parse (Option Use)).Takes _ _ _
    rw [if_neg (by simpa using other)]
    exact takes_done rfl

end Uses

/-- The elements of a script end where the source does. -/
theorem takes_topLevel {es : List Element} (room : (Element.bodyPieces es).length < n)
    (wf : Element.AllWellFormed es) (shown : Piece.Shows (Element.bodyPieces es) a)
    (ends : (a.after (Element.bodyPieces es)).tokens.head.kind = .eof) :
    (gather (furtherTopLevel (level .standard n)) n []).Takes a (Element.bodyPieces es) fun xs =>
      xs.map Element.erase = es.map Element.erase := by
  rw [Element.bodyPieces_eq] at room shown ends ⊢
  rw [Element.allWellFormed_iff] at wf
  have enough : es.length ≤ (es.flatMap Element.pieces).length :=
    Piece.length_flatMap_ge fun e _ => e.pieces_ne_nil
  have loop := @takes_gather _ _ (furtherTopLevel (level .standard n)) Element.pieces
    (fun x e => x.erase = e.erase) Spot.Boundary es n a ?_ ?_ (Spot.closes_of_eof ends).boundary ?_
    (Nat.lt_of_le_of_lt enough room) shown
  · exact loop.mono fun xs same => List.map_eq_map_of_forall₂ same
  · intro e he b shown boundary
    have fits := Nat.lt_of_le_of_lt (Piece.length_le_length_flatMap he) room
    have goesOn := (Element.opens_of_shows (wf e he) shown).ne_eof
    refine takes_look_bind ?_
    show (if _ then _ else _ : Parse (Option Element)).Takes b _ _
    rw [if_neg (by simpa using goesOn)]
    exact ((complete_level n).element e b fits (wf e he) shown boundary).map
      fun x same => ⟨x, rfl, same⟩
  · exact fun e he b shown => (Element.opens_of_shows (wf e he) shown).boundary
  · refine takes_look_bind ?_
    show (if _ then _ else _ : Parse (Option Element)).Takes _ _ _
    rw [if_pos (by simpa using ends)]
    exact takes_done rfl

/-- Uses end before the elements of a script, or at its end if there are none. -/
theorem useEnds_of_shows {es : List Element} (wf : Element.AllWellFormed es)
    (shown : Piece.Shows (Element.bodyPieces es) a)
    (ends : (a.after (Element.bodyPieces es)).tokens.head.kind = .eof) :
    UseEnds a ∧ a.tokens.head.kind ≠ .word .useWord := by
  cases es with
  | nil =>
      rw [Element.bodyPieces, Spot.after_nil] at ends
      rw [UseEnds, ends]
      decide
  | cons e es =>
      rw [Element.bodyPieces_eq, List.flatMap_cons, Piece.shows_append] at shown
      have table : ∀ kind ∈ TokenKind.openings,
          (kind ≠ .mark .dot ∧ kind ≠ .word .asWord) ∧ kind ≠ .word .useWord := by
        decide
      exact table _ (Element.opens_of_shows wf.1 shown.1).kind_mem

theorem yields_scriptUnit {u : CompilationUnit} (room : u.pieces.length < n) (wf : u.WellFormed)
    (shown : Piece.Shows u.pieces a) (ends : (a.after u.pieces).tokens.head.erase = u.eof.erase) :
    (scriptUnit .standard n).Yields a.tokens fun x _ => x.erase = u.erase := by
  obtain ⟨us, es, eof⟩ := u
  obtain ⟨wfUses, wfElements, isEof⟩ := wf
  obtain ⟨shownUses, shownElements⟩ := Piece.shows_append.mp shown
  have fits : (us.flatMap Use.pieces).length < n ∧ (Element.bodyPieces es).length < n := by
    simp only [CompilationUnit.pieces, List.length_append] at room
    omega
  simp only [CompilationUnit.pieces, Spot.after_append] at ends
  have atEnd : ((a.after (us.flatMap Use.pieces)).after
      (Element.bodyPieces es)).tokens.head.kind = .eof :=
    (Token.erase_eq_iff.mp ends).1.trans isEof
  have behind := useEnds_of_shows wfElements shownElements atEnd
  have uses := takes_uses fits.1 wfUses shownUses behind.1 behind.2
  have elements := takes_topLevel fits.2 wfElements shownElements atEnd
  refine yields_bind.mpr (uses.yields fun us' sameUses => ?_)
  refine yields_bind.mpr (elements.yields fun es' sameElements => ?_)
  refine yields_bind.mpr (yields_expect atEnd (yields_done.mpr ?_))
  rw [CompilationUnit.erase, sameUses, sameElements, ends]
  rfl

end Grammar

namespace CompilationUnit

/-- The text of a unit. Every element begins a line, one blank stands between any two other
tokens, and operands are in parentheses where the law of precedence asks for them. -/
def print (u : CompilationUnit) : String := Piece.print u.pieces

/-- Every token of the unit is of the kind that its place asks for and is read as such where
the words of the language are tags, and the unit ends where its source does. -/
structure Printable (u : CompilationUnit) : Prop where
  wellFormed : u.WellFormed
  legible : Piece.Printable u.pieces
  eof : u.eof.text = ""

variable {u : CompilationUnit}

/-- A script is parsed back from its text: whatever its elements are and however deeply they
are nested, each of them ends where the next one begins. -/
theorem exists_parseScript_print (h : u.Printable) (file : Option String) :
    ∃ x, parseScript u.print file = .ok x ∧ x.erase = u.erase := by
  have sep : Separates "".toList := by decide
  obtain ⟨a, ahead, shown, behind⟩ := Parser.exists_shows_ofSource
    (h.legible.legible (ordinary_pieces h.wellFormed)) sep file .standard
  have room := Parser.length_lt_depth_ofSource u.pieces "" file .standard
  rw [String.append_empty] at ahead room
  have last : (Parser.ofSource "" file .standard).stream.look.1.erase = u.eof.erase := by
    obtain ⟨tags, -, stream⟩ := Parser.exists_stream_ofSource "" file .standard
    have inOrder : (Parser.ofSource "" file .standard).stream.InOrder :=
      Parser.Reached.start.inOrder
    have empty : "".toList = [] := rfl
    rw [inOrder.upcoming_look.2.2, stream, TokenStream.upcoming_ofLexer, empty,
      TaggedLexer.upcoming_nil]
    exact Token.erase_eq_iff.mpr ⟨h.wellFormed.2.2.symm, h.eof.symm⟩
  have reached : (Parser.ofSource u.print file .standard).Reached u.print file .standard := .start
  have yields := Grammar.yields_scriptUnit room h.wellFormed shown (behind.trans last)
  rw [← ahead] at yields
  obtain ⟨x, ok, same⟩ := Parser.ask_of_yields reached.inOrder yields
  exact ⟨x, ok, same⟩

/-- A use, and a function with branches: one returns nothing, and one holds an annotated
element. -/
theorem exists_parseScript_print_sample :
    ∃ u x : CompilationUnit, u.Printable ∧ x.erase = u.erase ∧
      parseScript ("use a . b\npure function f ( x : y )\nif x\nreturn else if y else\n" ++
        "late return - x end end") none = .ok x := by
  let name (text : String) : Token := ⟨.identifier, text, .null⟩
  let tag (text : String) : Token := ⟨.tag, text, .null⟩
  let x : Expr := .identifier (name "x")
  let nothing : Element := .result ⟨tag "return", [], []⟩ none
  let negated : Element := .result ⟨tag "return", [.named (name "late")], []⟩
    (some (.unary ⟨.mark .dash, "-", .null⟩ x))
  let branch : Element := .branch ⟨tag "if", [], []⟩ x [nothing]
    [.mk (tag "if") (.identifier (name "y")) []] (some [negated])
  let function : Element := .callable .function ⟨tag "function", [.named (name "pure")], []⟩
    ⟨name "f", []⟩ [⟨⟨name "x", []⟩, [.named (name "y")]⟩] [branch]
  let u : CompilationUnit := ⟨[⟨⟨.word .useWord, "use", .null⟩, ⟨name "a", [name "b"]⟩, none⟩],
    [function], ⟨.eof, "", .null⟩⟩
  have begins {word : String} {kind : ElementKind} {leading : List Annotation}
      (construct : ∃ c ∈ Registry.standard.candidates (tag word).tagName, c.kind = kind)
      (named : ∀ a ∈ leading, a.WellFormed) : (Head.mk (tag word) leading []).Begins kind :=
    ⟨rfl, construct, named, by simp⟩
  have wfNothing : nothing.WellFormed := ⟨begins (by decide) (by simp), by simp⟩
  have wfNegated : negated.WellFormed := by
    refine ⟨begins (by decide) (by decide), ?_⟩
    rintro _ ⟨rfl⟩
    exact ⟨by decide, rfl⟩
  have wfBranch : branch.WellFormed := by
    refine ⟨begins (by decide) (by simp), rfl, ⟨wfNothing, trivial⟩,
      ⟨⟨rfl, by decide⟩, rfl, trivial, trivial⟩, ⟨wfNegated, trivial⟩, ?_⟩
    rintro _ ⟨rfl⟩ _ ⟨rfl⟩
    exact fun isTag => nomatch isTag.1
  have wfFunction : function.WellFormed := by
    refine ⟨begins (by decide) (by decide), by decide, by decide, wfBranch,
      trivial⟩
  have wf : u.WellFormed := by
    refine ⟨by decide, ⟨wfFunction, trivial⟩, rfl⟩
  have printable : u.Printable := ⟨wf, by decide +kernel, rfl⟩
  have text : u.print = "use a . b\npure function f ( x : y )\nif x\nreturn else if y else\n" ++
      "late return - x end end" := by
    decide +kernel
  obtain ⟨x, ok, same⟩ := exists_parseScript_print printable none
  rw [text] at ok
  exact ⟨u, x, printable, same, ok⟩

end CompilationUnit

end TagLang
