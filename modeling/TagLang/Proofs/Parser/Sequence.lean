import TagLang.Proofs.Element.Advances
import TagLang.Proofs.Parser.Dispatch
import TagLang.Proofs.Parser.Faults

/-!
# Where a sequence of elements ends

A body is parsed element by element up to an auxiliary tag, which is left to its owner. What an
auxiliary tag is, the dispatcher of elements and the test for the end of a sequence decide each
on their own. They agree on tags. But a reserved word that is registered as an auxiliary tag is
none for the test, unless it is the word that closes constructs, so a body does not end in front
of it: it fails there, as the dispatcher refuses the word.
-/

namespace TagLang

open Parse Stream'

variable {κ : Type}

/-- A reserved word other than the one that closes constructs. -/
def Token.isReserved (t : Token) : Bool := t.kind.isKeyword && t.kind != .word .endWord

/-- The error that names a token as an auxiliary tag outside of its owner. -/
def SyntaxError.misplaced (t : Token) (owner : String) : SyntaxError :=
  ⟨.misplacedAuxiliary t.tagName owner, t.position⟩

/-- The token is an auxiliary tag of the owner, and no construct begins with it. -/
structure Registry.Strays (r : Registry κ) (t : Token) (owner : String) : Prop where
  dispatches : dispatches t = true
  alone : r.candidates t.tagName = []
  owned : r.owner? t.tagName = some owner

/-- What ends in ends of the source is no repetition of its first tokens, unless it begins with
the end. -/
theorem eof_of_drop_eq {j k : Nat} {s : Stream' Token}
    (ended : ∀ i, k ≤ i → (s.get i).kind = .eof) (same : s.drop (j + 1) = s) :
    s.head.kind = .eof := by
  have again (m : Nat) : s.drop ((j + 1) * m) = s := by
    induction m with
    | zero => rfl
    | succ m ih => rw [Nat.mul_succ, ← drop_drop, ih, same]
  have last := ended ((j + 1) * k) (Nat.le_mul_of_pos_left k (Nat.succ_pos j))
  rwa [← head_drop, again] at last

/-- What a parse leaves ends as many tokens earlier as the parse takes. -/
theorem ended_of_on {α : Type} {p : Parse α} {outcome : Except SyntaxError α} {k : Nat}
    {s t : Stream' Token} (run : p.on s = (outcome, t))
    (ended : ∀ i, k ≤ i → (s.get i).kind = .eof) (i : Nat) (le : k - p.taken s ≤ i) :
    (t.get i).kind = .eof := by
  have left : t = s.drop (p.taken s) := by rw [← left_eq_drop_taken, run]
  rw [left, get_drop]
  exact ended _ (by omega)

theorem TokenStream.head_upcoming (s : TokenStream) : s.upcoming.head = s.take.1 := by
  rw [s.upcoming_eq, head_cons]

namespace Grammar

variable {handle : Handler κ} {r : Registry κ} {below : Level} {n k : Nat} {owner : String}
  {t : Token} {es : List Element} {s u : Stream' Token}

/-- A stray auxiliary tag ends a sequence unless it is a reserved word. -/
theorem endsSequence_of_strays (strays : r.Strays t owner) : endsSequence r t = !t.isReserved := by
  obtain ⟨dispatches, -, owned⟩ := strays
  cases kind : t.kind with
  | tag => simp [endsSequence, Token.isReserved, kind, owned, TokenKind.isKeyword]
  | word w => cases w <;> simp [endsSequence, Token.isReserved, kind, TokenKind.isKeyword]
  | _ => simp [Registry.dispatches, kind, TokenKind.isKeyword] at dispatches

/-- A token that constructs are not dispatched on is refused, but not as an auxiliary tag. -/
theorem on_elementBy_of_not_dispatches (plain : s.head.kind.annotates = false)
    (other : Registry.dispatches s.head = false) (room : 0 < n) :
    ∃ e, (elementBy handle r n).on s = (.error e, s) ∧ ∀ owner, e ≠ .misplaced s.head owner := by
  have gathered := on_gather_leadingOne (List.forall_mem_nil _) plain room []
  rw [nil_append_stream] at gathered
  rw [elementBy, bind_eq, on_bind, leading, gathered]
  show ∃ e, (if s.head.kind.isFault then _ else if Registry.dispatches s.head then _ else _ :
    Parse Element).on s = _ ∧ _
  rw [other, if_neg Bool.false_ne_true]
  split
  all_goals
    refine ⟨_, rfl, ?_⟩
    intro owner same
    cases same

/-- An element of a construct takes its tag. -/
theorem exists_drop_dispatchedBy (handle : Handler κ) (before : List Annotation)
    (c : Construct κ) (s : Stream' Token) :
    ∃ j, ((dispatchedBy handle before c).on s).2 = s.drop (j + 1) := by
  rw [dispatchedBy, bind_eq, on_next_bind]
  obtain ⟨j, left⟩ := exists_drop_eq_on _ s.tail
  exact ⟨j, left⟩

/-- An element is refused for the next token exactly if that is a stray auxiliary tag. -/
theorem refused_iff (ended : ∀ i, k ≤ i → (s.get i).kind = .eof)
    (plain : s.head.kind.annotates = false) (room : 0 < n) :
    (elementBy handle r n).on s = (.error (.misplaced s.head owner), s) ↔
      r.Strays s.head owner := by
  by_cases dispatches : Registry.dispatches s.head = true
  · have dispatch : (elementBy handle r n).on ([] ++ₛ s.head :: s.tail) = _ :=
      on_elementBy (List.forall_mem_nil _) dispatches room
    have construct := on_construct r s.head.tagName s.head s.tail.head s.tail.tail
    rw [Stream'.eta, Stream'.eta] at construct
    rw [nil_append_stream, Stream'.eta, on_bind, construct] at dispatch
    rw [dispatch]
    cases picked : r.pick? s.head.tagName s.tail.head.text with
    | some c =>
      obtain ⟨j, left⟩ := exists_drop_dispatchedBy handle [] c s
      constructor
      · intro same
        -- the tag of the construct is taken, so the tokens would come again and again
        have again : s.drop (j + 1) = s := left.symm.trans (congrArg Prod.snd same)
        exact absurd (eof_of_drop_eq ended again) (Registry.ne_eof_of_dispatches dispatches)
      · intro strays
        simp [Registry.pick?, strays.alone] at picked
    | none =>
      by_cases alone : r.candidates s.head.tagName = []
      · rw [if_pos alone]
        cases owned : r.owner? s.head.tagName with
        | some other =>
          constructor
          · intro same
            cases same
            exact ⟨dispatches, alone, owned⟩
          · intro strays
            cases owned.symm.trans strays.owned
            rfl
        | none =>
          constructor
          · intro same
            cases same
          · intro strays
            cases owned.symm.trans strays.owned
      · rw [if_neg alone]
        constructor
        · intro same
          cases same
        · exact fun strays => absurd strays.alone alone
  · rw [Bool.not_eq_true] at dispatches
    obtain ⟨e, failed, other⟩ := on_elementBy_of_not_dispatches plain dispatches room
    rw [failed]
    constructor
    · intro same
      cases same
      exact absurd rfl (other owner)
    · intro strays
      cases dispatches.symm.trans strays.dispatches

/-- Elements that are parsed one after the other, none of them where a sequence ends. -/
inductive Row (r : Registry κ) (element : Parse Element) :
    Stream' Token → List Element → Stream' Token → Prop
  | nil (s : Stream' Token) : Row r element s [] s
  | cons {e : Element} {es : List Element} {s t u : Stream' Token}
    (goes : endsSequence r s.head = false) (parsed : element.on s = (.ok e, t))
    (further : Row r element t es u) : Row r element s (e :: es) u

theorem on_furtherElement_of_ends (ends : endsSequence r s.head = true) :
    (furtherElement r below).on s = (.ok none, s) := by
  show (if endsSequence r s.head then _ else _ : Parse (Option Element)).on s = _
  rw [if_pos ends]
  rfl

theorem on_furtherElement_of_goes (goes : endsSequence r s.head = false) :
    (furtherElement r below).on s =
      match below.element.on s with
      | (.ok e, t) => (.ok (some e), t)
      | (.error e, t) => (.error e, t) := by
  show (if endsSequence r s.head then _ else below.element.bind fun e => done (some e) :
    Parse (Option Element)).on s = _
  rw [goes, if_neg Bool.false_ne_true, on_bind]
  obtain ⟨outcome, t⟩ := below.element.on s
  cases outcome <;> rfl

/-- A sequence is gathered element by element. -/
theorem Row.on_gather (row : Row r below.element s es u) (n : Nat) (gathered : List Element) :
    (gather (furtherElement r below) (es.length + n) gathered).on s =
      (gather (furtherElement r below) n (es.reverse ++ gathered)).on u := by
  induction row generalizing gathered with
  | nil s => simp
  | @cons e es s t u goes parsed _ ih =>
    have one : (furtherElement r below).on s = (.ok (some e), t) := by
      rw [on_furtherElement_of_goes goes, parsed]
    rw [List.length_cons, Nat.add_right_comm, gather, bind_eq, on_bind, one]
    simpa using ih (e :: gathered)

/-- Behind a row, the end of the source comes no later. -/
theorem Row.ended {element : Parse Element} (row : Row r element s es u)
    (ended : ∀ i, k ≤ i → (s.get i).kind = .eof) : ∀ i, k ≤ i → (u.get i).kind = .eof := by
  induction row with
  | nil s => exact ended
  | cons _ parsed _ ih => exact ih fun i le => ended_of_on parsed ended i (by omega)

theorem pos_of_goes (goes : endsSequence r s.head = false)
    (ended : ∀ i, k ≤ i → (s.get i).kind = .eof) : 0 < k := by
  by_contra none
  have eof : s.head.kind = .eof := ended 0 (Nat.le_of_not_lt none)
  simp [endsSequence, eof] at goes

/-- No more elements stand in a row than there are tokens before the end of the source. -/
theorem Row.length_le {element : Parse Element} (row : Row r element s es u)
    (moves : element.Moves fun _ => True) (ended : ∀ i, k ≤ i → (s.get i).kind = .eof) :
    es.length ≤ k := by
  induction row generalizing k with
  | nil s => exact Nat.zero_le k
  | @cons e es s t u goes parsed _ ih =>
    have inner := pos_of_goes goes ended
    have moved := moves s e t parsed trivial
    have fewer := ih (ended_of_on parsed ended)
    rw [List.length_cons]
    omega

/-- A row goes on until sequences end or an element fails. -/
theorem exists_row {element : Parse Element} (moves : element.Moves fun _ => True)
    (ended : ∀ i, k ≤ i → (s.get i).kind = .eof) :
    ∃ es u, Row r element s es u ∧
      (endsSequence r u.head = true ∨
        endsSequence r u.head = false ∧ ∃ e v, element.on u = (.error e, v)) := by
  induction k using Nat.strongRecOn generalizing s with
  | ind k ih =>
    cases goes : endsSequence r s.head with
    | true => exact ⟨[], s, .nil s, .inl goes⟩
    | false =>
      cases run : element.on s with
      | mk outcome t =>
        cases outcome with
        | error e => exact ⟨[], s, .nil s, .inr ⟨goes, e, t, run⟩⟩
        | ok e =>
          have moved := moves s e t run trivial
          have inner := pos_of_goes goes ended
          obtain ⟨es, u, row, last⟩ := ih _ (by omega) (ended_of_on run ended)
          exact ⟨e :: es, u, .cons goes run row, last⟩

/-- Where a row ends as sequences do, its elements are the sequence. -/
theorem Row.on_elements_of_ends (row : Row r below.element s es u) (room : es.length < n)
    (ends : endsSequence r u.head = true) : (elements r n below).on s = (.ok es, u) := by
  obtain ⟨m, rfl⟩ := Nat.exists_eq_add_of_lt room
  rw [elements, Nat.add_assoc, row.on_gather, gather, bind_eq, on_bind,
    on_furtherElement_of_ends ends]
  simp [on]

/-- Where a row does not end as sequences do, the sequence fails as the next element does. -/
theorem Row.on_elements_of_goes {error : SyntaxError} {v : Stream' Token}
    (row : Row r below.element s es u) (room : es.length < n)
    (goes : endsSequence r u.head = false) (failed : below.element.on u = (.error error, v)) :
    (elements r n below).on s = (.error error, v) := by
  obtain ⟨m, rfl⟩ := Nat.exists_eq_add_of_lt room
  rw [elements, Nat.add_assoc, row.on_gather, gather, bind_eq, on_bind,
    on_furtherElement_of_goes goes, failed]

end Grammar

namespace Parser

/-- A parser was made with any constructs for some source. Since then it has answered parses,
failed ones among them, and has been given constructs, rules and tags, in any order. -/
inductive Arises : Parser κ → Prop
  | start (r : Registry κ) (source : String) (file : Option String) (options : LexerOptions) :
    Arises (ofRegistry r source file options)
  | ask {α : Type} {p : Parser κ} (parse : Parse α) (h : Arises p) : Arises (p.ask parse).2
  | register {p : Parser κ} (c : Construct κ) (h : Arises p) : Arises (p.register c)
  | startWith {p : Parser κ} (kind : TokenKind) (rule : ExprStart) (h : Arises p) :
    Arises (p.startWith kind rule)
  | continueWith {p : Parser κ} (kind : TokenKind) (power : BindingPower)
    (rule : ExprContinuation) (h : Arises p) : Arises (p.continueWith kind power rule)
  | registerTag {p : Parser κ} (tag : String) (h : Arises p) :
    Arises { p with stream := p.stream.register tag }

theorem Arises.inOrder {p : Parser κ} (h : p.Arises) : p.stream.InOrder := by
  induction h with
  | start r source file options =>
    obtain ⟨tags, -, stream⟩ := exists_stream_ofRegistry r source file options
    rw [stream]
    exact TokenStream.inOrder_ofLexer _
  | ask parse _ ih => exact (ask_eq_on parse ih).2.2
  | register c _ ih => exact inOrder_foldl_register ih c.tags
  | startWith kind rule _ ih => exact ih
  | continueWith kind power rule _ ih => exact ih
  | registerTag tag _ ih => exact inOrder_foldl_register ih [tag]

/-- Parse a sequence of elements, with elements parsed as their sorts are handled. -/
def elementsBy (handle : Grammar.Handling κ) (p : Parser κ) :
    Except SyntaxError (List Element) × Parser κ :=
  p.ask (Grammar.elements p.registry p.depth (Grammar.levelBy handle p.registry p.depth))

/-- Say whether a sequence of elements ends here. -/
def atSequenceEnd (p : Parser κ) : Except SyntaxError Bool × Parser κ :=
  p.ask (Grammar.atSequenceEnd p.registry)

variable {p : Parser κ}

theorem atSequenceEnd_eq (inOrder : p.stream.InOrder) :
    p.atSequenceEnd.1 = .ok (Grammar.endsSequence p.registry p.stream.upcoming.head) :=
  (ask_eq_on _ inOrder).1

theorem elementBy_eq_on (handle : Grammar.Handling κ) (inOrder : p.stream.InOrder) :
    ((p.elementBy handle).1, (p.elementBy handle).2.stream.upcoming) =
      (Grammar.levelBy handle p.registry p.depth).element.on p.stream.upcoming := by
  obtain ⟨outcome, left, -⟩ := ask_eq_on _ inOrder
  exact Prod.ext outcome left

theorem elementsBy_eq_on (handle : Grammar.Handling κ) (inOrder : p.stream.InOrder) :
    ((p.elementsBy handle).1, (p.elementsBy handle).2.stream.upcoming) =
      (Grammar.elements p.registry p.depth
        (Grammar.levelBy handle p.registry p.depth)).on p.stream.upcoming := by
  obtain ⟨outcome, left, -⟩ := ask_eq_on _ inOrder
  exact Prod.ext outcome left

/-- From some place on, all tokens that come are ends of the source. -/
theorem ended_upcoming (inOrder : p.stream.InOrder) (i : Nat) (le : p.stream.remaining ≤ i) :
    (p.stream.upcoming.get i).kind = .eof := by
  by_contra inner
  exact absurd (inOrder.lt_remaining inner) (Nat.not_lt_of_le le)

/-- With the levels of a parser, an element is refused for the next token exactly if that is a
stray auxiliary tag. -/
theorem refused_iff (handle : Grammar.Handling κ) (p : Parser κ) {owner : String} {k : Nat}
    {u : Stream' Token} (ended : ∀ i, k ≤ i → (u.get i).kind = .eof)
    (plain : u.head.kind.annotates = false) :
    (Grammar.levelBy handle p.registry p.depth).element.on u =
        (.error (.misplaced u.head owner), u) ↔
      p.registry.Strays u.head owner :=
  Grammar.refused_iff ended plain (Nat.succ_pos p.stream.remaining)

/-- How the sequences of a parser come to an end, with elements parsed as their sorts are
handled. -/
structure EndsSequences (handle : Grammar.Handling κ) (p : Parser κ) : Prop where
  /-- Where no annotation comes next, an element is refused for the next token, which is left,
  exactly if that is a stray auxiliary tag. -/
  strays : ∀ owner, p.stream.upcoming.head.kind.annotates = false →
    ((p.elementBy handle).1 = .error (.misplaced p.stream.upcoming.head owner) ∧
        (p.elementBy handle).2.stream.upcoming = p.stream.upcoming ↔
      p.registry.Strays p.stream.upcoming.head owner)
  /-- Where an element is so refused, a sequence ends, unless the token is a reserved word. -/
  refused : ∀ owner, p.stream.upcoming.head.kind.annotates = false →
    (p.elementBy handle).1 = .error (.misplaced p.stream.upcoming.head owner) →
    (p.elementBy handle).2.stream.upcoming = p.stream.upcoming →
    p.atSequenceEnd.1 = .ok !p.stream.upcoming.head.isReserved
  /-- So a sequence whose elements come to such a token consists of them and leaves the token to
  its owner, unless it is a reserved word; then the sequence fails as the element does. -/
  stops : ∀ es u owner,
    Grammar.Row p.registry (Grammar.levelBy handle p.registry p.depth).element
      p.stream.upcoming es u →
    u.head.kind.annotates = false →
    (Grammar.levelBy handle p.registry p.depth).element.on u =
      (.error (.misplaced u.head owner), u) →
    (p.elementsBy handle).2.stream.upcoming = u ∧
    (p.elementsBy handle).1 =
      if u.head.isReserved then .error (.misplaced u.head owner) else .ok es
  /-- There always is a row of elements that the sequence consists of or fails behind. -/
  row : ∃ es u,
    Grammar.Row p.registry (Grammar.levelBy handle p.registry p.depth).element
      p.stream.upcoming es u ∧
    (Grammar.endsSequence p.registry u.head = true ∧ (p.elementsBy handle).1 = .ok es ∨
      Grammar.endsSequence p.registry u.head = false ∧
        ∃ e v, (Grammar.levelBy handle p.registry p.depth).element.on u = (.error e, v) ∧
          (p.elementsBy handle).1 = .error e)

/-- Whatever constructs a parser was given and whatever it was asked before, its sequences end
where an element is refused as an auxiliary tag, unless that is a reserved word. -/
theorem Arises.endsSequences (arises : p.Arises) (handle : Grammar.Handling κ) :
    p.EndsSequences handle := by
  have inOrder := arises.inOrder
  have ended := ended_upcoming inOrder
  have moves : (Grammar.levelBy handle p.registry p.depth).element.Moves fun _ => True :=
    Grammar.moves_elementBy _ _ _
  have few {es : List Element} {u : Stream' Token} (row : Grammar.Row p.registry
      (Grammar.levelBy handle p.registry p.depth).element p.stream.upcoming es u) :
      es.length < p.depth :=
    Nat.lt_add_right 1 (Nat.lt_succ_of_le (row.length_le moves ended))
  have answer := elementsBy_eq_on handle inOrder
  have strays (owner : String) (plain : p.stream.upcoming.head.kind.annotates = false) :
      (p.elementBy handle).1 = .error (.misplaced p.stream.upcoming.head owner) ∧
          (p.elementBy handle).2.stream.upcoming = p.stream.upcoming ↔
        p.registry.Strays p.stream.upcoming.head owner := by
    rw [← Prod.mk.injEq, elementBy_eq_on handle inOrder]
    exact refused_iff handle p ended plain
  constructor
  case strays => exact strays
  case refused =>
    intro owner plain error left
    have stray := (strays owner plain).mp ⟨error, left⟩
    rw [atSequenceEnd_eq inOrder, Grammar.endsSequence_of_strays stray]
  case stops =>
    intro es u owner row plain refused
    have stray := (refused_iff handle p (row.ended ended) plain).mp refused
    have ends := Grammar.endsSequence_of_strays stray
    cases reserved : u.head.isReserved with
    | true =>
      rw [reserved, Bool.not_true] at ends
      rw [row.on_elements_of_goes (few row) ends refused] at answer
      exact ⟨congrArg Prod.snd answer, congrArg Prod.fst answer⟩
    | false =>
      rw [reserved, Bool.not_false] at ends
      rw [row.on_elements_of_ends (few row) ends] at answer
      exact ⟨congrArg Prod.snd answer, congrArg Prod.fst answer⟩
  case row =>
    obtain ⟨es, u, row, ends | ⟨goes, e, v, failed⟩⟩ := Grammar.exists_row moves ended
    · rw [row.on_elements_of_ends (few row) ends] at answer
      exact ⟨es, u, row, .inl ⟨ends, congrArg Prod.fst answer⟩⟩
    · rw [row.on_elements_of_goes (few row) goes failed] at answer
      exact ⟨es, u, row, .inr ⟨goes, e, v, failed, congrArg Prod.fst answer⟩⟩

/-- A tag that is registered as an auxiliary one ends the sequence behind its first element. -/
theorem Arises.endsSequences_then :
    let p := (ofSource "symbol a then" none .standard).register
      ⟨"block", none, ["then"], .scope .moduleScope⟩
    ∃ e, (p.elementsBy Grammar.elementOf).1 = .ok [e] ∧
      (p.elementsBy Grammar.elementOf).2.stream.upcoming.head =
        ⟨.tag, "then", ⟨"shell", 1, 10⟩⟩ ∧
      (p.elementBy Grammar.elementOf).2.atSequenceEnd.1 = .ok true := by
  intro p
  have arises : p.Arises := .register _ (.start .standard "symbol a then" none .standard)
  have goes : Grammar.endsSequence p.registry p.stream.upcoming.head = false := by
    rw [p.stream.head_upcoming]
    decide +kernel
  have fine : (p.elementBy Grammar.elementOf).1.isOk = true := by decide +kernel
  have next : (p.elementBy Grammar.elementOf).2.stream.upcoming.head =
      ⟨.tag, "then", ⟨"shell", 1, 10⟩⟩ := by
    rw [TokenStream.head_upcoming]
    decide +kernel
  have alone : p.registry.candidates "then" = [] := by decide +kernel
  have owned : p.registry.owner? "then" = some "block" := by decide +kernel
  clear_value p
  obtain ⟨e, ok⟩ := Except.exists_eq_ok fine
  have parsed := elementBy_eq_on Grammar.elementOf arises.inOrder
  rw [ok] at parsed
  have behind : (p.elementBy Grammar.elementOf).2.Arises := arises.ask _
  have same : (p.elementBy Grammar.elementOf).2.registry = p.registry := rfl
  generalize (p.elementBy Grammar.elementOf).2 = q at *
  have plain : q.stream.upcoming.head.kind.annotates = false := by
    rw [next]
    decide
  have strays : p.registry.Strays q.stream.upcoming.head "block" := by
    rw [next]
    exact ⟨by decide, alone, owned⟩
  have ended := ended_upcoming behind.inOrder
  obtain ⟨left, body⟩ := (arises.endsSequences Grammar.elementOf).stops [e] _ "block"
    (.cons goes parsed.symm (.nil _)) plain ((refused_iff _ p ended plain).mpr strays)
  refine ⟨e, ?_, ?_, ?_⟩
  · rw [body, next]
    rfl
  · rw [left, next]
  · have sequences := behind.endsSequences Grammar.elementOf
    obtain ⟨error, unmoved⟩ := (sequences.strays "block" plain).mpr (same ▸ strays)
    rw [sequences.refused "block" plain error unmoved, next]
    rfl

/-- A reserved word that is registered as an auxiliary tag is refused as one, but no sequence
ends in front of it. -/
theorem fails_at_reserved_as :
    let p := (ofSource "as" none .standard).register ⟨"block", none, ["as"], .scope .moduleScope⟩
    (p.elementBy Grammar.elementOf).1 =
        .error ⟨.misplacedAuxiliary "as" "block", ⟨"shell", 1, 1⟩⟩ ∧
      (p.elementBy Grammar.elementOf).2.stream.upcoming = p.stream.upcoming ∧
      p.atSequenceEnd.1 = .ok false ∧
      (p.elementsBy Grammar.elementOf).1 =
        .error ⟨.misplacedAuxiliary "as" "block", ⟨"shell", 1, 1⟩⟩ := by
  intro p
  have inOrder : p.stream.InOrder :=
    (Arises.register _ (.start .standard "as" none .standard)).inOrder
  have next : p.stream.upcoming.head = ⟨.word .asWord, "as", ⟨"shell", 1, 1⟩⟩ := by
    rw [p.stream.head_upcoming]
    decide +kernel
  have strays : p.registry.Strays p.stream.upcoming.head "block" := by
    rw [next]
    exact ⟨by decide, by decide +kernel, by decide +kernel⟩
  have refused := (refused_iff Grammar.elementOf p (ended_upcoming inOrder)
    (by rw [next]; decide)).mpr strays
  have goes : Grammar.endsSequence p.registry p.stream.upcoming.head = false := by
    rw [Grammar.endsSequence_of_strays strays, next]
    decide
  have element := (elementBy_eq_on Grammar.elementOf inOrder).trans refused
  have body := (elementsBy_eq_on Grammar.elementOf inOrder).trans
    ((Grammar.Row.nil _).on_elements_of_goes (Nat.succ_pos _) goes refused)
  rw [next] at element body
  exact ⟨congrArg Prod.fst element, congrArg Prod.snd element, by rw [atSequenceEnd_eq inOrder, goes],
    congrArg Prod.fst body⟩

end Parser

end TagLang
