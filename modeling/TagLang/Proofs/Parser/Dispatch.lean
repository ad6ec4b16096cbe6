import TagLang.Proofs.Parser.Extension
import TagLang.Proofs.Registry.Order

/-!
# Dispatch follows the order of registration

Constructs may be registered with a new parser behind those of the language, under any words.
All their words are tags from then on, and an auxiliary tag belongs to the first construct that
has it. Whatever the parser was asked before, an element is handed over to the construct that
its tag and the token behind it choose among all constructs in the order of registration.
-/

namespace TagLang

open Parse Stream'

variable {κ : Type}

namespace Grammar

variable {handle : Handler κ} {r : Registry κ} {n : Nat} {before : List Token} {t : Token}
  {s : Stream' Token}

/-- The annotations in front of what is none are gathered, behind those gathered before. -/
theorem on_gather_leadingOne (annotate : ∀ x ∈ before, x.kind.annotates = true)
    (other : s.head.kind.annotates = false) (room : before.length < n)
    (gathered : List Annotation) :
    (gather leadingOne n gathered).on (before ++ₛ s) =
      (.ok (gathered.reverse ++ before.map .ofToken), s) := by
  induction before generalizing n gathered with
  | nil =>
    obtain ⟨n, rfl⟩ := Nat.exists_eq_add_one_of_ne_zero (Nat.ne_zero_of_lt room)
    have none : leadingOne.on s = (.ok none, s) := by
      rw [leadingOne, bind_eq, on_look_bind, other]
      rfl
    rw [gather, bind_eq, nil_append_stream, on_bind, none]
    simp [on]
  | cons x before ih =>
    obtain ⟨n, rfl⟩ := Nat.exists_eq_add_one_of_ne_zero (Nat.ne_zero_of_lt room)
    obtain ⟨first, annotate⟩ := List.forall_mem_cons.mp annotate
    have one : leadingOne.on (x :: (before ++ₛ s)) = (.ok (some (.ofToken x)), before ++ₛ s) := by
      rw [leadingOne, bind_eq, on_look_bind, head_cons, if_pos first]
      rfl
    rw [gather, bind_eq, cons_append_stream, on_bind, one]
    simpa using ih annotate (Nat.lt_of_succ_lt_succ room) (.ofToken x :: gathered)

/-- The construct picked for a tag and the text behind it, or the error if the tag begins
only others. -/
theorem on_construct (r : Registry κ) (tag : String) (t second : Token) (rest : Stream' Token) :
    (construct r tag).on (t :: second :: rest) =
      match r.pick? tag second.text with
      | some c => (.ok (some c), t :: second :: rest)
      | none =>
        if r.candidates tag = [] then (.ok none, t :: second :: rest)
        else (.error ⟨.unrecognizedElement s!"{tag} {second.text}", second.position⟩,
          t :: second :: rest) := by
  rw [construct]
  split
  · rename_i single
    rw [← r.head?_candidates_eq_pick? single second.text]
    cases all : r.candidates tag with
    | nil => rfl
    | cons c cs => rfl
  · rename_i mixed
    have nonempty : r.candidates tag ≠ [] := by
      intro empty
      simp [empty] at mixed
    rw [if_neg nonempty]
    show on (match r.pick? tag second.text with
      | some c => done (some c)
      | none => failAt second (.unrecognizedElement s!"{tag} {second.text}"))
        (t :: second :: rest) = _
    cases r.pick? tag second.text <;> rfl

/-- Behind its annotations, an element is that of the construct of its tag. -/
theorem on_elementBy (annotate : ∀ x ∈ before, x.kind.annotates = true)
    (dispatches : Registry.dispatches t = true) (room : before.length < n) :
    (elementBy handle r n).on (before ++ₛ t :: s) =
      ((construct r t.tagName).bind fun
        | some c => dispatchedBy handle (before.map .ofToken) c
        | none =>
          match r.owner? t.tagName with
          | some owner => failAt t (.misplacedAuxiliary t.tagName owner)
          | none => failAt t (.unrecognizedElement t.text)).on (t :: s) := by
  have apart (kind : TokenKind) (is : (kind == .tag || kind.isKeyword) = true) :
      kind.annotates = false ∧ kind.isFault = false := by
    cases kind <;> simp_all [TokenKind.isKeyword, TokenKind.annotates, TokenKind.isFault]
  obtain ⟨other, sound⟩ := apart t.kind dispatches
  have gathered := on_gather_leadingOne (s := t :: s) annotate other room []
  rw [elementBy, bind_eq, on_bind, leading, gathered, List.reverse_nil, List.nil_append]
  show (if t.kind.isFault then _ else if Registry.dispatches t then _ else _ : Parse Element).on
    (t :: s) = _
  rw [sound, if_neg Bool.false_ne_true, if_pos dispatches]
  rfl

/-- What a tag and the token behind it come to among constructs in this order: the construct
that they choose is handed over to, or nothing is recognized. -/
structure HandsOver (handle : Handler κ) (cs : List (Construct κ)) (before : List Annotation)
    (tag second : Token) (rest : Stream' Token)
    (outcome : Except SyntaxError Element × Stream' Token) : Prop where
  /-- A construct of one word goes on behind the tag. -/
  single : ∀ c, Construct.Chosen cs tag.tagName second.text c → c.second = none →
    outcome = (handle before tag c.kind).on (second :: rest)
  /-- A construct of two words goes on behind its second word, which has to be an identifier. -/
  two : ∀ c word, Construct.Chosen cs tag.tagName second.text c → c.second = some word →
    outcome =
      if second.kind = .identifier then (handle before tag c.kind).on rest
      else (.error ⟨.unexpectedToken .identifier (some word) second.kind second.text,
        second.position⟩, second :: rest)
  /-- A tag of other constructs only is reported with the text behind it, at that text. -/
  unrecognized : (∃ e ∈ cs.flatMap Construct.entries, e.1 = tag.tagName) →
    (∀ c, ¬ Construct.Chosen cs tag.tagName second.text c) →
    outcome = (.error ⟨.unrecognizedElement s!"{tag.tagName} {second.text}", second.position⟩,
      tag :: second :: rest)

/-- An element is handed over to the construct that its tag and the token behind it choose. -/
theorem handsOver_elementBy {second : Token} {rest : Stream' Token}
    (annotate : ∀ x ∈ before, x.kind.annotates = true) (dispatches : Registry.dispatches t = true)
    (room : before.length < n) :
    HandsOver handle r.constructs (before.map .ofToken) t second rest
      ((elementBy handle r n).on (before ++ₛ t :: second :: rest)) := by
  have dispatch : (elementBy handle r n).on (before ++ₛ t :: second :: rest) = _ :=
    on_elementBy annotate dispatches room
  rw [on_bind, on_construct] at dispatch
  have goes {c : Construct κ} (chosen : Construct.Chosen r.constructs t.tagName second.text c) :
      (elementBy handle r n).on (before ++ₛ t :: second :: rest) =
        (dispatchedBy handle (before.map .ofToken) c).on (t :: second :: rest) := by
    rw [dispatch, Registry.pick?_eq_some_iff.mpr chosen]
  constructor
  case single =>
    intro c chosen one
    rw [goes chosen, dispatchedBy, one]
    rfl
  case two =>
    intro c word chosen two
    obtain rfl := chosen.eq_of_second two
    rw [goes chosen, dispatchedBy, two]
    by_cases plain : second.kind = .identifier
    · rw [if_pos plain]
      simp [expectText, on_look_bind, on_next_bind, bind_assoc, plain]
    · rw [if_neg plain]
      simp [expectText, on, on_look_bind, on_next_bind, bind_assoc, plain, failAt]
  case unrecognized =>
    rintro ⟨e, mem, key⟩ unchosen
    have unpicked : r.pick? t.tagName second.text = none :=
      Option.eq_none_iff_forall_ne_some.mpr fun c picked =>
        unchosen c (Registry.pick?_eq_some_iff.mp picked)
    have nonempty : r.candidates t.tagName ≠ [] := fun empty =>
      Registry.candidates_eq_nil_iff.mp empty e mem key
    rw [dispatch, unpicked]
    simp only [if_neg nonempty]

end Grammar

namespace TaggedLexer

/-- Reading registers nothing. -/
theorem tags_readSignificant (l : TaggedLexer) : l.readSignificant.2.tags = l.tags := by
  fun_induction readSignificant l with
  | case1 l trivial ih => exact ih
  | case2 l other => rfl

end TaggedLexer

namespace TokenStream

/-- Reading ahead registers nothing. -/
theorem tags_pushes (n : Nat) (s : TokenStream) : (s.pushes n).lexer.tags = s.lexer.tags := by
  induction n generalizing s with
  | zero => rfl
  | succ n ih => exact (ih s.push).trans s.lexer.tags_readSignificant

theorem tags_take (s : TokenStream) : s.take.2.lexer.tags = s.lexer.tags := by
  rw [take]
  split
  · exact s.lexer.tags_readSignificant
  · split
    · rfl
    · exact s.lexer.tags_readSignificant

/-- Nothing that a stream is asked registers a tag. -/
theorem tags_run {α : Type} (p : Parse α) (s : TokenStream) :
    (s.run p).2.lexer.tags = s.lexer.tags := by
  induction p generalizing s with
  | done a => rfl
  | fail e => rfl
  | peek k ih => exact (ih _ _).trans (tags_pushes _ s)
  | peekSecond k ih => exact (ih _ _).trans (tags_pushes _ s)
  | take k ih => exact (ih _ _).trans s.tags_take

/-- A token before the end of the source is among those that remain. -/
theorem InOrder.lt_remaining {s : TokenStream} (h : s.InOrder) {i : Nat}
    (inner : (s.upcoming.get i).kind ≠ .eof) : i < s.remaining := by
  obtain ⟨us, held⟩ := h
  obtain ⟨m, few, behind⟩ := s.lexer.exists_unread
  by_contra beyond
  rw [remaining, held.buffered_eq] at beyond
  obtain ⟨j, rfl⟩ := Nat.exists_eq_add_of_le (show us.length ≤ i by omega)
  rw [held.upcoming_eq, get_append_right] at inner
  exact inner (behind.ends j (by omega))

end TokenStream

namespace Parser

variable {p q : Parser κ}

/-- The second parser is the first one after it has answered some parses. -/
inductive Asked (p : Parser κ) : Parser κ → Prop
  | start : Asked p p
  | ask {α : Type} {q : Parser κ} (parse : Parse α) (h : Asked p q) : Asked p (q.ask parse).2

theorem Asked.registry_eq (h : p.Asked q) : q.registry = p.registry := by
  induction h with
  | start => rfl
  | ask parse _ ih => exact ih

theorem Asked.inOrder (h : p.Asked q) (inOrder : p.stream.InOrder) : q.stream.InOrder := by
  induction h with
  | start => exact inOrder
  | ask parse _ ih => exact (ask_eq_on parse ih).2.2

theorem Asked.tags_eq (h : p.Asked q) : q.stream.lexer.tags = p.stream.lexer.tags := by
  induction h with
  | start => rfl
  | ask parse _ ih => exact (TokenStream.tags_run parse _).trans ih

/-- How the sorts of elements are handled at the parser's depth. -/
def handler (handle : Grammar.Handling κ) (p : Parser κ) : Grammar.Handler κ :=
  handle p.registry (p.stream.remaining + 1)
    (Grammar.levelBy handle p.registry (p.stream.remaining + 1))

/-- Parse an element, with elements parsed as their sorts are handled. -/
def elementBy (handle : Grammar.Handling κ) (p : Parser κ) : Except SyntaxError Element × Parser κ :=
  p.ask (Grammar.levelBy handle p.registry p.depth).element

/-- A parser hands an element over to the construct that its tag and the token behind it
choose. -/
theorem handsOver_ask_element (handle : Grammar.Handling κ) (inOrder : p.stream.InOrder)
    {before : List Token} {tag second : Token} {rest : Stream' Token}
    (come : p.stream.upcoming = before ++ₛ tag :: second :: rest)
    (annotate : ∀ x ∈ before, x.kind.annotates = true)
    (dispatches : Registry.dispatches tag = true) :
    Grammar.HandsOver (p.handler handle) p.registry.constructs (before.map .ofToken) tag second
      rest ((p.elementBy handle).1, (p.elementBy handle).2.stream.upcoming) := by
  have inner : (p.stream.upcoming.get before.length).kind ≠ .eof := by
    have next : p.stream.upcoming.get (before.length + 0) = tag := by
      rw [come, get_append_right]
      rfl
    rw [Nat.add_zero] at next
    rw [next]
    intro eof
    simp [Registry.dispatches, eof, TokenKind.isKeyword] at dispatches
  have room : before.length < p.stream.remaining + 1 :=
    Nat.lt_succ_of_lt (inOrder.lt_remaining inner)
  obtain ⟨value, left, -⟩ :=
    ask_eq_on (Grammar.levelBy handle p.registry p.depth).element inOrder
  have answer : ((p.elementBy handle).1, (p.elementBy handle).2.stream.upcoming) =
      (Grammar.elementBy (p.handler handle) p.registry (p.stream.remaining + 1)).on
        p.stream.upcoming := Prod.ext value left
  rw [answer, come]
  exact Grammar.handsOver_elementBy annotate dispatches room

section Extended

variable {η : Type} (added : List (Construct (ElementKind ⊕ η))) (source : String)
  (file : Option String) (options : LexerOptions)

/-- A new parser of the language with which these constructs are registered. -/
def extended : Parser (ElementKind ⊕ η) :=
  added.foldl register (ofRegistry (Registry.standard.map .inl) source file options)

/-- The constructs of the language and those that are registered behind them. -/
def allConstructs : List (Construct (ElementKind ⊕ η)) :=
  Registry.standardConstructs.map (.map .inl) ++ added

variable {added source file options}

theorem constructs_extended :
    (extended added source file options).registry.constructs = allConstructs added := by
  rw [extended, foldl_register_ofRegistry]
  exact Registry.constructs_foldl_register added _

theorem inOrder_extended : (extended added source file options).stream.InOrder := by
  obtain ⟨tags, -, stream⟩ := exists_stream_ofRegistry
    (added.foldl Registry.register (Registry.standard.map .inl)) source file options
  rw [extended, foldl_register_ofRegistry, stream]
  exact TokenStream.inOrder_ofLexer _

/-- The words of all constructs are registered with the lexer, and no others. -/
theorem mem_tags_extended {word : String} :
    word ∈ (extended added source file options).stream.lexer.tags ↔
      ∃ c ∈ allConstructs added, word ∈ c.tags := by
  obtain ⟨tags, mem, stream⟩ := exists_stream_ofRegistry
    (added.foldl Registry.register (Registry.standard.map .inl)) source file options
  have same : (extended added source file options).stream.lexer.tags = tags := by
    rw [extended, foldl_register_ofRegistry, stream]
    rfl
  rw [same, mem, Registry.tags, List.mem_flatMap, Registry.constructs_foldl_register]
  rfl

/-- Dispatch follows the order of registration. Any constructs may be registered with a new
parser behind those of the language, under any words, and whatever it is asked then: the words
of all of them are the tags of its lexer; an auxiliary tag belongs to the tag of the first
construct that has it; and where the next token behind its annotations is a tag or a reserved
word, an element is handed over to the construct that it chooses together with the token behind
it. -/
theorem extended_dispatches (handle : Grammar.Handling (ElementKind ⊕ η))
    {q : Parser (ElementKind ⊕ η)} (asked : (extended added source file options).Asked q) :
    (∀ word, q.stream.lexer.isRegistered word = true ↔
      ∃ c ∈ allConstructs added, word ∈ c.tags) ∧
    (∀ word tag, q.registry.owner? word = some tag ↔
      ∃ c, IsFirst (allConstructs added) (fun c => word ∈ c.auxiliaries) c ∧ c.tag = tag) ∧
    ∀ (before : List Token) (tag second : Token) (rest : Stream' Token),
      q.stream.upcoming = before ++ₛ tag :: second :: rest →
      (∀ x ∈ before, x.kind.annotates = true) → Registry.dispatches tag = true →
      Grammar.HandsOver (q.handler handle) (allConstructs added) (before.map .ofToken) tag second
        rest ((q.elementBy handle).1, (q.elementBy handle).2.stream.upcoming) := by
  have constructs : q.registry.constructs = allConstructs added := by
    rw [asked.registry_eq, constructs_extended]
  refine ⟨fun word => ?_, fun word tag => ?_, fun before tag second rest come annotate is => ?_⟩
  · rw [TaggedLexer.isRegistered, asked.tags_eq, List.contains_iff_mem, mem_tags_extended]
  · rw [Registry.owner?_eq_some_iff, constructs]
  · rw [← constructs]
    exact handsOver_ask_element handle (asked.inOrder inOrder_extended) come annotate is

/-- A construct with the tag of loops, but of one word, is handed over to where no loop goes on
behind the tag. -/
theorem extended_dispatches_repeat :
    let c : Construct (ElementKind ⊕ Unit) := ⟨"repeat", none, ["else"], .inr ()⟩
    let own := fun _ _ _ _ (t : Token) () => (failAt t (.expressionMissing t.text) : Parse Element)
    ((extended [c] "note repeat again" none .standard).elementBy (Grammar.withOwn own)).1 =
      .error ⟨.expressionMissing "repeat", ⟨"shell", 1, 6⟩⟩ := by
  intro c own
  let stream := (extended [c] "note repeat again" none .standard).stream
  have come : stream.upcoming = [stream.take.1] ++ₛ stream.take.2.take.1 ::
      stream.take.2.take.2.take.1 :: stream.take.2.take.2.take.2.upcoming := by
    rw [stream.upcoming_eq, stream.take.2.upcoming_eq, stream.take.2.take.2.upcoming_eq]
    rfl
  have tag : stream.take.2.take.1 = ⟨.tag, "repeat", ⟨"shell", 1, 6⟩⟩ := by decide +kernel
  have second : stream.take.2.take.2.take.1.text = "again" := by decide +kernel
  have picked : (Registry.mk (allConstructs [c]) [] []).pick? "repeat" "again" = some c := by
    decide +kernel
  obtain ⟨-, -, handed⟩ := extended_dispatches (Grammar.withOwn own)
    (.start : (extended [c] "note repeat again" none .standard).Asked _)
  have goes := handed _ _ _ _ come (by decide +kernel) (by rw [tag]; decide)
  rw [tag] at goes
  refine congrArg Prod.fst (goes.single c ?_ rfl)
  rw [second]
  exact Registry.pick?_eq_some_iff.mp picked

end Extended

end Parser

end TagLang
