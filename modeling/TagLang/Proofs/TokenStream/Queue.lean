import Mathlib.Logic.Function.Iterate
import TagLang.Proofs.TokenStream.Upcoming

/-!
# A stream of tokens as a queue

A plain queue without bounds answers the requests that a token stream answers: it appends
the next token of its lexer exactly when a lookahead is not queued yet. The stream answers
each request as the queue does, whatever was asked before (`Models.answer`), though it
keeps its tokens in a ring of few slots.
-/

namespace TagLang

/-- What can be asked of a source of tokens. -/
inductive Request
  /-- The next token, not consumed. -/
  | look
  /-- The token after the next one, not consumed. -/
  | lookSecond
  /-- Whether the next token has this kind. -/
  | has (kind : TokenKind)
  /-- Whether the next token has this kind and this text. -/
  | hasText (kind : TokenKind) (text : String)
  /-- Consume the next token if it has this kind, and say whether it had. -/
  | accept (kind : TokenKind)
  /-- Consume a token that was looked at before. -/
  | takeBuffered
  /-- Consume the next token. -/
  | take
  /-- Consume a token of this kind, or fail on the next token. -/
  | expect (kind : TokenKind)
  /-- Consume a token of this kind and text, or fail on the next token. -/
  | expectText (kind : TokenKind) (text : String)
  /-- Whether no token was looked at that is not consumed yet. -/
  | isEmpty
  /-- Register a tag. -/
  | register (tag : String)
deriving DecidableEq, Repr

/-- What a request is answered with. -/
inductive Answer
  | token (t : Token)
  | flag (b : Bool)
  | failure (e : SyntaxError)
  /-- No token was looked at before. -/
  | refused
  | done
deriving DecidableEq, Repr

/-- The parse that answers a request, where the buffer is empty or not. -/
def Request.parse (empty : Bool) : Request → Parse Answer
  | .look => do return .token (← Parse.look)
  | .lookSecond => do return .token (← Parse.lookSecond)
  | .has kind => do return .flag (← Parse.nextIs kind)
  | .hasText kind text => do return .flag (← Parse.nextIsText kind text)
  | .accept kind => do return .flag (← Parse.accept kind)
  | .takeBuffered => if empty then return .refused else do return .token (← Parse.next)
  | .take => do return .token (← Parse.next)
  | .expect kind => do return .token (← Parse.expect kind)
  | .expectText kind text => do return .token (← Parse.expectText kind text)
  | .isEmpty => return .flag empty
  | .register _ => return .done

namespace TokenStream

/-- Run a parse to an answer. -/
def reply (p : Parse Answer) (s : TokenStream) : Answer × TokenStream :=
  match s.run p with
  | (.ok a, t) => (a, t)
  | (.error e, t) => (.failure e, t)

/-- Answer one request. -/
def answer (s : TokenStream) : Request → Answer × TokenStream
  | .register tag => (.done, s.register tag)
  | r => s.reply (r.parse s.isEmpty)

/-- Answer requests one after the other. -/
def answers : List Request → TokenStream → List Answer × TokenStream
  | [], s => ([], s)
  | r :: rs, s =>
    let behind := answers rs (s.answer r).2
    ((s.answer r).1 :: behind.1, behind.2)

/-- A token is taken if it is the one expected, and otherwise only looked at. -/
theorem answer_accept (s : TokenStream) (kind : TokenKind) :
    s.answer (.accept kind) =
      if s.look.1.kind == kind then (.flag true, s.look.2.take.2) else (.flag false, s.look.2) := by
  by_cases same : s.look.1.kind = kind <;>
    simp [answer, reply, Request.parse, Parse.accept, Parse.look, Parse.next, Parse.bind, run, same]

theorem answer_expect (s : TokenStream) (kind : TokenKind) :
    s.answer (.expect kind) =
      if s.look.1.kind == kind then (.token s.look.2.take.1, s.look.2.take.2)
      else (.failure ⟨.unexpectedToken kind none s.look.1.kind s.look.1.text,
        s.look.1.position⟩, s.look.2) := by
  by_cases same : s.look.1.kind = kind <;>
    simp [answer, reply, Request.parse, Parse.expect, Parse.look, Parse.next, Parse.failAt,
      Parse.bind, run, same]

theorem answer_expectText (s : TokenStream) (kind : TokenKind) (text : String) :
    s.answer (.expectText kind text) =
      if s.look.1.kind == kind && s.look.1.text == text then
        (.token s.look.2.take.1, s.look.2.take.2)
      else (.failure ⟨.unexpectedToken kind (some text) s.look.1.kind s.look.1.text,
        s.look.1.position⟩, s.look.2) := by
  by_cases same : s.look.1.kind = kind ∧ s.look.1.text = text <;>
    simp [answer, reply, Request.parse, Parse.expectText, Parse.look, Parse.next, Parse.failAt,
      Parse.bind, run, same]

theorem answer_takeBuffered (s : TokenStream) :
    s.answer .takeBuffered =
      if s.isEmpty then (.refused, s) else (.token s.take.1, s.take.2) := by
  cases empty : s.isEmpty <;> simp [answer, Request.parse, empty] <;> rfl

end TokenStream

/-- A tagging lexer with a queue of tokens read ahead. -/
structure TokenQueue where
  lexer : TaggedLexer
  tokens : List Token

namespace TokenQueue

/-- A queue with nothing read ahead. -/
def ofLexer (lexer : TaggedLexer) : TokenQueue := ⟨lexer, []⟩

/-- Append the next token of the lexer. -/
def append (q : TokenQueue) : TokenQueue :=
  ⟨q.lexer.readSignificant.2, q.tokens ++ [q.lexer.readSignificant.1]⟩

/-- Append tokens until `k` of them are queued. -/
def fill (k : Nat) (q : TokenQueue) : TokenQueue := append^[k - q.tokens.length] q

theorem length_iterate_append (n : Nat) (q : TokenQueue) :
    (append^[n] q).tokens.length = q.tokens.length + n := by
  induction n generalizing q with
  | zero => rfl
  | succ n ih =>
    rw [Function.iterate_succ_apply, ih, append, List.length_append, List.length_singleton]
    omega

theorem le_length_fill (k : Nat) (q : TokenQueue) : k ≤ (q.fill k).tokens.length := by
  rw [fill, length_iterate_append]
  omega

/-- The next token, queued. -/
def look (q : TokenQueue) : Token × TokenQueue :=
  ((q.fill 1).tokens.get ⟨0, q.le_length_fill 1⟩, q.fill 1)

/-- The token after the next one, both queued. -/
def lookSecond (q : TokenQueue) : Token × TokenQueue :=
  ((q.fill 2).tokens.get ⟨1, q.le_length_fill 2⟩, q.fill 2)

/-- Take the next token off the queue. -/
def take (q : TokenQueue) : Token × TokenQueue :=
  (q.look.1, { q.look.2 with tokens := q.look.2.tokens.tail })

/-- Take the next token off the queue if it is the one expected, or else fail on it. -/
def takeIf (expected : Token → Bool) (kind : TokenKind) (text : Option String)
    (q : TokenQueue) : Answer × TokenQueue :=
  if expected q.look.1 then (.token q.take.1, q.take.2)
  else
    (.failure ⟨.unexpectedToken kind text q.look.1.kind q.look.1.text, q.look.1.position⟩,
      q.look.2)

/-- Answer one request. -/
def answer (q : TokenQueue) : Request → Answer × TokenQueue
  | .look => (.token q.look.1, q.look.2)
  | .lookSecond => (.token q.lookSecond.1, q.lookSecond.2)
  | .has kind => (.flag (q.look.1.kind == kind), q.look.2)
  | .hasText kind text => (.flag (q.look.1.kind == kind && q.look.1.text == text), q.look.2)
  | .accept kind =>
    if q.look.1.kind == kind then (.flag true, q.take.2) else (.flag false, q.look.2)
  | .takeBuffered =>
    if q.tokens.isEmpty then (.refused, q) else (.token q.take.1, q.take.2)
  | .take => (.token q.take.1, q.take.2)
  | .expect kind => q.takeIf (fun t => t.kind == kind) kind none
  | .expectText kind text => q.takeIf (fun t => t.kind == kind && t.text == text) kind (some text)
  | .isEmpty => (.flag q.tokens.isEmpty, q)
  | .register tag => (.done, { q with lexer := q.lexer.register tag })

theorem fill_of_le {k : Nat} {q : TokenQueue} (h : k ≤ q.tokens.length) : q.fill k = q := by
  rw [fill, Nat.sub_eq_zero_of_le h]
  rfl

variable {l : TaggedLexer} {t u : Token} {ts : List Token}

theorem look_nil : look ⟨l, []⟩ = (l.readSignificant.1, append ⟨l, []⟩) := rfl

theorem look_cons : look ⟨l, t :: ts⟩ = (t, ⟨l, t :: ts⟩) := by
  have filled : fill 1 ⟨l, t :: ts⟩ = ⟨l, t :: ts⟩ := fill_of_le (by simp)
  simp only [look, List.get_eq_getElem, filled, List.getElem_cons_zero]

theorem lookSecond_nil :
    lookSecond ⟨l, []⟩ = (l.readSignificant.2.readSignificant.1, (append ⟨l, []⟩).append) := rfl

theorem lookSecond_singleton :
    lookSecond ⟨l, [t]⟩ = (l.readSignificant.1, append ⟨l, [t]⟩) := rfl

theorem lookSecond_cons_cons : lookSecond ⟨l, t :: u :: ts⟩ = (u, ⟨l, t :: u :: ts⟩) := by
  have filled : fill 2 ⟨l, t :: u :: ts⟩ = ⟨l, t :: u :: ts⟩ := fill_of_le (by simp)
  simp only [lookSecond, List.get_eq_getElem, filled, List.getElem_cons_succ, List.getElem_cons_zero]

theorem take_nil : take ⟨l, []⟩ = (l.readSignificant.1, ⟨l.readSignificant.2, []⟩) := rfl

theorem take_cons : take ⟨l, t :: ts⟩ = (t, ⟨l, ts⟩) := by
  rw [take, look_cons]
  rfl

/-- To look at a token before it is taken makes no difference. -/
theorem take_look (q : TokenQueue) : q.look.2.take = q.take := by
  obtain ⟨l, tokens⟩ := q
  cases tokens with
  | nil => rfl
  | cons t ts => rw [look_cons]

/-- Answer requests one after the other. -/
def answers : List Request → TokenQueue → List Answer × TokenQueue
  | [], q => ([], q)
  | r :: rs, q =>
    let behind := answers rs (q.answer r).2
    ((q.answer r).1 :: behind.1, behind.2)

end TokenQueue

/-- The ring of the stream holds the tokens of the queue, in front of the same lexer. -/
structure Models (s : TokenStream) (q : TokenQueue) : Prop where
  lexer : s.lexer = q.lexer
  held : s.Holds q.tokens

namespace Models

variable {s : TokenStream} {q : TokenQueue}

theorem ofLexer (l : TaggedLexer) : Models (.ofLexer l) (.ofLexer l) := ⟨rfl, .nothing rfl⟩

theorem append (h : Models s q) (room : q.tokens.length ≤ 1) : Models s.push q.append := by
  refine ⟨?_, ?_⟩
  · rw [TokenStream.push, TokenQueue.append, h.lexer]
  · rw [TokenQueue.append, ← h.lexer]
    exact h.held.push room

theorem look (h : Models s q) : s.look.1 = q.look.1 ∧ Models s.look.2 q.look.2 := by
  obtain ⟨lexer, tokens⟩ := q
  obtain rfl : s.lexer = lexer := h.lexer
  cases tokens with
  | nil =>
    rw [h.held.look_of_nil, TokenQueue.look_nil]
    exact ⟨rfl, h.append (Nat.zero_le _)⟩
  | cons t ts =>
    rw [h.held.look_of_cons, TokenQueue.look_cons]
    exact ⟨rfl, h⟩

theorem lookSecond (h : Models s q) :
    s.lookSecond.1 = q.lookSecond.1 ∧ Models s.lookSecond.2 q.lookSecond.2 := by
  obtain ⟨lexer, tokens⟩ := q
  obtain rfl : s.lexer = lexer := h.lexer
  match tokens, h with
  | [], h =>
    rw [h.held.lookSecond_of_nil, TokenQueue.lookSecond_nil]
    exact ⟨rfl, (h.append (Nat.zero_le _)).append (by simp [TokenQueue.append])⟩
  | [t], h =>
    rw [h.held.lookSecond_of_singleton, TokenQueue.lookSecond_singleton]
    exact ⟨rfl, h.append (by simp)⟩
  | t :: u :: ts, h =>
    rw [h.held.lookSecond_of_cons_cons, TokenQueue.lookSecond_cons_cons]
    exact ⟨rfl, h⟩

theorem take (h : Models s q) : s.take.1 = q.take.1 ∧ Models s.take.2 q.take.2 := by
  obtain ⟨lexer, tokens⟩ := q
  obtain rfl : s.lexer = lexer := h.lexer
  cases tokens with
  | nil =>
    have last : s.last = s.next := by
      cases h.held
      assumption
    rw [h.held.take_of_nil, TokenQueue.take_nil]
    exact ⟨rfl, rfl, .nothing last⟩
  | cons t ts =>
    rw [h.held.take_of_cons, TokenQueue.take_cons]
    exact ⟨rfl, rfl, h.held.vacate⟩

theorem isEmpty_eq (h : Models s q) : s.isEmpty = q.tokens.isEmpty := h.held.isEmpty_eq

/-- Whatever is asked, the stream answers as the queue does, and holds what it holds. -/
theorem answer (h : Models s q) (r : Request) :
    (s.answer r).1 = (q.answer r).1 ∧ Models (s.answer r).2 (q.answer r).2 := by
  obtain ⟨first, looked⟩ := h.look
  obtain ⟨second, lookedSecond⟩ := h.lookSecond
  obtain ⟨next, taken⟩ := h.take
  obtain ⟨seen, takenSeen⟩ := looked.take
  rw [TokenQueue.take_look] at seen takenSeen
  cases r with
  | look => exact ⟨congrArg Answer.token first, looked⟩
  | lookSecond => exact ⟨congrArg Answer.token second, lookedSecond⟩
  | has kind => exact ⟨congrArg (fun t : Token => Answer.flag (t.kind == kind)) first, looked⟩
  | hasText kind text =>
    exact ⟨congrArg (fun t : Token => Answer.flag (t.kind == kind && t.text == text)) first,
      looked⟩
  | accept kind =>
    rw [TokenStream.answer_accept, TokenQueue.answer, first]
    split
    · exact ⟨rfl, takenSeen⟩
    · exact ⟨rfl, looked⟩
  | takeBuffered =>
    rw [TokenStream.answer_takeBuffered, TokenQueue.answer, h.isEmpty_eq]
    split
    · exact ⟨rfl, h⟩
    · exact ⟨congrArg Answer.token next, taken⟩
  | take => exact ⟨congrArg Answer.token next, taken⟩
  | expect kind =>
    rw [TokenStream.answer_expect, TokenQueue.answer, TokenQueue.takeIf, first]
    split
    · exact ⟨congrArg Answer.token seen, takenSeen⟩
    · exact ⟨rfl, looked⟩
  | expectText kind text =>
    rw [TokenStream.answer_expectText, TokenQueue.answer, TokenQueue.takeIf, first]
    split
    · exact ⟨congrArg Answer.token seen, takenSeen⟩
    · exact ⟨rfl, looked⟩
  | isEmpty => exact ⟨congrArg Answer.flag h.isEmpty_eq, h⟩
  | register tag => exact ⟨rfl, congrArg (·.register tag) h.lexer, h.held.register tag⟩

theorem answers (h : Models s q) (rs : List Request) :
    (s.answers rs).1 = (q.answers rs).1 ∧ Models (s.answers rs).2 (q.answers rs).2 := by
  induction rs generalizing s q with
  | nil => exact ⟨rfl, h⟩
  | cons r rs ih =>
    obtain ⟨first, behind⟩ := h.answer r
    obtain ⟨others, last⟩ := ih behind
    exact ⟨congrArg₂ List.cons first others, last⟩

end Models

end TagLang
