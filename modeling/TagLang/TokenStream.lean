import TagLang.Lexer.Tagged
import TagLang.Parse

/-!
# Token lookahead

A token stream buffers the significant tokens of a tagging lexer in a ring of
five slots. The slots from `next` up to `last` are filled; the two are equal
exactly when nothing is buffered, so one slot always stays free. A lookahead
reads only the tokens that are not buffered yet, and a token keeps the kind it
had when it was read.
-/

namespace TagLang

/-- A tagging lexer with a ring of tokens read ahead. -/
structure TokenStream where
  lexer : TaggedLexer
  slots : Vector (Option Token) 5
  next : Fin 5
  last : Fin 5

namespace TokenStream

/-- A stream with nothing buffered. -/
def ofLexer (lexer : TaggedLexer) : TokenStream := ⟨lexer, Vector.replicate 5 none, 0, 0⟩

/-- How many tokens are buffered. -/
def buffered (s : TokenStream) : Nat := (s.last - s.next).val

/-- Whether nothing is buffered. -/
def isEmpty (s : TokenStream) : Bool := s.next == s.last

/-- Register a tag. Tokens read before keep their kind. -/
def register (s : TokenStream) (tag : String) : TokenStream :=
  { s with lexer := s.lexer.register tag }

/-- Read one token into the ring. -/
def push (s : TokenStream) : TokenStream :=
  let read := s.lexer.readSignificant
  { s with lexer := read.2, slots := s.slots.set s.last (some read.1), last := s.last + 1 }

/-- Read `n` tokens into the ring. -/
def pushes : Nat → TokenStream → TokenStream
  | 0, s => s
  | n + 1, s => pushes n s.push

/-- Read until `k` tokens are buffered. -/
def fill (s : TokenStream) (k : Nat) : TokenStream := s.pushes (k - s.buffered)

/-- What a slot counted from the next one on holds. -/
def held? (s : TokenStream) (i : Fin 5) : Option Token := s.slots[s.next + i]

/-- A slot counted from the next one on. A slot that holds nothing shows what would
be read into it. -/
def slot (s : TokenStream) (i : Fin 5) : Token := (s.held? i).getD s.lexer.readSignificant.1

/-- The next token and the stream with it buffered. -/
def look (s : TokenStream) : Token × TokenStream :=
  let filled := s.fill 1
  (filled.slot 0, filled)

/-- The token after the next one and the stream with both buffered. -/
def lookSecond (s : TokenStream) : Token × TokenStream :=
  let filled := s.fill 2
  (filled.slot 1, filled)

/-- Empty the next slot and pass over it. -/
def vacate (s : TokenStream) : TokenStream :=
  { s with slots := s.slots.set s.next none, next := s.next + 1 }

/-- Take the next token, from the ring if one is buffered. -/
def take (s : TokenStream) : Token × TokenStream :=
  if s.isEmpty then
    let read := s.lexer.readSignificant
    (read.1, { s with lexer := read.2 })
  else
    match s.held? 0 with
    | some t => (t, s.vacate)
    | none =>
      let read := s.lexer.readSignificant
      (read.1, { s with lexer := read.2, next := s.next + 1 })

/-- Answer the requests of a parse. The stream is left where the parse ended, also
when it failed. -/
def run {α : Type} : Parse α → TokenStream → Except SyntaxError α × TokenStream
  | .done a, s => (.ok a, s)
  | .fail e, s => (.error e, s)
  | .peek k, s => run (k s.look.1) s.look.2
  | .peekSecond k, s => run (k s.lookSecond.1) s.lookSecond.2
  | .take k, s => run (k s.take.1) s.take.2

@[simp] theorem run_done {α : Type} (a : α) (s : TokenStream) : s.run (.done a) = (.ok a, s) := rfl

@[simp] theorem run_fail {α : Type} (e : SyntaxError) (s : TokenStream) :
    s.run (.fail e : Parse α) = (.error e, s) := rfl

/-- A parse that goes on runs where the first part ended, and not at all if that failed. -/
theorem run_bind {α β : Type} (p : Parse α) (f : α → Parse β) (s : TokenStream) :
    s.run (p.bind f) =
      match s.run p with
      | (.ok a, t) => t.run (f a)
      | (.error e, t) => (.error e, t) := by
  induction p generalizing s with
  | done a => rfl
  | fail e => rfl
  | peek k ih => exact ih _ _
  | peekSecond k ih => exact ih _ _
  | take k ih => exact ih _ _

/-- A bound on the tokens that are left before the end of the source. -/
def remaining (s : TokenStream) : Nat := s.buffered + s.lexer.lexer.unread

end TokenStream

end TagLang
