import TagLang.SyntaxError

/-!
# Parsing as requests for tokens

A `Parse` asks for tokens one at a time and ends in a value or an error. It may
look at the next token or at the one after it without consuming either, and it
may take the next token. What answers the requests is left open: a token stream
runs a parse (`TokenStream.run`), and so may any other source of tokens.
-/

namespace TagLang

/-- A parse that yields an `α`. -/
inductive Parse (α : Type) where
  /-- The parse has come to its value. -/
  | done (value : α)
  /-- The parse has failed. -/
  | fail (error : SyntaxError)
  /-- Look at the next token. -/
  | peek (next : Token → Parse α)
  /-- Look at the token after the next one. -/
  | peekSecond (next : Token → Parse α)
  /-- Take the next token. -/
  | take (next : Token → Parse α)

namespace Parse

variable {α β γ : Type}

/-- Go on with the value of a parse. -/
def bind : Parse α → (α → Parse β) → Parse β
  | .done a, f => f a
  | .fail e, _ => .fail e
  | .peek k, f => .peek fun t => (k t).bind f
  | .peekSecond k, f => .peekSecond fun t => (k t).bind f
  | .take k, f => .take fun t => (k t).bind f

instance : Monad Parse where
  pure := .done
  bind := bind

@[simp] theorem pure_eq (a : α) : (pure a : Parse α) = .done a := rfl

@[simp] theorem bind_eq (p : Parse α) (f : α → Parse β) : p >>= f = p.bind f := rfl

@[simp] theorem done_bind (a : α) (f : α → Parse β) : (Parse.done a).bind f = f a := rfl

@[simp] theorem fail_bind (e : SyntaxError) (f : α → Parse β) :
    (Parse.fail e).bind f = .fail e := rfl

@[simp] theorem bind_done (p : Parse α) : p.bind .done = p := by
  induction p <;> simp_all [bind]

theorem bind_assoc (p : Parse α) (f : α → Parse β) (g : β → Parse γ) :
    (p.bind f).bind g = p.bind fun a => (f a).bind g := by
  induction p <;> simp_all [bind]

/-- The next token, not consumed. -/
def look : Parse Token := .peek .done

/-- The token after the next one, not consumed. -/
def lookSecond : Parse Token := .peekSecond .done

/-- The next token, consumed. -/
def next : Parse Token := .take .done

/-- Fail on a token. -/
def failAt (t : Token) (cause : SyntaxCause) : Parse α := .fail ⟨cause, t.position⟩

/-- Whether the next token has this kind. -/
def nextIs (kind : TokenKind) : Parse Bool := do
  return (← look).kind == kind

/-- Whether the next token has this kind and this text. -/
def nextIsText (kind : TokenKind) (text : String) : Parse Bool := do
  let t ← look
  return t.kind == kind && t.text == text

/-- Consume the next token if it has this kind, and say whether it had. -/
def accept (kind : TokenKind) : Parse Bool := do
  if (← look).kind = kind then
    let _ ← next
    return true
  else return false

/-- Consume a token of this kind, or fail on the next token. -/
def expect (kind : TokenKind) : Parse Token := do
  let t ← look
  if t.kind = kind then next
  else failAt t (.unexpectedToken kind none t.kind t.text)

/-- Consume a token of this kind and text, or fail on the next token. -/
def expectText (kind : TokenKind) (text : String) : Parse Token := do
  let t ← look
  if t.kind = kind ∧ t.text = text then next
  else failAt t (.unexpectedToken kind (some text) t.kind t.text)

/-- Take a token and fail on it: no expression begins here. -/
def refuse : Parse α := do
  let t ← next
  failAt t (.expressionMissing t.text)

/-- Repeat a parse until it yields nothing, and put the values behind those
already gathered, which are held last first. After `n` times it is refused. -/
def gather (p : Parse (Option α)) : Nat → List α → Parse (List α)
  | 0, _ => refuse
  | n + 1, gathered => do
    match ← p with
    | none => return gathered.reverse
    | some a => gather p n (a :: gathered)

end Parse

end TagLang
