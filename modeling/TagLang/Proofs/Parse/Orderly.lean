import TagLang.Proofs.Parse.Contract
import TagLang.Registry

/-!
# Orderly parses

An orderly parse takes only tokens that the grammar has a use for, and where it fails it
names one of the tokens that were ahead: the error is at the position of that token, says
of it what there is, and the parse stops at the token, behind it or one token before it, as
the cause has it (`SyntaxError.Names`). A parse that is put together from orderly ones is
orderly.
-/

namespace TagLang

open Stream'

/-- The grammar has a use for such a token. -/
def Registry.Consumes (r : Registry) (t : Token) : Prop :=
  (t.kind ≠ .eof ∧ t.kind.isFault = false) ∨ (r.start? t.kind).isSome = true ∨
    (r.continuation? t.kind).isSome = true

theorem Registry.consumes_of_kind {r : Registry} {t : Token} (ne : t.kind ≠ .eof)
    (fault : t.kind.isFault = false) : r.Consumes t :=
  .inl ⟨ne, fault⟩

/-- The cause is about the `i`-th of some tokens, counted from zero, and a parse that fails
for it takes `k` of them. -/
def SyntaxCause.Names (s : Stream' Token) (i k : Nat) : SyntaxCause → Prop
  | .unexpectedToken expected expectedText actual actualText =>
    actual = (s.get i).kind ∧ actualText = (s.get i).text ∧ k = i ∧
      (actual = expected → ∃ text, expectedText = some text ∧ actualText ≠ text)
  | .annotationMissing actual actualText =>
    actual = (s.get i).kind ∧ actualText = (s.get i).text ∧ k = i
  | .expressionMissing token => token = (s.get i).text ∧ k = i + 1
  | .unrecognizedElement token =>
    (token = (s.get i).text ∧ k = i) ∨
      (token = s!"{(s.get k).tagName} {(s.get i).text}" ∧ k + 1 = i)
  | .misplacedAuxiliary tag _ => tag = (s.get i).tagName ∧ k = i
  | .lexical kind text => kind = (s.get i).kind ∧ text = (s.get i).text ∧ k = i

/-- The error is about the `i`-th token, stands there, and leaves what is behind `k` tokens. -/
structure SyntaxError.Names (e : SyntaxError) (s : Stream' Token) (i k : Nat) : Prop where
  position : e.position = (s.get i).position
  cause : e.cause.Names s i k

variable {s : Stream' Token} {i k m : Nat}

/-- What is named behind some tokens is named with them in front. -/
theorem SyntaxError.Names.behind {e : SyntaxError} (h : e.Names (s.drop m) i k) :
    e.Names s (m + i) (m + k) := by
  obtain ⟨position, cause⟩ := h
  have shift (j : Nat) : (s.drop m).get j = s.get (m + j) := get_drop _ _ _
  refine ⟨by rw [position, shift], ?_⟩
  rcases e with ⟨_ | _ | _ | _ | _ | _, _⟩ <;>
    simp only [SyntaxCause.Names, shift] at cause ⊢ <;> grind

namespace Parse

variable {α β : Type} {r : Registry} {p : Parse α} {f : α → Parse β}

/-- How many tokens a parse takes, whether it fails or not. -/
def taken : Parse α → Stream' Token → Nat
  | .done _, _ => 0
  | .fail _, _ => 0
  | .peek k, s => (k s.head).taken s
  | .peekSecond k, s => (k s.tail.head).taken s
  | .take k, s => (k s.head).taken s.tail + 1

theorem left_eq_drop_taken (p : Parse α) (s : Stream' Token) : (p.on s).2 = s.drop (p.taken s) := by
  induction p generalizing s with
  | done a => rfl
  | fail e => rfl
  | peek k ih => exact ih _ _
  | peekSecond k ih => exact ih _ _
  | take k ih => exact ih _ _

/-- Parses in a row take tokens in a row. -/
theorem taken_bind_of_ok {a : α} {t : Stream' Token} (h : p.on s = (.ok a, t)) :
    (p.bind f).taken s = p.taken s + (f a).taken t := by
  induction p generalizing s with
  | done b =>
      cases h
      exact (Nat.zero_add _).symm
  | fail e => cases h
  | peek k ih => exact ih _ h
  | peekSecond k ih => exact ih _ h
  | take k ih =>
      have behind := ih _ h
      rw [bind, taken, behind, taken]
      omega

theorem taken_bind_of_error {e : SyntaxError} {t : Stream' Token} (h : p.on s = (.error e, t)) :
    (p.bind f).taken s = p.taken s := by
  induction p generalizing s with
  | done b => cases h
  | fail e => rfl
  | peek k ih => exact ih _ h
  | peekSecond k ih => exact ih _ h
  | take k ih => exact congrArg (· + 1) (ih _ h)

/-- Where the parse fails, the error names a token, and the grammar has a use for all tokens
before it. -/
def Blames (r : Registry) (p : Parse α) (s : Stream' Token) : Prop :=
  ∀ e t, p.on s = (.error e, t) →
    ∃ i, e.Names s i (p.taken s) ∧ ∀ j < i, r.Consumes (s.get j)

/-- Where the parse comes to a value, the grammar has a use for all tokens that it takes, and
where it fails, the error names a token. -/
structure Orderly (r : Registry) (p : Parse α) (s : Stream' Token) : Prop where
  consumes : ∀ a t, p.on s = (.ok a, t) → ∀ j < p.taken s, r.Consumes (s.get j)
  blames : p.Blames r s

theorem blames_done {a : α} : (done a).Blames r s := by
  intro e t h
  cases h

theorem orderly_done {a : α} : (done a).Orderly r s := by
  refine ⟨?_, blames_done⟩
  intro b t _ j hj
  cases hj

/-- Behind an orderly parse, what blames a token blames it. -/
theorem Orderly.blames_bind (h : p.Orderly r s)
    (next : ∀ a t, p.on s = (.ok a, t) → (f a).Blames r t) : (p.bind f).Blames r s := by
  intro e u failed
  rw [on_bind] at failed
  cases run : p.on s with
  | mk o t =>
      rw [run] at failed
      cases o with
      | error e' =>
          cases failed
          rw [taken_bind_of_error run]
          exact h.blames _ _ run
      | ok a =>
          have left : t = s.drop (p.taken s) := by rw [← left_eq_drop_taken, run]
          obtain ⟨i, names, consumes⟩ := next a t run e u failed
          rw [left] at names consumes
          refine ⟨p.taken s + i, ?_, ?_⟩
          · rw [taken_bind_of_ok run, left]
            exact names.behind
          · intro j hj
            by_cases front : j < p.taken s
            · exact h.consumes a t run j front
            · have use := consumes (j - p.taken s) (by omega)
              rwa [get_drop, Nat.add_sub_cancel' (by omega)] at use

theorem orderly_bind (h : p.Orderly r s)
    (next : ∀ a t, p.on s = (.ok a, t) → (f a).Orderly r t) : (p.bind f).Orderly r s := by
  refine ⟨?_, h.blames_bind fun a t run => (next a t run).blames⟩
  intro b u ok j hj
  rw [on_bind] at ok
  cases run : p.on s with
  | mk o t =>
      rw [run] at ok
      cases o with
      | error e => cases ok
      | ok a =>
          have left : t = s.drop (p.taken s) := by rw [← left_eq_drop_taken, run]
          rw [taken_bind_of_ok run] at hj
          by_cases front : j < p.taken s
          · exact h.consumes a t run j front
          · have use := (next a t run).consumes b u ok (j - p.taken s) (by omega)
            rwa [left, get_drop, Nat.add_sub_cancel' (by omega)] at use

/-- Parses in a row that are orderly wherever they stand. -/
theorem Orderly.bind (h : p.Orderly r s) (next : ∀ a t, (f a).Orderly r t) :
    (p.bind f).Orderly r s :=
  orderly_bind h fun a t _ => next a t

theorem orderly_look_bind {f : Token → Parse β} (h : (f s.head).Orderly r s) :
    (look.bind f).Orderly r s :=
  ⟨h.consumes, h.blames⟩

theorem taken_lookSecond_bind (f : Token → Parse β) (s : Stream' Token) :
    (lookSecond.bind f).taken s = (f s.tail.head).taken s := rfl

theorem orderly_lookSecond_bind {f : Token → Parse β} (h : (f s.tail.head).Orderly r s) :
    (lookSecond.bind f).Orderly r s :=
  ⟨h.consumes, h.blames⟩

theorem orderly_next (h : r.Consumes s.head) : next.Orderly r s := by
  constructor
  · intro a t _ j hj
    obtain rfl : j = 0 := by
      have one : next.taken s = 1 := rfl
      omega
    exact h
  · intro e t failed
    cases failed

/-- A parse that fails on the next token. -/
theorem orderly_failAt {cause : SyntaxCause} (h : cause.Names s 0 0) :
    (failAt s.head cause : Parse α).Orderly r s := by
  constructor
  · intro a t ok
    cases ok
  · intro e t failed
    cases failed
    refine ⟨0, ⟨rfl, h⟩, ?_⟩
    intro j hj
    cases hj

/-- A token is taken and said to begin no expression. -/
theorem orderly_refuse : (refuse : Parse α).Orderly r s := by
  constructor
  · intro a t ok
    cases ok
  · intro e t failed
    cases failed
    refine ⟨0, ⟨rfl, rfl, rfl⟩, ?_⟩
    intro j hj
    cases hj

/-- What is done with the token taken matters, and not what would be done with others. -/
theorem Orderly.congr_next {f g : Token → Parse α} (h : (next.bind f).Orderly r s)
    (same : g s.head = f s.head) : (next.bind g).Orderly r s := by
  have on_eq : (next.bind g).on s = (next.bind f).on s := by
    show (g s.head).on s.tail = (f s.head).on s.tail
    rw [same]
  have taken_eq : (next.bind g).taken s = (next.bind f).taken s := by
    show (g s.head).taken s.tail + 1 = (f s.head).taken s.tail + 1
    rw [same]
  refine ⟨?_, ?_⟩
  · rw [on_eq, taken_eq]
    exact h.consumes
  · rw [Blames, on_eq, taken_eq]
    exact h.blames

/-- Behind a token that the grammar has a use for. -/
theorem orderly_next_bind {f : Token → Parse β} (h : r.Consumes s.head)
    (next : (f s.head).Orderly r s.tail) : (Parse.next.bind f).Orderly r s := by
  refine orderly_bind (orderly_next h) ?_
  rintro a t run
  cases run
  exact next

/-- A parse whose value is put to use. -/
theorem Orderly.map {g : α → β} (h : p.Orderly r s) : (p.bind fun a => done (g a)).Orderly r s :=
  h.bind fun _ _ => orderly_done

theorem orderly_accept {kind : TokenKind} (ne : kind ≠ .eof) (fault : kind.isFault = false) :
    (accept kind).Orderly r s := by
  refine orderly_look_bind ?_
  show (if s.head.kind = kind then next.bind fun _ => done true else done false).Orderly r s
  split
  · rename_i same
    exact orderly_next_bind (Registry.consumes_of_kind (same ▸ ne) (same ▸ fault)) orderly_done
  · exact orderly_done

theorem blames_next : next.Blames r s := by
  intro e t failed
  cases failed

/-- A parse whose value is put to use blames what the parse blames. -/
theorem Blames.map {g : α → β} (h : p.Blames r s) : (p.bind fun a => done (g a)).Blames r s := by
  intro e u failed
  rw [on_bind] at failed
  cases run : p.on s with
  | mk o t =>
      rw [run] at failed
      cases o with
      | ok a => cases failed
      | error e' =>
          cases failed
          rw [taken_bind_of_error run]
          exact h _ _ run

theorem blames_expect {kind : TokenKind} : (expect kind).Blames r s := by
  show (if s.head.kind = kind then next
    else failAt s.head (.unexpectedToken kind none s.head.kind s.head.text)).Blames r s
  split
  · exact blames_next
  · rename_i other
    refine (orderly_failAt ?_).blames
    exact ⟨rfl, rfl, rfl, fun same => absurd same other⟩

theorem orderly_expect {kind : TokenKind} (ne : kind ≠ .eof) (fault : kind.isFault = false) :
    (expect kind).Orderly r s := by
  refine orderly_look_bind ?_
  split
  · rename_i same
    exact orderly_next (Registry.consumes_of_kind (same ▸ ne) (same ▸ fault))
  · rename_i other
    refine orderly_failAt ?_
    exact ⟨rfl, rfl, rfl, fun same => absurd same other⟩

theorem orderly_expectText {kind : TokenKind} {text : String} (ne : kind ≠ .eof)
    (fault : kind.isFault = false) : (expectText kind text).Orderly r s := by
  refine orderly_look_bind ?_
  split
  · rename_i same
    exact orderly_next (Registry.consumes_of_kind (same.1 ▸ ne) (same.1 ▸ fault))
  · rename_i other
    refine orderly_failAt ?_
    exact ⟨rfl, rfl, rfl, fun same => ⟨text, rfl, fun spelled => other ⟨same, spelled⟩⟩⟩

/-- A loop of orderly rounds is orderly. -/
theorem orderly_gather {p : Parse (Option α)} (h : ∀ t, p.Orderly r t) (n : Nat)
    (gathered : List α) : (gather p n gathered).Orderly r s := by
  induction n generalizing gathered s with
  | zero => exact orderly_refuse
  | succ n ih =>
      refine (h s).bind fun o t => ?_
      cases o with
      | none => exact orderly_done
      | some a => exact ih (a :: gathered)

end Parse

end TagLang
