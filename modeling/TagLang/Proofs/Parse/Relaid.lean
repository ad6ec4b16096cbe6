import TagLang.Proofs.Erased
import TagLang.Proofs.Parse.Contract

/-!
# Parses of the same tokens in another layout

Two sequences of tokens are laid out differently if they agree without positions; one thing
about lines is to be the same, whether a name that comes next after a `return` is on a later
line (`Relaid`). A parse of the one and a parse of the other agree if both come to values that
are related, or both fail for the same cause (`Agrees`). Loops have bounds that may differ, as
long as both are above the number of tokens before the end, since every round takes one.
-/

namespace TagLang

open Stream'

/-- The same tokens in another layout, with at most `k` of them before the end of the
source. -/
structure Relaid (k : Nat) (s s' : Stream' Token) : Prop where
  erase : ∀ n, (s.get n).erase = (s'.get n).erase
  later : ∀ n, (s.get n).tagName = "return" → (s.get (n + 1)).kind = .identifier →
    ((s.get n).position.line < (s.get (n + 1)).position.line ↔
      (s'.get n).position.line < (s'.get (n + 1)).position.line)
  ends : ∀ n, k ≤ n → (s.get n).kind = .eof

namespace Relaid

variable {k : Nat} {s s' : Stream' Token}

theorem mono {j : Nat} (h : Relaid j s s') (le : j ≤ k) : Relaid k s s' :=
  ⟨h.erase, h.later, fun n hn => h.ends n (Nat.le_trans le hn)⟩

theorem head_kind (h : Relaid k s s') : s.head.kind = s'.head.kind :=
  (Token.erase_eq_iff.mp (h.erase 0)).1

theorem head_text (h : Relaid k s s') : s.head.text = s'.head.text :=
  (Token.erase_eq_iff.mp (h.erase 0)).2

theorem tail (h : Relaid k s s') : Relaid k s.tail s'.tail :=
  ⟨fun n => h.erase (n + 1), fun n => h.later (n + 1), fun n hn => h.ends (n + 1) (by omega)⟩

/-- A token before the end is one of those before the end. -/
theorem exists_lt_tail (h : Relaid k s s') (ne : s.head.kind ≠ .eof) :
    ∃ j < k, Relaid j s.tail s'.tail := by
  have pos : 0 < k := by
    by_contra none
    exact ne (h.ends 0 (by omega))
  refine ⟨k - 1, by omega, h.tail.erase, h.tail.later, ?_⟩
  intro n hn
  exact h.ends (n + 1) (by omega)

end Relaid

/-- Tokens of the same kind and text go by the same name. -/
theorem Token.tagName_eq_of_text {t u : Token} (text : t.text = u.text) :
    t.tagName = u.tagName := by
  rw [tagName, tagName, text]

namespace Parse

variable {α β γ : Type} {k : Nat} {s s' : Stream' Token}

/-- Both parses come to values that are related with what is left, or both fail for one
cause. -/
def Agrees (p p' : Parse α) (s s' : Stream' Token)
    (post : α → α → Stream' Token → Stream' Token → Prop) : Prop :=
  match p.on s, p'.on s' with
  | (.ok a, t), (.ok a', t') => post a a' t t'
  | (.error e, _), (.error e', _) => e.cause = e'.cause
  | _, _ => False

/-- The values are the same to a view of them, and the tokens left are relaid. -/
def Kept (k : Nat) (f : α → γ) (a a' : α) (t t' : Stream' Token) : Prop :=
  f a = f a' ∧ Relaid k t t'

/-- The values are the same to a view of them, and fewer tokens are left, which are relaid. -/
def Took (k : Nat) (f : α → γ) (a a' : α) (t t' : Stream' Token) : Prop :=
  f a = f a' ∧ ∃ j < k, Relaid j t t'

/-- In front of the same tokens in another layout, both parses come to values that are the same
to a view of them, or both fail for one cause. -/
def Keeps (k : Nat) (view : α → γ) (p p' : Parse α) : Prop :=
  ∀ s s', Relaid k s s' → p.Agrees p' s s' (Kept k view)

/-- One round of a loop: either both find nothing more, or both find one more value and take
a token. -/
inductive Further (k : Nat) (f : α → γ) : Option α → Option α → Stream' Token → Stream' Token → Prop
  | stops {t t' : Stream' Token} (relaid : Relaid k t t') : Further k f none none t t'
  | goes {a a' : α} {t t' : Stream' Token} (same : f a = f a') {j : Nat} (lt : j < k)
      (relaid : Relaid j t t') : Further k f (some a) (some a') t t'

section Rules

variable {p p' : Parse α} {f f' : α → Parse β} {view : α → γ}
  {post : α → α → Stream' Token → Stream' Token → Prop}
  {post' : β → β → Stream' Token → Stream' Token → Prop}

theorem Agrees.mono {post' : α → α → Stream' Token → Stream' Token → Prop}
    (h : p.Agrees p' s s' post) (imp : ∀ a a' t t', post a a' t t' → post' a a' t t') :
    p.Agrees p' s s' post' := by
  rw [Agrees] at h ⊢
  split <;> simp_all

theorem agrees_done {a a' : α} (h : post a a' s s') : (done a).Agrees (done a') s s' post := h

theorem agrees_fail {e e' : SyntaxError} (h : e.cause = e'.cause) :
    (fail e : Parse α).Agrees (fail e') s s' post := h

/-- Parses in a row agree if those behind agree wherever those in front have agreed. -/
theorem Agrees.bind (h : p.Agrees p' s s' post)
    (next : ∀ a a' t t', post a a' t t' → (f a).Agrees (f' a') t t' post') :
    (p.bind f).Agrees (p'.bind f') s s' post' := by
  rw [Agrees] at h
  rw [Agrees, on_bind, on_bind]
  split at h
  · rename_i a t a' t' hp hp'
    rw [hp, hp']
    exact next a a' t t' h
  · rename_i e t e' t' hp hp'
    rw [hp, hp']
    exact h
  · cases h

/-- The values of parses that agree may be put to use. -/
theorem Agrees.map {g g' : α → β} (h : p.Agrees p' s s' post)
    (imp : ∀ a a' t t', post a a' t t' → post' (g a) (g' a') t t') :
    (p.bind fun a => done (g a)).Agrees (p'.bind fun a => done (g' a)) s s' post' :=
  h.bind fun a a' t t' related => agrees_done (imp a a' t t' related)

theorem agrees_look_bind {f f' : Token → Parse β} (h : (f s.head).Agrees (f' s'.head) s s' post') :
    (look.bind f).Agrees (look.bind f') s s' post' := h

theorem agrees_lookSecond_bind {f f' : Token → Parse β}
    (h : (f s.tail.head).Agrees (f' s'.tail.head) s s' post') :
    (lookSecond.bind f).Agrees (lookSecond.bind f') s s' post' := h

theorem agrees_next_bind {f f' : Token → Parse β}
    (h : (f s.head).Agrees (f' s'.head) s.tail s'.tail post') :
    (next.bind f).Agrees (next.bind f') s s' post' := h

namespace Keeps

variable {δ : Type} {view' : β → δ}

/-- What takes a token keeps what is left behind it. -/
theorem of_took (h : ∀ s s', Relaid k s s' → p.Agrees p' s s' (Took k view)) :
    Keeps k view p p' := by
  intro s s' relaid
  refine (h s s' relaid).mono ?_
  rintro a a' t t' ⟨same, j, less, left⟩
  exact ⟨same, left.mono (Nat.le_of_lt less)⟩

theorem bind (h : Keeps k view p p')
    (next : ∀ a a', view a = view a' → Keeps k view' (f a) (f' a')) :
    Keeps k view' (p.bind f) (p'.bind f') := by
  intro s s' relaid
  refine (h s s' relaid).bind ?_
  rintro a a' t t' ⟨same, left⟩
  exact next a a' same t t' left

theorem map {g g' : α → β} (h : Keeps k view p p')
    (imp : ∀ a a', view a = view a' → view' (g a) = view' (g' a')) :
    Keeps k view' (p.bind fun a => done (g a)) (p'.bind fun a => done (g' a)) :=
  h.bind fun a a' same _ _ left => agrees_done ⟨imp a a' same, left⟩

end Keeps

/-- Loops agree if their rounds do. A round takes one of the tokens before the end, so no
bound above their number is reached. -/
theorem agrees_gather {p p' : Parse (Option α)} {n n' : Nat} {gathered gathered' : List α}
    (round : ∀ j ≤ k, ∀ t t', Relaid j t t' → p.Agrees p' t t' (Further j view))
    (room : k < n) (room' : k < n') (relaid : Relaid k s s')
    (same : gathered.map view = gathered'.map view) :
    (gather p n gathered).Agrees (gather p' n' gathered') s s' (Kept k (List.map view)) := by
  induction k using Nat.strongRecOn generalizing n n' gathered gathered' s s' with
  | ind k ih =>
      obtain ⟨n, rfl⟩ : ∃ m, n = m + 1 := ⟨n - 1, by omega⟩
      obtain ⟨n', rfl⟩ : ∃ m, n' = m + 1 := ⟨n' - 1, by omega⟩
      refine (round k (Nat.le_refl k) s s' relaid).bind ?_
      rintro _ _ t t' (behind | ⟨sameOne, lt, behind⟩)
      · refine agrees_done ⟨?_, behind⟩
        rw [List.map_reverse, List.map_reverse, same]
      · refine (ih _ lt (fun i le => round i (by omega)) (by omega) (by omega) behind ?_).mono ?_
        · rw [List.map_cons, List.map_cons, sameOne, same]
        · rintro xs xs' u u' ⟨sameAll, left⟩
          exact ⟨sameAll, left.mono (Nat.le_of_lt lt)⟩

end Rules

end Parse

namespace Relaid

open Parse

variable {k : Nat} {s s' : Stream' Token}

theorem agrees_next (relaid : Relaid k s s') (ne : s.head.kind ≠ .eof) :
    next.Agrees next s s' (Took k Token.erase) :=
  ⟨relaid.erase 0, relaid.exists_lt_tail ne⟩

theorem agrees_accept {kind : TokenKind} (relaid : Relaid k s s')
    (ne : kind ≠ .eof) :
    (accept kind).Agrees (accept kind) s s' fun b b' t t' =>
      b = b' ∧ if b then ∃ j < k, Relaid j t t' else Relaid k t t' := by
  refine agrees_look_bind ?_
  rw [← relaid.head_kind]
  split
  · rename_i same
    refine (agrees_next relaid (same ▸ ne)).map ?_
    rintro _ _ _ _ ⟨-, took⟩
    exact ⟨rfl, took⟩
  · exact agrees_done ⟨rfl, relaid⟩

theorem agrees_expect {kind : TokenKind} (relaid : Relaid k s s')
    (ne : kind ≠ .eof) :
    (expect kind).Agrees (expect kind) s s' (Took k Token.erase) := by
  refine agrees_look_bind ?_
  rw [← relaid.head_kind, ← relaid.head_text]
  split
  · rename_i same
    exact agrees_next relaid (same ▸ ne)
  · exact agrees_fail rfl

theorem agrees_expectText {kind : TokenKind} {text : String} (relaid : Relaid k s s')
    (ne : kind ≠ .eof) :
    (expectText kind text).Agrees (expectText kind text) s s' (Took k Token.erase) := by
  refine agrees_look_bind ?_
  rw [← relaid.head_kind, ← relaid.head_text]
  split
  · rename_i same
    exact agrees_next relaid (same.1 ▸ ne)
  · exact agrees_fail rfl

end Relaid

end TagLang
