import TagLang.Proofs.Piece.Layout

/-!
# Beginnings of tokens that can be completed

A parse that is fed a list of tokens comes to a value, fails, or waits for a token that the
list does not hold (`feed`). While it waits, the tokens that it has are the beginning of
something it accepts: some fillers can be put behind them so that it comes to a value
(`ResumesAt`). The parse that is completed may have other bounds on its loops than the one
that waits. What has to follow the fillers is a parameter, since a parse may only end in front
of certain tokens.
-/

namespace TagLang

/-- What completes a parse: a name, an element that is nothing but its name, and what is
fixed by the grammar. -/
inductive Filler
  | name | openParen | closeParen | equals | endWord
  | symbolTag
  /-- The word before what a traversal goes over. -/
  | inWord
  /-- Second words of constructs. -/
  | typeWord | forWord | untilWord | whileWord
deriving DecidableEq, Repr

namespace Filler

/-- What a filler is written as. -/
def piece : Filler → Piece
  | .name => .identifier "x"
  | .openParen => .mark .openParen
  | .closeParen => .mark .closeParen
  | .equals => .mark .equals
  | .endWord => .word .endWord
  | .symbolTag => .tag "symbol"
  | .inWord => .identifier "in"
  | .typeWord => .identifier "type"
  | .forWord => .identifier "for"
  | .untilWord => .identifier "until"
  | .whileWord => .identifier "while"

/-- The next tokens are of the kinds and texts of the fillers, and what follows is as it has
to be. -/
def Leads : List Filler → (Stream' Token → Prop) → Stream' Token → Prop
  | [], follow, v => follow v
  | z :: zs, follow, v =>
    v.head.kind = z.piece.kind ∧ v.head.text = z.piece.text ∧ Leads zs follow v.tail

variable {z : Filler} {zs ws : List Filler} {follow : Stream' Token → Prop} {v : Stream' Token}

@[simp] theorem leads_nil : Leads [] follow v ↔ follow v := Iff.rfl

@[simp] theorem leads_cons :
    Leads (z :: zs) follow v ↔
      v.head.kind = z.piece.kind ∧ v.head.text = z.piece.text ∧ Leads zs follow v.tail := Iff.rfl

theorem leads_append : Leads (zs ++ ws) follow v ↔ Leads zs (Leads ws follow) v := by
  induction zs generalizing v with
  | nil => exact Iff.rfl
  | cons z zs ih => simp [ih]

end Filler

namespace Parse

open Filler

variable {α β : Type}

/-- How far a parse comes with a list of tokens. -/
inductive Fed (α : Type)
  /-- To a value, with some of the tokens left. -/
  | comes (value : α) (left : List Token)
  | fails (error : SyntaxError)
  /-- It asks for a token that the list does not hold. -/
  | waits

/-- Answer the requests of a parse from a list of tokens. -/
def feed : Parse α → List Token → Fed α
  | .done a, ts => .comes a ts
  | .fail e, _ => .fails e
  | .peek k, ts =>
    match ts with
    | [] => .waits
    | t :: us => (k t).feed (t :: us)
  | .peekSecond k, ts =>
    match ts with
    | t :: u :: us => (k u).feed (t :: u :: us)
    | _ => .waits
  | .take k, ts =>
    match ts with
    | [] => .waits
    | t :: us => (k t).feed us

theorem feed_bind (p : Parse α) (f : α → Parse β) (ts : List Token) :
    (p.bind f).feed ts =
      match p.feed ts with
      | .comes a us => (f a).feed us
      | .fails e => .fails e
      | .waits => .waits := by
  induction p generalizing ts with
  | done a => rfl
  | fail e => rfl
  | peek k ih =>
      cases ts with
      | nil => rfl
      | cons t us => exact ih t (t :: us)
  | peekSecond k ih =>
      match ts with
      | [] => rfl
      | [t] => rfl
      | t :: u :: us => exact ih u (t :: u :: us)
  | take k ih =>
      cases ts with
      | nil => rfl
      | cons t us => exact ih t us

/-- What a parse comes to with some tokens it comes to with any others behind them. -/
theorem on_of_comes {p : Parse α} {ts us : List Token} {a : α} (h : p.feed ts = .comes a us)
    (v : Stream' Token) : p.on (ts ++ₛ v) = (.ok a, us ++ₛ v) := by
  induction p generalizing ts with
  | done b =>
      cases h
      rfl
  | fail e => cases h
  | peek k ih =>
      cases ts with
      | nil => cases h
      | cons t ts => exact ih t h
  | peekSecond k ih =>
      match ts with
      | [] => cases h
      | [t] => cases h
      | t :: u :: ts => exact ih u h
  | take k ih =>
      cases ts with
      | nil => cases h
      | cons t ts => exact ih t h

theorem on_of_fails {p : Parse α} {ts : List Token} {e : SyntaxError} (h : p.feed ts = .fails e)
    (v : Stream' Token) : (p.on (ts ++ₛ v)).1 = .error e := by
  induction p generalizing ts with
  | done b => cases h
  | fail e =>
      cases h
      rfl
  | peek k ih =>
      cases ts with
      | nil => cases h
      | cons t ts => exact ih t h
  | peekSecond k ih =>
      match ts with
      | [] => cases h
      | [t] => cases h
      | t :: u :: ts => exact ih u h
  | take k ih =>
      cases ts with
      | nil => cases h
      | cons t ts => exact ih t h

/-- The fillers, with what has to follow them, are all that the parse needs. -/
def Closes (p : Parse α) (zs : List Filler) (follow : Stream' Token → Prop) : Prop :=
  ∀ v, Leads zs follow v → p.Yields v fun _ t => follow t

/-- Where the parse waits behind some tokens, the other one comes to a value if the right
fillers are put behind them. Where it comes to a value, so does the other, and takes at least
as many tokens as are gained with that value. -/
def ResumesAt (ts : List Token) (p p' : Parse α) (follow : Stream' Token → Prop)
    (gain : α → Nat) : Prop :=
  match p.feed ts with
  | .comes a us => p'.feed ts = .comes a us ∧ us.length + gain a ≤ ts.length
  | .fails _ => True
  | .waits => ∃ zs, ∀ v, Leads zs follow v → p'.Yields (ts ++ₛ v) fun _ t => follow t

/-- Whatever beginning the parse waits behind, of at most `k` tokens, can be completed, and it
can be closed from its start with the given fillers. -/
structure Viable (k : Nat) (p p' : Parse α) (zs : List Filler) (follow : Stream' Token → Prop)
    (gain : α → Nat) : Prop where
  closes : p'.Closes zs follow
  resumes : ∀ ts, ts.length ≤ k → p.ResumesAt ts p' follow gain

/-- The tokens that a round of a loop has to take: one, if the loop goes on. -/
def perRound : Option α → Nat
  | some _ => 1
  | none => 0

theorem perRound_le_one (o : Option α) : perRound o ≤ 1 := by
  cases o with
  | some a => exact Nat.le_refl 1
  | none => exact Nat.zero_le 1

section Rules

variable {k : Nat} {p p' : Parse α} {f f' : α → Parse β} {zs ws : List Filler}
  {follow : Stream' Token → Prop} {gain : α → Nat} {gain' : β → Nat} {ts us : List Token}
  {t : Token}

theorem closes_done {a : α} : (done a).Closes [] follow :=
  fun _ h => yields_done.mpr h

theorem Closes.bind (h : p.Closes zs (Leads ws follow)) (next : ∀ a, (f a).Closes ws follow) :
    (p.bind f).Closes (zs ++ ws) follow := by
  intro v leads
  refine (h v (leads_append.mp leads)).bind ?_
  intro a t behind
  exact next a t behind

theorem resumesAt_done {a : α} (none : gain a = 0) : (done a).ResumesAt ts (done a) follow gain :=
  ⟨rfl, by omega⟩

theorem resumesAt_failAt {cause : SyntaxCause} : (failAt t cause).ResumesAt ts p' follow gain :=
  trivial

/-- A parse that waits for its first token is completed as it is closed. -/
theorem resumesAt_nil (waits : p.feed [] = .waits) (closes : p'.Closes zs follow) :
    p.ResumesAt [] p' follow gain := by
  rw [ResumesAt, waits]
  exact ⟨zs, closes⟩

/-- A parse that waits for its first token has only the beginnings that hold one to answer for. -/
theorem viable_of_waits (waits : p.feed [] = .waits) (closes : p'.Closes zs follow)
    (behind : ∀ t us, us.length < k → p.ResumesAt (t :: us) p' follow gain) :
    Viable k p p' zs follow gain := by
  refine ⟨closes, ?_⟩
  intro ts short
  cases ts with
  | nil => exact resumesAt_nil waits closes
  | cons t us => exact behind t us short

/-- A parse that refuses every token waits for one, or fails. -/
theorem resumesAt_refuse (closes : p'.Closes zs follow) :
    (refuse : Parse α).ResumesAt ts p' follow gain := by
  cases ts with
  | nil => exact resumesAt_nil rfl closes
  | cons t us => trivial

theorem ResumesAt.mono {less : α → Nat} (h : p.ResumesAt ts p' follow gain)
    (le : ∀ a, less a ≤ gain a) : p.ResumesAt ts p' follow less := by
  rw [ResumesAt] at h ⊢
  split at h
  · rename_i a us _
    have more := le a
    exact ⟨h.1, by omega⟩
  · trivial
  · exact h

theorem resumesAt_look_bind {f f' : Token → Parse β}
    (h : (f t).ResumesAt (t :: us) (f' t) follow gain') :
    (look.bind f).ResumesAt (t :: us) (look.bind f') follow gain' := h

theorem resumesAt_lookSecond_bind {f f' : Token → Parse β} {u : Token}
    (h : (f u).ResumesAt (t :: u :: us) (f' u) follow gain') :
    (lookSecond.bind f).ResumesAt (t :: u :: us) (lookSecond.bind f') follow gain' := h

/-- Behind a token that is taken, a token is gained. -/
theorem resumesAt_next_bind {f f' : Token → Parse β}
    (h : (f t).ResumesAt us (f' t) follow fun _ => 0) (le : ∀ b, gain' b ≤ 1) :
    (next.bind f).ResumesAt (t :: us) (next.bind f') follow gain' := by
  have fed : (next.bind f).feed (t :: us) = (f t).feed us := rfl
  have fed' : (next.bind f').feed (t :: us) = (f' t).feed us := rfl
  rw [ResumesAt] at h ⊢
  rw [fed, fed']
  split at h
  · rename_i b vs _
    refine ⟨h.1, ?_⟩
    have less := h.2
    have more := le b
    rw [List.length_cons]
    omega
  · trivial
  · exact h

/-- Parses in a row can be completed behind the beginning of the first and behind that of the
second. -/
theorem ResumesAt.bind (h : p.ResumesAt ts p' (Leads zs follow) gain) (more : α → β → Nat)
    (closes : ∀ a, (f' a).Closes zs follow)
    (next : ∀ a us, us.length + gain a ≤ ts.length → (f a).ResumesAt us (f' a) follow (more a))
    (le : ∀ a b, gain' b ≤ gain a + more a b) :
    (p.bind f).ResumesAt ts (p'.bind f') follow gain' := by
  rw [ResumesAt] at h
  rw [ResumesAt, feed_bind]
  cases fed : p.feed ts with
  | fails e => trivial
  | waits =>
      rw [fed] at h
      obtain ⟨ws, completes⟩ := h
      refine ⟨ws ++ zs, ?_⟩
      intro v leads
      exact (completes v (leads_append.mp leads)).bind fun a t behind => closes a t behind
  | comes a us =>
      rw [fed] at h
      obtain ⟨fed', less⟩ := h
      have behind := next a us less
      rw [ResumesAt] at behind
      dsimp only
      rw [feed_bind, fed']
      cases second : (f a).feed us with
      | fails e => trivial
      | waits =>
          rw [second] at behind
          obtain ⟨ws, completes⟩ := behind
          refine ⟨ws, ?_⟩
          intro v leads
          exact yields_bind.mpr ⟨a, us ++ₛ v, on_of_comes fed' v, completes v leads⟩
      | comes b vs =>
          rw [second] at behind
          refine ⟨behind.1, ?_⟩
          have less' := behind.2
          have both := le a b
          omega

/-- Parses in a row are closed one after the other. -/
theorem Viable.bind (h : Viable k p p' zs (Leads ws follow) gain)
    (next : ∀ a, Viable k (f a) (f' a) ws follow fun _ => 0) :
    Viable k (p.bind f) (p'.bind f') (zs ++ ws) follow fun _ => 0 := by
  refine ⟨h.closes.bind fun a => (next a).closes, ?_⟩
  intro ts short
  refine (h.resumes ts short).bind (fun _ _ => 0) (fun a => (next a).closes) ?_
    fun _ _ => Nat.zero_le _
  intro a us less
  exact (next a).resumes us (by omega)

/-- Parses in a row, where the second one can end at once. -/
theorem Viable.before (h : Viable k p p' zs follow gain)
    (next : ∀ a, Viable k (f a) (f' a) [] follow fun _ => 0) :
    Viable k (p.bind f) (p'.bind f') zs follow fun _ => 0 := by
  have first : Viable k p p' zs (Leads [] follow) gain := h
  have both := first.bind next
  rwa [List.append_nil] at both

theorem Viable.mono {j : Nat} {less : α → Nat} (h : Viable k p p' zs follow gain) (le : j ≤ k)
    (le' : ∀ a, less a ≤ gain a) : Viable j p p' zs follow less := by
  refine ⟨h.closes, ?_⟩
  intro ts short
  exact (h.resumes ts (by omega)).mono le'

theorem ResumesAt.map {g : α → β} (h : p.ResumesAt ts p' follow gain)
    (le : ∀ a, gain' (g a) ≤ gain a) :
    (p.bind fun a => done (g a)).ResumesAt ts (p'.bind fun a => done (g a)) follow gain' := by
  have first : p.ResumesAt ts p' (Leads [] follow) gain := h
  refine first.bind (fun a b => gain' b - gain a) (fun _ => closes_done) ?_ fun a b => by omega
  intro a us _
  refine resumesAt_done ?_
  have less := le a
  omega

/-- A parse whose value is put to use. -/
theorem Viable.map {g : α → β} (h : Viable k p p' zs follow gain) (le : ∀ a, gain' (g a) ≤ gain a) :
    Viable k (p.bind fun a => done (g a)) (p'.bind fun a => done (g a)) zs follow gain' := by
  refine ⟨?_, fun ts short => (h.resumes ts short).map le⟩
  intro v leads
  exact (h.closes v leads).bind fun a t behind => yields_done.mpr behind

theorem viable_expect {kind : TokenKind} (z : Filler) (same : z.piece.kind = kind) :
    Viable k (expect kind) (expect kind) [z] follow fun _ => 1 := by
  apply viable_of_waits rfl
  · intro v leads
    exact yields_expect (leads.1.trans same) leads.2.2
  · intro t us _
    refine resumesAt_look_bind ?_
    split
    · exact ⟨rfl, Nat.le_refl _⟩
    · exact resumesAt_failAt

theorem viable_expectText {kind : TokenKind} {text : String} (z : Filler)
    (same : z.piece.kind = kind) (sameText : z.piece.text = text) :
    Viable k (expectText kind text) (expectText kind text) [z] follow fun _ => 1 := by
  apply viable_of_waits rfl
  · intro v leads
    exact yields_expectText (leads.1.trans same) (leads.2.1.trans sameText) leads.2.2
  · intro t us _
    refine resumesAt_look_bind ?_
    split
    · exact ⟨rfl, Nat.le_refl _⟩
    · exact resumesAt_failAt

/-- What is done where a token is looked for: behind it, or in front of another one. -/
theorem resumesAt_accept_bind {kind : TokenKind} {f f' : Bool → Parse β}
    (yes : (f true).ResumesAt us (f' true) follow fun _ => 0)
    (no : (f false).ResumesAt (t :: us) (f' false) follow gain') (le : ∀ b, gain' b ≤ 1) :
    ((accept kind).bind f).ResumesAt (t :: us) ((accept kind).bind f') follow gain' := by
  show ((look.bind _).bind f).ResumesAt _ ((look.bind _).bind f') _ _
  rw [bind_assoc, bind_assoc]
  refine resumesAt_look_bind ?_
  split
  · exact resumesAt_next_bind yes le
  · exact no

/-- A loop that looks ahead ends in front of what it does not go on with, and takes a token
each round. -/
theorem viable_gather {p p' : Parse (Option α)} {n n' : Nat} {gathered : List α}
    (waits : p.feed [] = .waits)
    (stop : ∀ v, follow v → p'.Yields v fun o t => o = none ∧ follow t)
    (round : ∀ t us, us.length < k → p.ResumesAt (t :: us) p' follow perRound)
    (room : k + 2 ≤ n') :
    Viable k (gather p n gathered) (gather p' n' gathered) [] follow fun _ => 0 := by
  have closes (m : Nat) (gathered : List α) : (gather p' (m + 1) gathered).Closes [] follow :=
    fun v leads => yields_gather_none (stop v leads)
  refine ⟨?_, ?_⟩
  · obtain ⟨m, rfl⟩ : ∃ m, n' = m + 1 := ⟨n' - 1, by omega⟩
    exact closes m gathered
  · intro ts short
    have enough : ts.length + 2 ≤ n' := by omega
    clear room
    induction n generalizing n' gathered ts with
    | zero =>
        obtain ⟨m, rfl⟩ : ∃ m, n' = m + 1 := ⟨n' - 1, by omega⟩
        exact resumesAt_refuse (closes m gathered)
    | succ n ih =>
        obtain ⟨m, rfl⟩ : ∃ m, n' = m + 2 := ⟨n' - 2, by omega⟩
        have first : p.ResumesAt ts p' (Leads [] follow) perRound := by
          cases ts with
          | nil =>
              have none : p'.Closes [] follow := fun v behind => (stop v behind).mono fun _ _ h => h.2
              exact resumesAt_nil waits none
          | cons t us => exact round t us short
        refine first.bind (fun _ _ => 0) ?_ ?_ fun _ _ => Nat.zero_le _
        · intro o
          cases o with
          | none => exact closes_done
          | some a => exact closes m (a :: gathered)
        · intro o us less
          cases o with
          | none => exact resumesAt_done rfl
          | some a =>
              have gained : us.length + 1 ≤ ts.length := less
              exact ih us (by omega) (by omega)

/-- Where a viable parse waits, fillers complete what it has. -/
theorem Viable.exists_of_waits (h : Viable k p p' zs follow gain) (waits : p.feed ts = .waits)
    (short : ts.length ≤ k) :
    ∃ ws, ∀ v, Leads ws follow v → p'.Yields (ts ++ₛ v) fun _ t => follow t := by
  have resumes := h.resumes ts short
  rwa [ResumesAt, waits] at resumes

end Rules

end Parse

end TagLang
