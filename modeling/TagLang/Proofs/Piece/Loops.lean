import TagLang.Grammar.Expression
import TagLang.Proofs.Erased
import TagLang.Proofs.Parse.Contract
import TagLang.Proofs.Piece.Layout

/-!
# Parses of shown pieces

A parse takes the pieces that are shown at a spot if it comes to a value there and leaves
what is behind them (`Takes`). Parses in a row take pieces in a row, and a loop that reads
one item a round takes as many items as are shown, if every round does so and the round
behind the last one finds nothing more. What has to come behind an item for its round to end
there is the parameter `ok` of a loop: the beginning of an item is such a place, and so is
the end of the loop.
-/

namespace TagLang

open Parse Piece

theorem List.map_eq_map_of_forall₂ {α β γ : Type} {f : α → γ} {g : β → γ} {xs : List α}
    {ys : List β} (h : List.Forall₂ (fun x y => f x = g y) xs ys) : xs.map f = ys.map g := by
  rw [← List.forall₂_eq_eq_eq, List.forall₂_map_left_iff, List.forall₂_map_right_iff]
  exact h

/-- A token in the place of one of the same kind and text is the same without positions. -/
theorem Piece.Shown.erase_head {t : Token} {a : Spot} (shown : (held t).Shown a) :
    a.tokens.head.erase = t.erase :=
  Token.erase_eq_iff.mpr ⟨shown.kind, shown.text⟩

namespace Parse

variable {α β : Type} {p : Parse α} {f : α → Parse β} {g : α → β} {a : Spot} {ps qs : List Piece}
  {post : α → Prop} {post' : β → Prop}

/-- The parse comes to a value behind the pieces, and the postcondition holds of it. -/
def Takes (p : Parse α) (a : Spot) (ps : List Piece) (post : α → Prop) : Prop :=
  p.Yields a.tokens fun x t => post x ∧ t = (a.after ps).tokens

theorem Takes.mono {post' : α → Prop} (h : p.Takes a ps post) (imp : ∀ x, post x → post' x) :
    p.Takes a ps post' :=
  Yields.mono h fun x _ ht => ht.imp_left (imp x)

theorem Takes.yields {post' : α → Stream' Token → Prop} (h : p.Takes a ps post)
    (imp : ∀ x, post x → post' x (a.after ps).tokens) : p.Yields a.tokens post' := by
  refine Yields.mono h ?_
  rintro x _ ⟨hx, rfl⟩
  exact imp x hx

theorem takes_done {x : α} (h : post x) : (done x).Takes a [] post :=
  yields_done.mpr ⟨h, rfl⟩

/-- Two parses in a row take the pieces of both. -/
theorem Takes.bind (h : p.Takes a ps post)
    (next : ∀ x, post x → (f x).Takes (a.after ps) qs post') :
    (p.bind f).Takes a (ps ++ qs) post' := by
  rw [Takes, Spot.after_append]
  exact yields_bind.mpr (h.yields next)

/-- What a parse comes to may be put to use. -/
theorem Takes.map (h : p.Takes a ps post) (imp : ∀ x, post x → post' (g x)) :
    (p.bind fun x => done (g x)).Takes a ps post' :=
  yields_bind.mpr (h.yields fun x hx => yields_done.mpr ⟨imp x hx, rfl⟩)

theorem takes_next {q : Piece} {post : Token → Prop} (h : post a.tokens.head) :
    next.Takes a [q] post :=
  yields_next.mpr ⟨h, rfl⟩

theorem takes_expect {kind : TokenKind} {q : Piece} (shown : q.Shown a) (same : q.kind = kind) :
    (expect kind).Takes a [q] fun t => t.kind = q.kind ∧ t.text = q.text :=
  yields_expect (shown.kind.trans same) ⟨⟨shown.kind, shown.text⟩, rfl⟩

theorem takes_expectText {kind : TokenKind} {text : String} {q : Piece} (shown : q.Shown a)
    (sameKind : q.kind = kind) (sameText : q.text = text) :
    (expectText kind text).Takes a [q] fun t => t.kind = q.kind ∧ t.text = q.text :=
  yields_expectText (shown.kind.trans sameKind) (shown.text.trans sameText)
    ⟨⟨shown.kind, shown.text⟩, rfl⟩

theorem takes_look_bind {f : Token → Parse β} (h : (f a.tokens.head).Takes a ps post') :
    (look.bind f).Takes a ps post' :=
  yields_bind.mpr (yields_look.mpr h)

theorem takes_lookSecond_bind {f : Token → Parse β} (h : (f a.tokens.tail.head).Takes a ps post') :
    (lookSecond.bind f).Takes a ps post' :=
  yields_bind.mpr (yields_lookSecond.mpr h)

/-- A token that is looked for and comes next is taken. -/
theorem takes_accept_bind {kind : TokenKind} {f : Bool → Parse β} {q : Piece}
    (here : a.tokens.head.kind = kind) (h : (f true).Takes (a.past q) ps post') :
    ((accept kind).bind f).Takes a (q :: ps) post' := by
  refine yields_bind.mpr (yields_accept.mpr ?_)
  rw [if_pos here]
  exact h

theorem takes_accept_bind_of_ne {kind : TokenKind} {f : Bool → Parse β}
    (other : a.tokens.head.kind ≠ kind) (h : (f false).Takes a ps post') :
    ((accept kind).bind f).Takes a ps post' := by
  refine yields_bind.mpr (yields_accept.mpr ?_)
  rw [if_neg other]
  exact h

end Parse

variable {α β : Type} {p : Parse (Option α)} {item : Parse α} {shape : β → List Piece}
  {same : α → β → Prop}

/-- A loop takes the items that are shown, and puts them behind those already gathered. -/
theorem takes_gather_behind (ok : Spot → Prop) {bs : List β} {gathered : List α} {n : Nat}
    {a : Spot}
    (step : ∀ b ∈ bs, ∀ a, Shows (shape b) a → ok (a.after (shape b)) →
      p.Takes a (shape b) fun o => ∃ x, o = some x ∧ same x b)
    (begins : ∀ b ∈ bs, ∀ a, Shows (shape b) a → ok a)
    (last : ok (a.after (bs.flatMap shape)))
    (stop : p.Takes (a.after (bs.flatMap shape)) [] fun o => o = none)
    (room : bs.length < n) (shown : Shows (bs.flatMap shape) a) :
    (gather p n gathered).Takes a (bs.flatMap shape) fun xs =>
      ∃ ys, xs = gathered.reverse ++ ys ∧ List.Forall₂ same ys bs := by
  induction bs generalizing gathered n a with
  | nil =>
      obtain ⟨n, rfl⟩ : ∃ k, n = k + 1 := ⟨n - 1, by simp at room; omega⟩
      refine yields_gather_none (Yields.mono stop ?_)
      rintro o t ⟨rfl, rfl⟩
      exact ⟨rfl, ⟨[], by simp, .nil⟩, rfl⟩
  | cons b bs ih =>
      obtain ⟨n, rfl⟩ : ∃ k, n = k + 1 := ⟨n - 1, by simp at room; omega⟩
      rw [List.flatMap_cons, shows_append] at shown
      rw [List.flatMap_cons, Spot.after_append] at last stop
      rw [List.flatMap_cons, Takes, Spot.after_append]
      have behind : ok (a.after (shape b)) := by
        cases bs with
        | nil => exact last
        | cons c bs =>
            rw [List.flatMap_cons, shows_append] at shown
            exact begins c (by simp) _ shown.2.1
      refine yields_gather_some (Yields.mono (step b (by simp) a shown.1 behind) ?_)
      rintro o t ⟨⟨x, rfl, hx⟩, rfl⟩
      refine ⟨x, rfl, ?_⟩
      have others := @ih (x :: gathered) n (a.after (shape b))
        (fun c hc => step c (List.mem_cons_of_mem _ hc))
        (fun c hc => begins c (List.mem_cons_of_mem _ hc)) last stop
        (by simpa using room) shown.2
      refine Yields.mono others ?_
      rintro xs t ⟨⟨ys, rfl, hys⟩, rfl⟩
      exact ⟨⟨x :: ys, by simp, .cons hx hys⟩, rfl⟩

theorem takes_gather (ok : Spot → Prop) {bs : List β} {n : Nat} {a : Spot}
    (step : ∀ b ∈ bs, ∀ a, Shows (shape b) a → ok (a.after (shape b)) →
      p.Takes a (shape b) fun o => ∃ x, o = some x ∧ same x b)
    (begins : ∀ b ∈ bs, ∀ a, Shows (shape b) a → ok a)
    (last : ok (a.after (bs.flatMap shape)))
    (stop : p.Takes (a.after (bs.flatMap shape)) [] fun o => o = none)
    (room : bs.length < n) (shown : Shows (bs.flatMap shape) a) :
    (gather p n []).Takes a (bs.flatMap shape) fun xs => List.Forall₂ same xs bs := by
  refine (takes_gather_behind ok step begins last stop room shown).mono ?_
  rintro xs ⟨ys, rfl, same⟩
  exact same

/-- Items that are shown with commas between them are yielded through the closing
parenthesis. -/
theorem takes_items {bs : List β} {n : Nat} {a : Spot}
    (step : ∀ b ∈ bs, ∀ a, Shows (shape b) a →
      (a.after (shape b)).tokens.head.kind ∈ [.mark .comma, .mark .closeParen] →
      item.Takes a (shape b) fun x => same x b)
    (begins : ∀ b ∈ bs, ∀ a, Shows (shape b) a → a.tokens.head.kind ≠ .mark .closeParen)
    (room : bs.length ≤ n)
    (shown : Shows (separated (bs.map shape) ++ [.mark .closeParen]) a) :
    (Grammar.items n item).Takes a (separated (bs.map shape) ++ [.mark .closeParen])
      fun xs => List.Forall₂ same xs bs := by
  cases bs with
  | nil => exact takes_accept_bind shown.1.kind (takes_done .nil)
  | cons b bs =>
      have further_eq : further (bs.map shape) = bs.flatMap fun b => mark .comma :: shape b := by
        rw [further, List.flatMap_map]
      rw [List.map_cons, separated, further_eq, List.append_assoc] at shown ⊢
      rw [shows_append, shows_append] at shown
      obtain ⟨first, others, closing, -⟩ := shown
      have closed : ((a.after (shape b)).after
          (bs.flatMap fun b => mark .comma :: shape b)).tokens.head.kind = .mark .closeParen :=
        closing.kind
      have ends : (a.after (shape b)).tokens.head.kind ∈
          [TokenKind.mark .comma, .mark .closeParen] := by
        cases bs with
        | nil => exact List.mem_cons_of_mem _ (List.mem_singleton.mpr closed)
        | cons c bs => exact List.mem_cons.mpr (.inl others.1.kind)
      have loop {x : α} := @takes_gather_behind _ _ (Grammar.furtherItem item)
        (fun b => mark .comma :: shape b) same
        (fun s => s.tokens.head.kind ∈ [TokenKind.mark .comma, .mark .closeParen])
        bs [x] n (a.after (shape b)) ?_ ?_ ?_ ?_ room others
      · refine takes_accept_bind_of_ne (begins b (by simp) a first) ?_
        refine (step b (by simp) a first ends).bind fun x hx => loop.bind ?_
        rintro _ ⟨ys, rfl, hys⟩
        exact (takes_expect closing rfl).map fun _ _ => .cons hx hys
      · intro c hc s shown behind
        refine takes_accept_bind shown.1.kind ?_
        exact (step c (List.mem_cons_of_mem _ hc) _ shown.2 behind).map fun y hy => ⟨y, rfl, hy⟩
      · intro c hc s shown
        exact List.mem_cons.mpr (.inl shown.1.kind)
      · exact List.mem_cons_of_mem _ (List.mem_singleton.mpr closed)
      · have other : ((a.after (shape b)).after
            (bs.flatMap fun b => mark .comma :: shape b)).tokens.head.kind ≠ .mark .comma := by
          rw [closed]
          decide
        exact takes_accept_bind_of_ne other (takes_done rfl)

end TagLang
