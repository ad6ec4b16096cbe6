import TagLang.Proofs.Expr.Orderly
import TagLang.Proofs.Parse.Viable
import TagLang.Proofs.Registry.Operators

/-!
# Beginnings of expressions

Every beginning of an expression that its parser waits behind can be completed: with a name
where an operand is missing, and with parentheses that close those that are open. What follows
an expression must not continue it.
-/

namespace TagLang

open Parse Filler

/-- What follows begins with a token of such a kind. -/
def Filler.Follows (ok : TokenKind → Prop) (follow : Stream' Token → Prop) : Prop :=
  ∀ v, follow v → ok v.head.kind

theorem Filler.follows_leads {ok : TokenKind → Prop} {z : Filler} {zs : List Filler}
    {follow : Stream' Token → Prop} (h : ok z.piece.kind) : Follows ok (Leads (z :: zs) follow) := by
  intro v leads
  rw [leads.1]
  exact h

/-- No operator continues an expression in front of such a token. -/
def TokenKind.Stops (kind : TokenKind) : Prop := Registry.standard.continuation? kind = none

instance (kind : TokenKind) : Decidable kind.Stops :=
  inferInstanceAs (Decidable (Registry.standard.continuation? kind = none))

/-- A sequence of elements ends here, with the word that ends a construct or with the source. -/
def Filler.Ends (v : Stream' Token) : Prop :=
  v.head.kind = .eof ∨ v.head.kind = .word .endWord ∧ v.head.text = "end"

/-- Beginnings of the elements and expressions of the first level are completed by the second
one, if they are shorter than the bound by as many tokens as its loops look further. -/
structure Level.Viable (bound : Nat) (l l' : Level) : Prop where
  element : ∀ k, k + 3 ≤ bound → ∀ follow, (∀ v, follow v → Ends v) →
    l.element.Viable k l'.element [.symbolTag, .name] follow fun _ => 1
  resumes : ∀ ts : List Token, ts.length + 2 ≤ bound → ∀ power follow,
    Follows TokenKind.Stops follow →
      (l.required power).ResumesAt ts (l'.required power) follow fun _ => 0
  name : 2 ≤ bound → ∀ power v, v.head.kind = .identifier → v.tail.head.kind.Stops →
    (l'.required power).Yields v fun _ t => t = v.tail

variable {α : Type} {below below' : Level} {bound n n' k : Nat} {follow : Stream' Token → Prop}
  {ts : List Token}

namespace Level

/-- A name is an expression. -/
theorem Viable.required (h : below.Viable bound below') (room : k + 2 ≤ bound)
    (stops : Follows TokenKind.Stops follow) (power : BindingPower) :
    (below.required power).Viable k (below'.required power) [.name] follow fun _ => 0 := by
  refine ⟨?_, fun ts short => h.resumes ts (by omega) power follow stops⟩
  intro v leads
  refine (h.name (by omega) power v leads.1 (stops _ leads.2.2)).mono ?_
  rintro e _ rfl
  exact leads.2.2

end Level

namespace Grammar

/-- In front of what follows, nothing is accepted. -/
theorem yields_accept_bind_other {β : Type} {kind : TokenKind} {f : Bool → Parse β}
    {post : β → Stream' Token → Prop} (other : Follows (· ≠ kind) follow) {v : Stream' Token}
    (behind : follow v) (h : (f false).Yields v post) : ((accept kind).bind f).Yields v post := by
  refine yields_bind.mpr (yields_accept.mpr ?_)
  rwa [if_neg (other v behind)]

theorem viable_items {item item' : Parse α} {zs : List Filler} {gain : α → Nat}
    (one : item.Viable k item' zs (Leads [.closeParen] follow) gain) (room : k + 2 ≤ n') :
    (items n item).Viable k (items n' item') [.closeParen] follow fun _ => 0 := by
  have noComma : Follows (· ≠ .mark .comma) (Leads [.closeParen] follow) :=
    follows_leads (by decide)
  have stop : ∀ v, Leads [.closeParen] follow v →
      (furtherItem item').Yields v fun o t => o = none ∧ Leads [.closeParen] follow t := by
    intro v leads
    exact yields_accept_bind_other noComma leads (yields_done.mpr ⟨rfl, leads⟩)
  have round : ∀ t us, us.length < k →
      (furtherItem item).ResumesAt (t :: us) (furtherItem item') (Leads [.closeParen] follow)
        perRound := by
    intro t us short
    refine resumesAt_accept_bind ?_ (resumesAt_done rfl) perRound_le_one
    exact (one.resumes us (Nat.le_of_lt short)).map fun _ => Nat.zero_le _
  have closing (all : List α) :
      Viable k ((expect (.mark .closeParen)).bind fun _ => done all)
        ((expect (.mark .closeParen)).bind fun _ => done all) [.closeParen] follow fun _ => 0 :=
    (viable_expect .closeParen rfl).map fun _ => Nat.zero_le _
  have loop (first : α) :
      (gather (furtherItem item) n [first]).Viable k (gather (furtherItem item') n' [first]) []
        (Leads [.closeParen] follow) fun _ => 0 :=
    viable_gather rfl stop round room
  have rest (first : α) := (loop first).bind closing
  apply viable_of_waits rfl
  · intro v leads
    have closed : v.head.kind = .mark .closeParen := leads.1
    refine yields_bind.mpr (yields_accept.mpr ?_)
    rw [if_pos closed]
    exact yields_done.mpr leads.2.2
  · intro t us short
    refine resumesAt_accept_bind (resumesAt_done rfl) ?_ fun _ => Nat.zero_le _
    refine (one.resumes (t :: us) short).bind (fun _ _ => 0) (fun first => (rest first).closes) ?_
      fun _ _ => Nat.zero_le _
    intro first vs less
    exact (rest first).resumes vs (by rw [List.length_cons] at less; omega)

theorem viable_arguments (h : below.Viable bound below') (room : k + 2 ≤ bound)
    (room' : k + 2 ≤ n') :
    (arguments n below).Viable k (arguments n' below') [.closeParen] follow fun _ => 0 :=
  viable_items (h.required room (follows_leads (by decide)) .loosest) room'

theorem resumesAt_begun (h : below.Viable bound below') (room : ts.length + 2 ≤ bound)
    (stops : Follows TokenKind.Stops follow) (rule : ExprStart) (t : Token) :
    (begun below rule t).ResumesAt ts (begun below' rule t) follow fun _ => 0 := by
  cases rule with
  | literal =>
      rw [begun, begun]
      split
      · exact resumesAt_done rfl
      · exact resumesAt_failAt
  | identifier => exact resumesAt_done rfl
  | group =>
      have stops : Follows TokenKind.Stops (Leads [.closeParen] follow) := follows_leads (by decide)
      refine ((h.required room stops .loosest).bind fun e => ?_).resumes ts (Nat.le_refl _)
      exact (viable_expect .closeParen rfl).map fun _ => Nat.zero_le _
  | unary => exact (h.resumes ts room .unary follow stops).map fun _ => Nat.le_refl _

theorem resumesAt_continued (h : below.Viable bound below') (room : ts.length + 2 ≤ bound)
    (room' : ts.length + 2 ≤ n') (stops : Follows TokenKind.Stops follow)
    (rule : ExprContinuation) (left : Expr) (t : Token) (power : BindingPower) :
    (continued n below rule left t power).ResumesAt ts (continued n' below' rule left t power)
      follow fun _ => 0 := by
  cases rule with
  | binary => exact (h.resumes ts room power follow stops).map fun _ => Nat.le_refl _
  | power => exact (h.resumes ts room .multiplicative follow stops).map fun _ => Nat.le_refl _
  | call =>
      refine ResumesAt.map ?_ fun _ => Nat.le_refl _
      exact (viable_arguments h room room').resumes ts (Nat.le_refl _)
  | member =>
      have name : (expect .identifier).Viable ts.length (expect .identifier) [.name] follow
        fun _ => 1 := viable_expect .name rfl
      exact (name.resumes ts (Nat.le_refl _)).map fun _ => Nat.zero_le _

/-- An expression ends in front of what does not continue it. -/
theorem closes_extended (stops : Follows TokenKind.Stops follow) (power : BindingPower) (k : Nat)
    (left : Expr) : (extended .standard n below power (k + 1) left).Closes [] follow := by
  intro v leads
  have none : Registry.standard.continuation? v.head.kind = none := stops v leads
  refine yields_bind.mpr (yields_look.mpr ?_)
  rw [none]
  exact yields_done.mpr leads

theorem resumesAt_extended (h : below.Viable bound below') (room : ts.length + 1 ≤ bound)
    (room' : ts.length + 1 ≤ n') (stops : Follows TokenKind.Stops follow) (power : BindingPower)
    {i i' : Nat} (enough : ts.length + 1 ≤ i') (left : Expr) :
    (extended .standard n below power i left).ResumesAt ts
      (extended .standard n' below' power i' left) follow fun _ => 0 := by
  induction i generalizing i' left ts with
  | zero =>
      obtain ⟨j, rfl⟩ : ∃ j, i' = j + 1 := ⟨i' - 1, by omega⟩
      exact resumesAt_refuse (closes_extended stops power j left)
  | succ i ih =>
      obtain ⟨j, rfl⟩ : ∃ j, i' = j + 1 := ⟨i' - 1, by omega⟩
      cases ts with
      | nil => exact resumesAt_nil rfl (closes_extended stops power j left)
      | cons t us =>
          rw [List.length_cons] at room room' enough
          refine resumesAt_look_bind ?_
          cases Registry.standard.continuation? t.kind with
          | none => exact resumesAt_done rfl
          | some found =>
              obtain ⟨tighter, rule⟩ := found
              show (if tighter ≤ power then _ else _ : Parse Expr).ResumesAt _
                (if tighter ≤ power then _ else _ : Parse Expr) _ _
              split
              · exact resumesAt_done rfl
              · refine resumesAt_next_bind ?_ fun _ => Nat.zero_le _
                have first : (continued n below rule left t tighter).ResumesAt us
                    (continued n' below' rule left t tighter) (Leads [] follow) fun _ => 0 :=
                  resumesAt_continued h (by omega) (by omega) stops rule left t tighter
                obtain ⟨m, rfl⟩ : ∃ m, j = m + 1 := ⟨j - 1, by omega⟩
                refine first.bind (fun _ _ => 0) (closes_extended stops power m) ?_
                  fun _ _ => Nat.zero_le _
                intro longer vs less
                exact ih (by omega) (by omega) (by omega) longer

/-- A name that nothing continues is a whole expression. -/
theorem yields_required_name {element : Parse Element} {v : Stream' Token} (room : 1 ≤ n)
    (power : BindingPower) (name : v.head.kind = .identifier) (stops : v.tail.head.kind.Stops) :
    (Level.required ⟨element, expr .standard n below⟩ power).Yields v fun _ t => t = v.tail := by
  obtain ⟨m, rfl⟩ : ∃ m, n = m + 1 := ⟨n - 1, by omega⟩
  rw [required_expr]
  refine yields_bind.mpr (yields_look.mpr (yields_bind.mpr (yields_next.mpr ?_)))
  have begins : Registry.standard.start? v.head.kind = some .identifier := by
    rw [name]
    decide
  have closes : (extended .standard (m + 1) below power (m + 1) (.identifier v.head)).Closes []
      fun t => t = v.tail := by
    apply closes_extended
    rintro t rfl
    exact stops
  rw [begins]
  exact closes v.tail rfl

theorem closes_required {element : Parse Element} (room : 1 ≤ n)
    (stops : Follows TokenKind.Stops follow) (power : BindingPower) :
    (Level.required ⟨element, expr .standard n below⟩ power).Closes [.name] follow := by
  intro v leads
  refine (yields_required_name room power leads.1 (stops _ leads.2.2)).mono ?_
  rintro e _ rfl
  exact leads.2.2

theorem resumesAt_required {element element' : Parse Element} (h : below.Viable bound below')
    (room : ts.length + 1 ≤ bound) (room' : ts.length + 1 ≤ n')
    (stops : Follows TokenKind.Stops follow) (power : BindingPower) :
    (Level.required ⟨element, expr .standard n below⟩ power).ResumesAt ts
      (Level.required ⟨element', expr .standard n' below'⟩ power) follow fun _ => 0 := by
  cases ts with
  | nil => exact resumesAt_nil rfl (closes_required room' stops power)
  | cons t us =>
      rw [List.length_cons] at room room'
      rw [required_expr, required_expr]
      refine resumesAt_look_bind (resumesAt_next_bind ?_ fun _ => Nat.zero_le _)
      cases Registry.standard.start? t.kind with
      | none => exact resumesAt_failAt
      | some rule =>
          have first : (begun below rule t).ResumesAt us (begun below' rule t) (Leads [] follow)
              fun _ => 0 := resumesAt_begun h (by omega) stops rule t
          obtain ⟨m, rfl⟩ : ∃ m, n' = m + 1 := ⟨n' - 1, by omega⟩
          refine first.bind (fun _ _ => 0) (closes_extended stops power m) ?_
            fun _ _ => Nat.zero_le _
          intro left vs less
          exact resumesAt_extended h (by omega) (by omega) stops power (by omega) left

end Grammar

end TagLang
