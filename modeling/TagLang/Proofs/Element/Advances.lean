import TagLang.Proofs.Element.Orderly
import TagLang.Proofs.Expr.Advances

/-!
# Elements advance

An element takes its tag, and every round of the loops inside an element takes a token: an
annotation, the mark or the tag in front of it, or what a nested element takes.
-/

namespace TagLang

open Parse

variable {r : Registry} {below : Level} {n : Nat}

namespace Grammar

theorem moves_leadingOne : leadingOne.Moves fun o => o.isSome = true := by
  refine moves_bind fun t => ?_
  split
  · exact moves_next.bind
  · exact moves_done nofun

/-- Each annotation in front of a tag is a token. -/
theorem advances_leadingOne : leadingOne.Advances fun o => o.isSome = true :=
  moves_leadingOne.advances_standard fun _ => orderly_leadingOne

theorem moves_trailingOne : trailingOne.Moves fun o => o.isSome = true := by
  refine moves_bind fun colon => ?_
  cases colon with
  | true =>
    refine moves_bind fun t => ?_
    split
    · exact moves_next.bind
    · exact moves_failAt
  | false => exact moves_done nofun

/-- Each annotation behind a head is a token, with a colon in front of it. -/
theorem advances_trailingOne : trailingOne.Advances fun o => o.isSome = true :=
  moves_trailingOne.advances_standard fun _ => orderly_trailingOne

theorem moves_furtherEntry : furtherEntry.Moves fun o => o.isSome = true := by
  refine moves_bind fun dot => ?_
  cases dot with
  | true => exact moves_expect.bind
  | false => exact moves_done nofun

/-- Each further entry of a path is a token, with a dot in front of it. -/
theorem advances_furtherEntry : furtherEntry.Advances fun o => o.isSome = true :=
  moves_furtherEntry.advances_standard fun _ => orderly_furtherEntry

theorem moves_path : (path n).Moves fun _ => True := moves_expect.bind

theorem moves_parameter : (parameter n).Moves fun _ => True := moves_path.bind

theorem moves_furtherElement (h : below.Advancing) :
    (furtherElement r below).Moves fun o => o.isSome = true := by
  refine moves_bind fun ends => ?_
  split
  · exact moves_done nofun
  · exact h.element.bind

/-- Each element of a sequence takes a token. -/
theorem advances_furtherElement (h : below.Advancing) :
    (furtherElement .standard below).Advances fun o => o.isSome = true :=
  (moves_furtherElement h).advances_standard fun _ => orderly_furtherElement h.orderly

theorem moves_guarded (h : below.Advancing) (tag : Token) :
    (guarded r n below tag).Moves fun _ => True :=
  h.expression.bind

/-- A round of the branches after the first one: one more branch, or else the body for the
case that no guard holds, if it is there. -/
def branchRound {κ : Type} (r : Registry κ) (n : Nat) (below : Level) (gathered : List Guarded) :
    Parse (List Guarded ⊕ List Guarded × Option (List Element)) := do
  match ← acceptTag "else" with
  | none => return .inr (gathered.reverse, none)
  | some _ =>
    match ← acceptTag "if" with
    | some tag => return .inl ((← guarded r n below tag) :: gathered)
    | none => return .inr (gathered.reverse, some (← elements r n below))

theorem otherBranches_eq_loop {κ : Type} (r : Registry κ) (n : Nat) (below : Level) (k : Nat)
    (gathered : List Guarded) :
    otherBranches r n below k gathered = loop (branchRound r n below) k gathered := by
  induction k generalizing gathered with
  | zero => rfl
  | succ k ih =>
    show (acceptTag "else").bind _ = ((acceptTag "else").bind _).bind _
    rw [bind_assoc]
    refine congrArg (acceptTag "else").bind (funext fun found => ?_)
    cases found with
    | none => rfl
    | some tag =>
      show (acceptTag "if").bind _ = ((acceptTag "if").bind _).bind _
      rw [bind_assoc]
      refine congrArg (acceptTag "if").bind (funext fun further => ?_)
      cases further with
      | none =>
        show (elements r n below).bind _ = ((elements r n below).bind _).bind _
        rw [bind_assoc]
        rfl
      | some tag =>
        show (guarded r n below tag).bind _ = ((guarded r n below tag).bind _).bind _
        rw [bind_assoc]
        exact congrArg _ (funext fun branch => ih (branch :: gathered))

theorem moves_branchRound (h : below.Advancing) (gathered : List Guarded) :
    (branchRound r n below gathered).Moves fun o => o.isLeft = true := by
  refine moves_bind fun found => ?_
  cases found with
  | none => exact moves_done nofun
  | some _ =>
    refine moves_bind fun further => ?_
    cases further with
    | none => exact moves_bind fun body => moves_done nofun
    | some tag => exact (moves_guarded h tag).bind

theorem orderly_branchRound (h : below.Orderly r) (gathered : List Guarded) (s : Stream' Token) :
    (branchRound r n below gathered).Orderly r s := by
  refine (orderly_acceptTag "else").bind fun found t => ?_
  cases found with
  | none => exact orderly_done
  | some _ =>
    refine (orderly_acceptTag "if").bind fun further u => ?_
    cases further with
    | none => exact (orderly_elements h).map
    | some tag => exact (orderly_guarded h tag).map

/-- Each further branch takes two tags and a guard. -/
theorem advances_branchRound (h : below.Advancing) (gathered : List Guarded) :
    (branchRound .standard n below gathered).Advances fun o => o.isLeft = true :=
  (moves_branchRound h gathered).advances_standard (orderly_branchRound h.orderly gathered)

theorem moves_selectionCase (h : below.Advancing) :
    (selectionCase r n below).Moves fun o => o.isSome = true := by
  refine moves_bind fun found => ?_
  cases found with
  | none => exact moves_done nofun
  | some tag => exact (moves_guarded h tag).bind

/-- Each case of a selection takes a tag and a guard. -/
theorem advances_selectionCase (h : below.Advancing) :
    (selectionCase .standard n below).Advances fun o => o.isSome = true :=
  (moves_selectionCase h).advances_standard fun _ => orderly_selectionCase h.orderly

theorem moves_detection : (detection r n below).Moves fun o => o.isSome = true := by
  refine moves_bind fun found => ?_
  cases found with
  | none => exact moves_done nofun
  | some tag => exact moves_path.bind

/-- Each detection of a check takes a tag and a name. -/
theorem advances_detection (h : below.Advancing) :
    (detection .standard n below).Advances fun o => o.isSome = true :=
  moves_detection.advances_standard fun _ => orderly_detection h.orderly

/-- The tag of an element is taken, however its sort is handled. -/
theorem moves_elementBy {κ : Type} (handle : Handler κ) (r : Registry κ) (n : Nat) :
    (elementBy handle r n).Moves fun _ => True := by
  refine moves_bind fun before => moves_bind fun t => ?_
  split
  · exact moves_failAt
  · split
    · refine moves_bind fun found => ?_
      cases found with
      | none =>
        dsimp only
        split <;> exact moves_failAt
      | some c => exact moves_next.bind
    · exact moves_failAt

end Grammar

end TagLang
