import TagLang.Proofs.Element.Viable

/-!
# Beginnings of units

Every beginning of a unit that its parser waits behind can be completed so that the source
ends there: with the uses and the element that it has, or with a symbol where it has none.
-/

namespace TagLang

open Parse Filler

/-- The source ends here, and only its end is given from here on. -/
def Filler.AtEnd (v : Stream' Token) : Prop := ∃ e : Token, e.kind = .eof ∧ v = Stream'.const e

theorem Filler.ends_atEnd : ∀ v, AtEnd v → Ends v := by
  rintro _ ⟨e, eof, rfl⟩
  exact .inl eof

variable {n n' k : Nat} {follow : Stream' Token → Prop}

namespace Grammar

/-- What stands behind the path of a use. -/
def renamed (tag : Token) (name : Path) : Parse (Option Use) := do
  if ← accept (.word .asWord) then return some ⟨tag, name, some (← expect .identifier)⟩
  else return some ⟨tag, name, none⟩

theorem viable_renamed (tag : Token) (name : Path) (other : Follows (· ≠ .word .asWord) follow) :
    (renamed tag name).Viable k (renamed tag name) [] follow fun _ => 0 := by
  apply viable_of_waits rfl
  · intro v behind
    exact yields_accept_bind_other other behind (yields_done.mpr behind)
  · intro t us short
    refine resumesAt_accept_bind ?_ (resumesAt_done rfl) fun _ => Nat.zero_le _
    exact ((viable_expect .name rfl).resumes us (Nat.le_refl _)).map fun _ => Nat.zero_le _

/-- No use goes on or begins with what follows. -/
theorem viable_uses (room : k + 2 ≤ n')
    (other : Follows (fun kind => kind ≠ .word .useWord ∧ kind ≠ .word .asWord ∧ kind ≠ .mark .dot)
      follow) : (uses n).Viable k (uses n') [] follow fun _ => 0 := by
  have stop : ∀ v, follow v → (use n').Yields v fun o t => o = none ∧ follow t := by
    intro v behind
    have noUse : (v.head.kind == .word .useWord) = false := by simp [(other v behind).1]
    show (look.bind fun t => if t.kind == .word .useWord then _ else _ :
      Parse (Option Use)).Yields v _
    refine yields_bind.mpr (yields_look.mpr ?_)
    rw [noUse]
    exact yields_done.mpr ⟨rfl, behind⟩
  refine viable_gather rfl stop ?_ room
  intro t us short
  refine resumesAt_look_bind ?_
  show (if t.kind == .word .useWord then _ else _ : Parse (Option Use)).ResumesAt _
    (if t.kind == .word .useWord then _ else _ : Parse (Option Use)) _ _
  split
  · refine resumesAt_next_bind ?_ perRound_le_one
    have noDot : Follows (· ≠ .mark .dot) follow := fun v behind => (other v behind).2.2
    have noAs : Follows (· ≠ .word .asWord) follow := fun v behind => (other v behind).2.1
    have behindTag := (viable_path (n := n) room noDot).before fun name => viable_renamed t name noAs
    exact behindTag.resumes us (Nat.le_of_lt short)
  · exact resumesAt_done rfl

theorem viable_end {α : Type} (g : Token → α) :
    ((expect .eof).bind fun t => done (g t)).Viable k ((expect .eof).bind fun t => done (g t)) []
      AtEnd fun _ => 0 := by
  apply viable_of_waits rfl
  · rintro _ ⟨e, eof, rfl⟩
    refine yields_bind.mpr (yields_expect eof (yields_done.mpr ⟨e, eof, ?_⟩))
    exact Stream'.tail_const e
  · intro t us _
    show ((look.bind _).bind _).ResumesAt _ ((look.bind _).bind _) _ _
    rw [bind_assoc]
    apply resumesAt_look_bind
    split
    · exact ⟨rfl, Nat.le_succ _⟩
    · exact resumesAt_failAt

theorem viable_compilationUnit (room : k + 3 ≤ n') :
    (compilationUnit .standard n).Viable k (compilationUnit .standard n') [.symbolTag, .name] AtEnd
      fun _ => 0 := by
  refine (viable_uses (by omega) (follows_leads (by decide))).bind fun uses => ?_
  refine ((viable_level n n').element k room AtEnd ends_atEnd).before fun element => ?_
  exact viable_end fun e => (⟨uses, [element], e⟩ : CompilationUnit)

theorem viable_scriptUnit (room : k + 3 ≤ n') :
    (scriptUnit .standard n).Viable k (scriptUnit .standard n') [] AtEnd fun _ => 0 := by
  have stop : ∀ v, AtEnd v →
      (furtherTopLevel (level .standard n')).Yields v fun o t => o = none ∧ AtEnd t := by
    rintro _ ⟨e, eof, rfl⟩
    have isEof : ((Stream'.const e).head.kind == .eof) = true := by
      show (e.kind == .eof) = true
      simp [eof]
    show (look.bind fun t => if t.kind == .eof then _ else _ : Parse (Option Element)).Yields _ _
    refine yields_bind.mpr (yields_look.mpr ?_)
    rw [isEof]
    exact yields_done.mpr ⟨rfl, e, eof, rfl⟩
  have round : ∀ t us, us.length < k → (furtherTopLevel (level .standard n)).ResumesAt (t :: us)
      (furtherTopLevel (level .standard n')) AtEnd perRound := by
    intro t us short
    apply resumesAt_look_bind
    show (if t.kind == .eof then _ else _ : Parse (Option Element)).ResumesAt _
      (if t.kind == .eof then _ else _ : Parse (Option Element)) _ _
    split
    · exact resumesAt_done rfl
    · have one := (viable_level n n').element k room AtEnd ends_atEnd
      exact (one.resumes (t :: us) short).map fun _ => Nat.le_refl 1
  refine (viable_uses (by omega) ?_).before fun uses => ?_
  · rintro _ ⟨e, eof, rfl⟩
    simp [eof]
  · refine (viable_gather rfl stop round (by omega)).before fun elements => ?_
    exact viable_end fun e => (⟨uses, elements, e⟩ : CompilationUnit)

end Grammar

end TagLang
