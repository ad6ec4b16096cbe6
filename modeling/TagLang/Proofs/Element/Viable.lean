import TagLang.Grammar.Unit
import TagLang.Proofs.Expr.Viable
import TagLang.Proofs.Registry.Constructs

/-!
# Beginnings of elements

Every beginning of an element that its parser waits behind can be completed: with the names
and marks that its construct asks for, and with the words that end the constructs that are
open. A construct of two words that only has its tag is completed with a second word first.
-/

namespace TagLang

open Parse Filler

variable {α β : Type} {below below' : Level} {bound n n' k : Nat} {follow : Stream' Token → Prop}
  {ts us : List Token} {t : Token} {zs : List Filler}

namespace Filler

theorem follows_ends {ok : TokenKind → Prop} (ends : ∀ v, follow v → Ends v) (eof : ok .eof)
    (word : ok (.word .endWord)) : Follows ok follow := by
  intro v behind
  rcases ends v behind with kind | ⟨kind, -⟩
  · rwa [kind]
  · rwa [kind]

/-- Nothing is annotated where a sequence of elements ends. -/
theorem Ends.not_annotated {v : Stream' Token} (h : Ends v) :
    (v.head.kind.annotates || Registry.standard.isConstructTag v.head) = false := by
  rcases h with kind | ⟨kind, text⟩
  · simp [kind, Registry.isConstructTag, Registry.dispatches, TokenKind.annotates,
      TokenKind.isKeyword]
  · have none : (Registry.standard.candidates "end").isEmpty = true := by decide +kernel
    have tagName : v.head.tagName = "end" := by
      rw [Token.tagName, text]
      rfl
    simp [kind, Registry.isConstructTag, tagName, none, TokenKind.annotates]

theorem ends_leads : ∀ v, Leads (.endWord :: zs) follow v → Ends v :=
  fun _ leads => .inr ⟨leads.1, leads.2.1⟩

end Filler

/-- What completes an element whose tag is there: the names and marks that its sort asks for,
and the word that ends it. -/
def ElementKind.completion : ElementKind → List Filler
  | .scope _ | .branch | .exemption | .selection | .loop _ => [.name, .endWord]
  | .callable _ => [.name, .openParen, .closeParen, .endWord]
  | .binding _ | .symbol | .assertion | .raising => [.name]
  | .check => [.endWord]
  | .invocation => [.name, .openParen, .closeParen]
  | .result => []
  | .traversal => [.name, .inWord, .name, .endWord]
  | .assignment => [.name, .equals, .name]

/-- Every second word of a construct can be filled in. -/
theorem Filler.exists_second {word second : String} {c : Construct}
    (h : c ∈ Registry.standard.candidates word) (hs : c.second = some second) :
    ∃ z : Filler, z.piece.kind = .identifier ∧ z.piece.text = second := by
  have words := Registry.second_mem_of_mem_candidates h hs
  simp only [List.mem_cons, List.not_mem_nil, or_false] at words
  rcases words with rfl | rfl | rfl | rfl
  · exact ⟨.typeWord, rfl, rfl⟩
  · exact ⟨.forWord, rfl, rfl⟩
  · exact ⟨.untilWord, rfl, rfl⟩
  · exact ⟨.whileWord, rfl, rfl⟩

/-- Where the tag alone does not tell the construct, some second word does. -/
theorem Registry.exists_of_several {word : String}
    (h : ¬ (standard.candidates word).all (fun c => c.second.isNone) = true) :
    ∃ (c : Construct) (z : Filler), z.piece.kind = .identifier ∧ c.second = some z.piece.text ∧
      (standard.candidates word).find? (fun d => d.second == some z.piece.text) = some c := by
  obtain ⟨c, candidate, -⟩ : ∃ c ∈ standard.candidates word, c.second ≠ none := by
    simpa using h
  have told := find?_candidates candidate
  rw [if_neg h] at told
  obtain ⟨word, second⟩ := Option.isSome_iff_exists.mp told.1
  obtain ⟨z, kind, text⟩ := Filler.exists_second candidate second
  refine ⟨c, z, kind, by rw [second, text], ?_⟩
  rw [text, ← second]
  exact told.2

namespace Grammar

/-- What annotates, behind a colon. -/
def annotating : Parse (Option Annotation) := do
  let t ← look
  if t.kind.annotates then return some (.ofToken (← next))
  else failAt t (.annotationMissing t.kind t.text)

/-- Behind a colon, a name annotates. -/
theorem viable_annotating : annotating.Viable k annotating [.name] follow fun _ => 0 := by
  apply viable_of_waits rfl
  · intro v leads
    have name : v.head.kind = .identifier := leads.1
    refine yields_bind.mpr (yields_look.mpr ?_)
    rw [name]
    exact yields_bind.mpr (yields_next.mpr (yields_done.mpr leads.2.2))
  · intro t us _
    refine resumesAt_look_bind ?_
    split
    · exact ⟨rfl, Nat.le_succ _⟩
    · exact resumesAt_failAt

section Heads

variable (room : k + 2 ≤ n')

include room

theorem viable_leading (other : Follows (·.annotates = false) follow) :
    (leading n).Viable k (leading n') [] follow fun _ => 0 := by
  have stop : ∀ v, follow v → leadingOne.Yields v fun o t => o = none ∧ follow t := by
    intro v behind
    refine yields_bind.mpr (yields_look.mpr ?_)
    rw [other v behind]
    exact yields_done.mpr ⟨rfl, behind⟩
  refine viable_gather rfl stop ?_ room
  intro t us _
  refine resumesAt_look_bind ?_
  show (if t.kind.annotates then _ else _ : Parse (Option Annotation)).ResumesAt _
    (if t.kind.annotates then _ else _ : Parse (Option Annotation)) _ _
  split
  · exact ⟨rfl, Nat.le_refl _⟩
  · exact resumesAt_done rfl

theorem viable_trailing (other : Follows (· ≠ .mark .colon) follow) :
    (trailing n).Viable k (trailing n') [] follow fun _ => 0 := by
  have stop : ∀ v, follow v → trailingOne.Yields v fun o t => o = none ∧ follow t := by
    intro v behind
    exact yields_accept_bind_other other behind (yields_done.mpr ⟨rfl, behind⟩)
  refine viable_gather rfl stop ?_ room
  intro t us _
  refine resumesAt_accept_bind ?_ (resumesAt_done rfl) perRound_le_one
  exact viable_annotating.resumes us (Nat.le_refl _)

theorem viable_path (other : Follows (· ≠ .mark .dot) follow) :
    (path n).Viable k (path n') [.name] follow fun _ => 0 := by
  have stop : ∀ v, follow v → furtherEntry.Yields v fun o t => o = none ∧ follow t := by
    intro v behind
    exact yields_accept_bind_other other behind (yields_done.mpr ⟨rfl, behind⟩)
  have round : ∀ t us, us.length < k →
      furtherEntry.ResumesAt (t :: us) furtherEntry follow perRound := by
    intro t us _
    refine resumesAt_accept_bind ?_ (resumesAt_done rfl) perRound_le_one
    exact ((viable_expect .name rfl).resumes us (Nat.le_refl _)).map fun _ => Nat.zero_le _
  refine (viable_expect .name rfl).bind fun first => ?_
  exact (viable_gather rfl stop round room).map fun _ => Nat.zero_le _

theorem viable_parameters :
    (parameters n).Viable k (parameters n') [.openParen, .closeParen] follow fun _ => 0 := by
  have one : (parameter n).Viable k (parameter n') [.name] (Leads [.closeParen] follow)
      fun _ => 0 := by
    refine (viable_path room (follows_leads (by decide))).before fun name => ?_
    exact (viable_trailing room (follows_leads (by decide))).map fun _ => Nat.zero_le _
  exact (viable_expect .openParen rfl).bind fun _ => viable_items one room

end Heads

/-- What follows is no tag, so none is accepted. -/
theorem yields_acceptTag_bind_other {tag : String} {f : Option Token → Parse β}
    {post : β → Stream' Token → Prop} (other : Follows (· ≠ .tag) follow) {v : Stream' Token}
    (behind : follow v) (h : (f none).Yields v post) : ((acceptTag tag).bind f).Yields v post := by
  have isNot : (v.head.kind == .tag && v.head.tagName == tag) = false := by simp [other v behind]
  show ((look.bind fun u => if u.kind == .tag && u.tagName == tag then _ else _ :
    Parse (Option Token)).bind f).Yields v post
  refine yields_bind.mpr (yields_bind.mpr (yields_look.mpr ?_))
  rw [isNot]
  exact yields_done.mpr h

/-- What is done where a tag is looked for: behind it, or in front of another token. -/
theorem resumesAt_acceptTag_bind {tag : String} {f f' : Option Token → Parse β} {gain : β → Nat}
    (yes : (f (some t)).ResumesAt us (f' (some t)) follow fun _ => 0)
    (no : (f none).ResumesAt (t :: us) (f' none) follow gain) (le : ∀ b, gain b ≤ 1) :
    ((acceptTag tag).bind f).ResumesAt (t :: us) ((acceptTag tag).bind f') follow gain := by
  show (look.bind fun u => (if u.kind == .tag && u.tagName == tag then
      next.bind fun v => done (some v) else done none : Parse (Option Token)).bind f).ResumesAt _
    (look.bind fun u => (if u.kind == .tag && u.tagName == tag then
      next.bind fun v => done (some v) else done none : Parse (Option Token)).bind f') _ _
  refine resumesAt_look_bind ?_
  split
  · exact resumesAt_next_bind yes le
  · exact no

/-- What is done with the decision that nothing is annotated, or that it is. It waits behind a
name on a later line, and nothing is annotated if the sequence of elements ends there. -/
theorem resumesAt_annotatedElementNext_bind {tag : Token} {f f' : Bool → Parse β} {gain : β → Nat}
    (ends : ∀ v, follow v → Ends v) (either : ∀ b, (f b).ResumesAt (t :: us) (f' b) follow gain)
    (alone : t.kind = .identifier → ∀ v, follow v →
      (f' false).Yields ([t] ++ₛ v) fun _ w => follow w) :
    ((annotatedElementNext .standard tag).bind f).ResumesAt (t :: us)
      ((annotatedElementNext .standard tag).bind f') follow gain := by
  rw [annotatedElementNext, bind_eq, bind_assoc, bind_assoc]
  refine resumesAt_look_bind ?_
  split
  · rename_i later
    cases us with
    | nil =>
        refine ⟨[], ?_⟩
        intro v behind
        have nothing := (ends v behind).not_annotated
        refine yields_bind.mpr (yields_bind.mpr (yields_lookSecond.mpr (yields_done.mpr ?_)))
        show (f' (v.head.kind.annotates || Registry.standard.isConstructTag v.head)).Yields _ _
        rw [nothing]
        exact alone later.1 v behind
    | cons u vs =>
        rw [bind_eq, bind_assoc, bind_assoc]
        exact resumesAt_lookSecond_bind (either _)
  · exact either false

section Bodies

variable (h : below.Viable bound below') (loops : bound ≤ n') (room : k + 3 ≤ bound)
  (ends : ∀ v, follow v → Ends v)

include h room ends

theorem viable_expression : below.expression.Viable k below'.expression [.name] follow fun _ => 0 :=
  h.required (by omega) (follows_ends ends (by decide) (by decide)) .loosest

theorem viable_initialValue :
    (initialValue below).Viable k (initialValue below') [] follow fun _ => 0 := by
  have noEquals : Follows (· ≠ .mark .equals) follow := follows_ends ends (by decide) (by decide)
  apply viable_of_waits rfl
  · intro v behind
    exact yields_accept_bind_other noEquals behind (yields_done.mpr behind)
  · intro t us short
    refine resumesAt_accept_bind ?_ (resumesAt_done rfl) fun _ => Nat.zero_le _
    have value := viable_expression h room ends
    exact (value.resumes us (Nat.le_of_lt short)).map fun _ => Nat.le_refl 0

/-- A name on a later line that nothing stands behind yet is completed as the value. -/
theorem viable_resultValue (tag : Token) :
    (resultValue .standard below tag).Viable k (resultValue .standard below' tag) [] follow
      fun _ => 0 := by
  have stops : Follows TokenKind.Stops follow := follows_ends ends (by decide) (by decide)
  have noStart : Follows (fun kind => Registry.standard.start? kind = none) follow :=
    follows_ends ends (by decide) (by decide)
  have closes : (resultValue .standard below' tag).Closes [] follow := by
    intro v behind
    show (look.bind fun t => if (Registry.standard.start? t.kind).isSome then _ else _ :
      Parse (Option Expr)).Yields v _
    refine yields_bind.mpr (yields_look.mpr ?_)
    rw [noStart v behind]
    exact yields_done.mpr behind
  refine viable_of_waits rfl closes ?_
  intro t us short
  have value : (below.expression.bind fun e => done (some e)).ResumesAt (t :: us)
      (below'.expression.bind fun e => done (some e)) follow fun _ => 0 :=
    ((viable_expression h room ends).resumes (t :: us) short).map fun _ => Nat.le_refl 0
  refine resumesAt_look_bind ?_
  show (if (Registry.standard.start? t.kind).isSome then _ else _ :
      Parse (Option Expr)).ResumesAt _
    (if (Registry.standard.start? t.kind).isSome then _ else _ : Parse (Option Expr)) _ _
  split
  · refine resumesAt_annotatedElementNext_bind ends ?_ ?_
    · intro annotated
      cases annotated with
      | true => exact resumesAt_done rfl
      | false => exact value
    · intro name v behind
      refine (h.name (by omega) .loosest ([t] ++ₛ v) name (stops v behind)).bind ?_
      rintro e _ rfl
      exact yields_done.mpr behind
  · exact resumesAt_done rfl

include loops

theorem viable_elements :
    (elements .standard n below).Viable k (elements .standard n' below') [] follow
      fun _ => 0 := by
  have stop : ∀ v, follow v →
      (furtherElement .standard below').Yields v fun o t => o = none ∧ follow t := by
    intro v behind
    have atEnd : endsSequence .standard v.head = true := by
      rcases ends v behind with kind | ⟨kind, -⟩ <;> simp [endsSequence, kind]
    show (look.bind fun u => if endsSequence .standard u then _ else _ :
      Parse (Option Element)).Yields v _
    refine yields_bind.mpr (yields_look.mpr ?_)
    rw [if_pos atEnd]
    exact yields_done.mpr ⟨rfl, behind⟩
  refine viable_gather rfl stop ?_ (by omega)
  intro t us short
  refine resumesAt_look_bind ?_
  show (if endsSequence .standard t then _ else _ : Parse (Option Element)).ResumesAt _
    (if endsSequence .standard t then _ else _ : Parse (Option Element)) _ _
  split
  · exact resumesAt_done rfl
  · exact ((h.element k room follow ends).resumes (t :: us) short).map fun _ => Nat.le_refl 1

theorem viable_bodyAfter (tag : String) :
    (bodyAfter .standard n below tag).Viable k (bodyAfter .standard n' below' tag) [] follow
      fun _ => 0 := by
  have noTag : Follows (· ≠ .tag) follow := follows_ends ends (by decide) (by decide)
  apply viable_of_waits rfl
  · intro v behind
    exact yields_acceptTag_bind_other noTag behind (yields_done.mpr behind)
  · intro t us short
    refine resumesAt_acceptTag_bind ?_ (resumesAt_done rfl) fun _ => Nat.zero_le _
    have body := viable_elements (n := n) h loops room ends
    exact (body.resumes us (Nat.le_of_lt short)).map fun _ => Nat.le_refl 0

theorem viable_guarded (tag : Token) :
    (guarded .standard n below tag).Viable k (guarded .standard n' below' tag) [.name] follow
      fun _ => 0 := by
  refine (viable_expression h room ends).before fun guard => ?_
  exact (viable_elements h loops room ends).map fun _ => Nat.le_refl 0

theorem viable_selectionCases :
    (gather (selectionCase .standard n below) n []).Viable k
      (gather (selectionCase .standard n' below') n' []) [] follow fun _ => 0 := by
  have noTag : Follows (· ≠ .tag) follow := follows_ends ends (by decide) (by decide)
  have stop : ∀ v, follow v →
      (selectionCase .standard n' below').Yields v fun o t => o = none ∧ follow t := by
    intro v behind
    exact yields_acceptTag_bind_other noTag behind (yields_done.mpr ⟨rfl, behind⟩)
  refine viable_gather rfl stop ?_ (by omega)
  intro t us short
  refine resumesAt_acceptTag_bind ?_ (resumesAt_done rfl) perRound_le_one
  have one := viable_guarded (n := n) h loops room ends t
  exact (one.resumes us (Nat.le_of_lt short)).map fun _ => Nat.zero_le _

/-- What is detected, behind its tag. -/
def detected (n : Nat) (below : Level) (tag : Token) : Parse (Option Detection) := do
  let name ← path n
  let annotations ← trailing n
  return some (.mk tag name annotations (← elements .standard n below))

theorem viable_detected (tag : Token) :
    (detected n below tag).Viable k (detected n' below' tag) [.name] follow fun _ => 0 := by
  have noDot : Follows (· ≠ .mark .dot) follow := follows_ends ends (by decide) (by decide)
  have noColon : Follows (· ≠ .mark .colon) follow := follows_ends ends (by decide) (by decide)
  refine (viable_path (by omega) noDot).before fun name => ?_
  refine (viable_trailing (by omega) noColon).before fun annotations => ?_
  exact (viable_elements h loops room ends).map fun _ => Nat.le_refl 0

theorem viable_detections :
    (gather (detection .standard n below) n []).Viable k
      (gather (detection .standard n' below') n' []) [] follow fun _ => 0 := by
  have noTag : Follows (· ≠ .tag) follow := follows_ends ends (by decide) (by decide)
  have stop : ∀ v, follow v →
      (detection .standard n' below').Yields v fun o t => o = none ∧ follow t := by
    intro v behind
    exact yields_acceptTag_bind_other noTag behind (yields_done.mpr ⟨rfl, behind⟩)
  refine viable_gather rfl stop ?_ (by omega)
  intro t us short
  refine resumesAt_acceptTag_bind ?_ (resumesAt_done rfl) perRound_le_one
  exact (viable_detected h loops room ends t).resumes us (Nat.le_of_lt short)

omit h loops room in
theorem closes_otherBranches (i : Nat) (gathered : List Guarded) :
    (otherBranches .standard n below (i + 1) gathered).Closes [] follow := by
  intro v behind
  have noTag : Follows (· ≠ .tag) follow := follows_ends ends (by decide) (by decide)
  exact yields_acceptTag_bind_other noTag behind (yields_done.mpr behind)

/-- Every further branch has a tag of its own, so their loop is not exhausted. -/
theorem resumesAt_otherBranches (short : ts.length ≤ k) {i i' : Nat} (enough : ts.length + 1 ≤ i')
    (gathered : List Guarded) :
    (otherBranches .standard n below i gathered).ResumesAt ts
      (otherBranches .standard n' below' i' gathered) follow fun _ => 0 := by
  have noTag : Follows (· ≠ .tag) follow := follows_ends ends (by decide) (by decide)
  have body := viable_elements (n := n) h loops room ends
  induction i generalizing i' gathered ts with
  | zero =>
      obtain ⟨j, rfl⟩ : ∃ j, i' = j + 1 := ⟨i' - 1, by omega⟩
      exact resumesAt_refuse (closes_otherBranches ends j gathered)
  | succ i ih =>
      obtain ⟨j, rfl⟩ : ∃ j, i' = j + 1 := ⟨i' - 1, by omega⟩
      match ts with
      | [] => exact resumesAt_nil rfl (closes_otherBranches ends j gathered)
      | [t] =>
          -- Behind an `else` alone, the branch is closed as the last one.
          refine resumesAt_acceptTag_bind ?_ (resumesAt_done rfl) fun _ => Nat.zero_le _
          refine @resumesAt_nil _ _ _ [] _ _ rfl ?_
          intro v behind
          refine yields_acceptTag_bind_other noTag behind ?_
          exact (body.closes v behind).bind fun _ _ rest => yields_done.mpr rest
      | t :: u :: vs =>
          rw [List.length_cons, List.length_cons] at short enough
          obtain ⟨m, rfl⟩ : ∃ m, j = m + 1 := ⟨j - 1, by omega⟩
          refine resumesAt_acceptTag_bind ?_ (resumesAt_done rfl) fun _ => Nat.zero_le _
          refine resumesAt_acceptTag_bind ?_ ?_ fun _ => Nat.zero_le _
          · have branch : (guarded .standard n below u).ResumesAt vs
                (guarded .standard n' below' u) (Leads [] follow) fun _ => 0 :=
              (viable_guarded h loops room ends u).resumes vs (by omega)
            refine branch.bind (fun _ _ => 0)
              (fun one => closes_otherBranches ends m (one :: gathered)) ?_ fun _ _ => Nat.zero_le _
            intro one ws less
            exact ih (by omega) (by omega) (one :: gathered)
          · exact (body.resumes (u :: vs) (Nat.le_of_lt short)).map fun _ => Nat.le_refl 0

theorem viable_otherBranches {i i' : Nat} (enough : k + 1 ≤ i') :
    (otherBranches .standard n below i []).Viable k (otherBranches .standard n' below' i' []) []
      follow fun _ => 0 := by
  obtain ⟨j, rfl⟩ : ∃ j, i' = j + 1 := ⟨i' - 1, by omega⟩
  refine ⟨closes_otherBranches ends j [], ?_⟩
  intro ts short
  exact resumesAt_otherBranches h loops room ends short (by omega) []

end Bodies

section Constructs

variable (h : below.Viable bound below') (loops : bound ≤ n') (room : k + 3 ≤ bound)

theorem viable_closing : closing.Viable k closing [.endWord] follow fun _ => 0 :=
  (viable_expect .endWord rfl).mono (Nat.le_refl k) fun _ => Nat.zero_le _

theorem viable_assignmentOperator :
    assignmentOperator.Viable k assignmentOperator [.equals] follow fun _ => 0 := by
  apply viable_of_waits rfl
  · intro v leads
    have equals : v.head.kind = .mark .equals := leads.1
    refine yields_bind.mpr (yields_look.mpr ?_)
    rw [equals]
    exact yields_next.mpr leads.2.2
  · intro t us short
    refine resumesAt_look_bind ?_
    split
    · exact ⟨rfl, Nat.le_succ _⟩
    · have mark : (expect (.mark .equals)).Viable k (expect (.mark .equals)) [.equals] follow
        fun _ => 1 := viable_expect .equals rfl
      exact (mark.resumes (t :: us) short).mono fun _ => Nat.zero_le _

include h loops room

theorem viable_closedBody :
    (closedBody .standard n below).Viable k (closedBody .standard n' below') [.endWord] follow
      fun _ => 0 := by
  refine (viable_elements h loops room ends_leads).bind fun body => ?_
  exact viable_closing.map fun _ => Nat.le_refl 0

omit h loops room in
/-- The element that needs nothing but a name. -/
theorem viable_symbol (ends : ∀ v, follow v → Ends v) (heads : k + 2 ≤ n')
    (before : List Annotation) (tag : Token) :
    (elementOf .standard n below before tag .symbol).Viable k
      (elementOf .standard n' below' before tag .symbol) [.name] follow fun _ => 0 := by
  refine (viable_path heads (follows_ends ends (by decide) (by decide))).before fun name => ?_
  refine (viable_trailing heads ?_).map fun _ => Nat.le_refl 0
  exact follows_ends ends (by decide) (by decide)

theorem viable_elementOf (ends : ∀ v, follow v → Ends v) (before : List Annotation) (tag : Token)
    (kind : ElementKind) :
    (elementOf .standard n below before tag kind).Viable k
      (elementOf .standard n' below' before tag kind) kind.completion follow fun _ => 0 := by
  have heads : k + 2 ≤ n' := by omega
  have operands : k + 2 ≤ bound := by omega
  have noColon : Follows (· ≠ .mark .colon) follow := follows_ends ends (by decide) (by decide)
  have stops : Follows TokenKind.Stops follow := follows_ends ends (by decide) (by decide)
  cases kind with
  | scope kind =>
      refine (viable_path heads (follows_leads (by decide))).bind fun name => ?_
      refine (viable_trailing heads (follows_leads (by decide))).bind fun behind => ?_
      exact (viable_closedBody h loops room).map fun _ => Nat.le_refl 0
  | callable kind =>
      refine (viable_path heads (follows_leads (by decide))).bind fun name => ?_
      refine (viable_parameters heads).bind fun parameters => ?_
      refine (viable_trailing heads (follows_leads (by decide))).bind fun behind => ?_
      exact (viable_closedBody h loops room).map fun _ => Nat.le_refl 0
  | binding kind =>
      refine (viable_path heads (follows_ends ends (by decide) (by decide))).before fun name => ?_
      refine (viable_trailing heads noColon).before fun behind => ?_
      exact (viable_initialValue h room ends).map fun _ => Nat.le_refl 0
  | symbol => exact viable_symbol ends heads before tag
  | branch =>
      refine (h.required operands (follows_leads (by decide)) .loosest).bind fun guard => ?_
      refine (viable_trailing heads (follows_leads (by decide))).bind fun behind => ?_
      refine (viable_elements h loops room ends_leads).bind fun body => ?_
      refine (viable_otherBranches h loops room ends_leads (by omega)).bind fun others => ?_
      exact viable_closing.map fun _ => Nat.le_refl 0
  | exemption =>
      refine (h.required operands (follows_leads (by decide)) .loosest).bind fun guard => ?_
      refine (viable_trailing heads (follows_leads (by decide))).bind fun behind => ?_
      refine (viable_elements h loops room ends_leads).bind fun body => ?_
      refine (viable_bodyAfter h loops room ends_leads "else").bind fun otherwise => ?_
      exact viable_closing.map fun _ => Nat.le_refl 0
  | selection =>
      refine (h.required operands (follows_leads (by decide)) .loosest).bind fun subject => ?_
      refine (viable_trailing heads (follows_leads (by decide))).bind fun behind => ?_
      refine (viable_selectionCases h loops room ends_leads).bind fun cases => ?_
      refine (viable_bodyAfter h loops room ends_leads "else").bind fun otherwise => ?_
      exact viable_closing.map fun _ => Nat.le_refl 0
  | check =>
      refine (viable_trailing heads (follows_leads (by decide))).bind fun behind => ?_
      refine (viable_elements h loops room ends_leads).bind fun body => ?_
      refine (viable_detections h loops room ends_leads).bind fun detections => ?_
      refine (viable_bodyAfter h loops room ends_leads "regardless").bind fun regardless => ?_
      exact viable_closing.map fun _ => Nat.le_refl 0
  | assertion =>
      refine (h.required operands stops .loosest).before fun condition => ?_
      exact (viable_trailing heads noColon).map fun _ => Nat.le_refl 0
  | invocation =>
      refine (viable_path heads (follows_leads (by decide))).bind fun callee => ?_
      refine (viable_expect .openParen rfl).bind fun _ => ?_
      refine (viable_arguments h operands heads).before fun arguments => ?_
      exact (viable_trailing heads noColon).map fun _ => Nat.le_refl 0
  | result =>
      refine (viable_resultValue h room ends tag).before fun value => ?_
      exact (viable_trailing heads noColon).map fun _ => Nat.le_refl 0
  | raising =>
      refine (h.required operands stops .loosest).before fun error => ?_
      exact (viable_trailing heads noColon).map fun _ => Nat.le_refl 0
  | traversal =>
      refine (viable_path heads (follows_leads (by decide))).bind fun name => ?_
      refine (viable_trailing heads (follows_leads (by decide))).bind fun behind => ?_
      refine (viable_expectText .inWord rfl rfl).bind fun _ => ?_
      refine (h.required operands (follows_leads (by decide)) .loosest).bind fun iterable => ?_
      exact (viable_closedBody h loops room).map fun _ => Nat.le_refl 0
  | loop kind =>
      refine (h.required operands (follows_leads (by decide)) .loosest).bind fun condition => ?_
      refine (viable_trailing heads (follows_leads (by decide))).bind fun behind => ?_
      exact (viable_closedBody h loops room).map fun _ => Nat.le_refl 0
  | assignment =>
      refine (viable_path heads (follows_leads (by decide))).bind fun assignee => ?_
      refine (viable_trailing heads (follows_leads (by decide))).bind fun behind => ?_
      refine viable_assignmentOperator.bind fun operator => ?_
      exact (h.required operands stops .loosest).map fun _ => Nat.le_refl 0

/-- An element of a construct that its tag may begin. -/
theorem resumesAt_dispatched (ends : ∀ v, follow v → Ends v) (short : us.length ≤ k)
    {word : String} {c : Construct} (candidate : c ∈ Registry.standard.candidates word)
    (before : List Annotation) :
    (dispatched .standard n below before c).ResumesAt (t :: us)
      (dispatched .standard n' below' before c) follow fun _ => 1 := by
  have rest := viable_elementOf (n := n) h loops room ends before t c.kind
  refine resumesAt_next_bind ?_ fun _ => Nat.le_refl 1
  cases second : c.second with
  | none => exact rest.resumes us short
  | some word =>
      obtain ⟨z, kind, text⟩ := Filler.exists_second candidate second
      exact ((viable_expectText z kind text).bind fun _ => rest).resumes us short

/-- What completes a construct of two words completes it behind its tag. -/
theorem yields_dispatched_second (ends : ∀ v, follow v → Ends v) {c : Construct} {z : Filler}
    (kind : z.piece.kind = .identifier) (second : c.second = some z.piece.text)
    (before : List Annotation) {v : Stream' Token} (leads : Leads (z :: c.kind.completion) follow v) :
    (dispatched .standard n' below' before c).Yields ([t] ++ₛ v) fun _ w => follow w := by
  refine yields_bind.mpr (yields_next.mpr ?_)
  rw [second]
  refine yields_bind.mpr (yields_expectText (leads.1.trans kind) leads.2.1 ?_)
  exact (viable_elementOf (n := n') h loops room ends before t c.kind).closes v.tail leads.2.2

end Constructs

/-- An element of the construct that is found for its tag. -/
def constructed (r : Registry) (n : Nat) (below : Level) (before : List Annotation) (t : Token) :
    Option Construct → Parse Element
  | some c => dispatched r n below before c
  | none =>
    match r.owner? t.tagName with
    | some owner => failAt t (.misplacedAuxiliary t.tagName owner)
    | none => failAt t (.unrecognizedElement t.text)

/-- An element behind the annotations before its tag. -/
def tagged (r : Registry) (n : Nat) (below : Level) (before : List Annotation) : Parse Element := do
  let t ← look
  if t.kind.isFault then failAt t (.lexical t.kind t.text)
  else if Registry.dispatches t then constructed r n below before t (← construct r t.tagName)
  else failAt t (.unrecognizedElement t.text)

theorem element_eq (r : Registry) (n : Nat) (below : Level) :
    element r n below = (leading n).bind (tagged r n below) := by
  refine congrArg (leading n).bind (funext fun before => congrArg look.bind (funext fun t => ?_))
  split
  · rfl
  · split
    · refine congrArg (construct r t.tagName).bind (funext fun found => ?_)
      cases found <;> rfl
    · rfl

section Elements

/-- A symbol is nothing but its tag and its name. -/
theorem closes_tagged (ends : ∀ v, follow v → Ends v) (heads : 2 ≤ n') (before : List Annotation) :
    (tagged .standard n' below' before).Closes [.symbolTag, .name] follow := by
  intro v leads
  have kind : v.head.kind = .tag := leads.1
  have text : v.head.text = "symbol" := leads.2.1
  have tagName : v.head.tagName = "symbol" := by
    rw [Token.tagName, text]
    rfl
  have dispatches : Registry.dispatches v.head = true := by simp [Registry.dispatches, kind]
  have fault : v.head.kind.isFault = false := by
    rw [kind]
    rfl
  have chosen : construct .standard "symbol" = done (some (.one "symbol" .symbol [])) := by
    rw [construct, if_pos (by decide +kernel)]
    exact congrArg done (by decide +kernel)
  refine yields_bind.mpr (yields_look.mpr ?_)
  rw [fault, dispatches, tagName, if_neg Bool.false_ne_true, if_pos rfl, chosen]
  have name : (elementOf .standard n' below' before v.head .symbol).Viable 0
      (elementOf .standard n' below' before v.head .symbol) [.name] follow fun _ => 0 :=
    viable_symbol ends heads before v.head
  exact name.closes v.tail leads.2.2

variable (h : below.Viable bound below') (loops : bound ≤ n')

include h loops

theorem resumesAt_constructed (ends : ∀ v, follow v → Ends v) (room : us.length + 3 ≤ bound)
    {found : Option Construct}
    (candidate : ∀ c ∈ found, c ∈ Registry.standard.candidates t.tagName)
    (before : List Annotation) :
    (constructed .standard n below before t found).ResumesAt (t :: us)
      (constructed .standard n' below' before t found) follow fun _ => 1 := by
  cases found with
  | some c =>
      exact resumesAt_dispatched h loops room ends (Nat.le_refl _) (candidate c rfl) before
  | none =>
      rw [constructed, constructed]
      split <;> exact resumesAt_failAt

/-- Behind a tag that is looked at alone, the second word of any of its constructs will do. -/
theorem resumesAt_construct (ends : ∀ v, follow v → Ends v) (room : us.length + 3 ≤ bound)
    (before : List Annotation) :
    ((construct .standard t.tagName).bind (constructed .standard n below before t)).ResumesAt
      (t :: us) ((construct .standard t.tagName).bind (constructed .standard n' below' before t))
      follow fun _ => 1 := by
  rw [construct]
  split
  · exact resumesAt_constructed h loops ends room (fun c mem => List.mem_of_head? mem) before
  · rename_i several
    rw [bind_eq, bind_assoc, bind_assoc]
    cases us with
    | nil =>
        obtain ⟨c, z, kind, second, found⟩ := Registry.exists_of_several several
        refine ⟨z :: c.kind.completion, ?_⟩
        intro v leads
        refine yields_bind.mpr (yields_lookSecond.mpr ?_)
        have text : ([t] ++ₛ v).tail.head.text = z.piece.text := leads.2.1
        rw [text, found]
        exact yields_dispatched_second h loops room ends kind second before leads
    | cons u vs =>
        refine resumesAt_lookSecond_bind ?_
        cases found : ((Registry.standard.candidates t.tagName).find? fun d =>
            d.second == some u.text).or
          ((Registry.standard.candidates t.tagName).find? fun d => d.second.isNone) with
        | none => exact resumesAt_failAt
        | some c =>
            refine resumesAt_constructed h loops ends room ?_ before
            rintro _ ⟨rfl⟩
            rcases Option.or_eq_some_iff.mp found with first | ⟨-, second⟩
            · exact List.mem_of_find?_eq_some first
            · exact List.mem_of_find?_eq_some second

theorem resumesAt_tagged (ends : ∀ v, follow v → Ends v) (room : ts.length + 2 ≤ bound)
    (before : List Annotation) :
    (tagged .standard n below before).ResumesAt ts (tagged .standard n' below' before) follow
      fun _ => 1 := by
  cases ts with
  | nil => exact resumesAt_nil rfl (closes_tagged ends (by omega) before)
  | cons t us =>
      rw [List.length_cons] at room
      refine resumesAt_look_bind ?_
      split
      · exact resumesAt_failAt
      · split
        · exact resumesAt_construct h loops ends room before
        · exact resumesAt_failAt

theorem viable_element (ends : ∀ v, follow v → Ends v) (room : k + 2 ≤ bound) :
    (element .standard n below).Viable k (element .standard n' below') [.symbolTag, .name] follow
      fun _ => 1 := by
  have first : (leading n).Viable k (leading n') [] (Leads [.symbolTag, .name] follow)
      fun _ => 0 := viable_leading (by omega) (follows_leads (by decide))
  have closes (before : List Annotation) := @closes_tagged below' n' follow ends (by omega) before
  rw [element_eq, element_eq]
  refine ⟨first.closes.bind closes, ?_⟩
  intro ts short
  refine (first.resumes ts short).bind (fun _ _ => 1) closes ?_ fun _ _ => Nat.le_refl 1
  intro before us less
  exact resumesAt_tagged h loops ends (by omega) before

end Elements

/-- Whatever nesting a level allows, its beginnings are completed by a level above them. -/
theorem viable_level (n n' : Nat) : (level .standard n).Viable n' (level .standard n') := by
  induction n' generalizing n with
  | zero => exact ⟨fun _ _ => by omega, fun _ _ => by omega, fun _ => by omega⟩
  | succ n' ih =>
      refine ⟨?_, ?_, fun room power v => yields_required_name (by omega) power⟩
      · intro k room follow ends
        cases n with
        | zero =>
            have closes := (viable_element (n := 0) (k := k) (ih 0) (Nat.le_refl n') ends
              (by omega)).closes
            exact ⟨closes, fun ts _ => (resumesAt_refuse closes).mono fun _ => Nat.le_refl 1⟩
        | succ n => exact viable_element (ih n) (Nat.le_refl n') ends (by omega)
      · intro ts room power follow stops
        cases n with
        | zero =>
            cases ts with
            | nil => exact resumesAt_nil rfl (closes_required (by omega) stops power)
            | cons t us => trivial
        | succ n => exact resumesAt_required (ih n) (by omega) (by omega) stops power

end Grammar

end TagLang
