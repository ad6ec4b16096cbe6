import TagLang.Proofs.Parse.Contract
import TagLang.Registry

/-!
# Parses of tokens in pairs

Where tokens come in pairs that are spelled with and without the `#` of a tag, a parse of the
ones and a parse of the others may go in parallel: both ask for the same token at every step,
and both end in values that are the same to a view of them or fail at the two tokens of one
pair (`Parse.Parallel`). The relation is one on parses, without the tokens they are run on, so
it goes along with the recursion of a parse and needs no bound. Two sequences of tokens in
pairs then have outcomes that correspond (`Parallel.corresponds`).
-/

namespace TagLang

open Stream'

namespace Token

/-- The token without the `#` of a tag, and without its column. -/
def bare (t : Token) : Token :=
  ⟨t.kind, if t.kind = .tag then t.tagName else t.text, ⟨t.position.file, t.position.line, 0⟩⟩

/-- A tag is a registered word, or else it is spelled with a `#`. -/
def ProperTag (t : Token) : Prop :=
  t.kind = .tag → t.text ∈ Registry.standard.tags ∨ t.text.toList.head? = some '#'

/-- No tag is spelled like a word that is not registered. -/
theorem ProperTag.text_ne {t : Token} (h : t.ProperTag) (tag : t.kind = .tag) {word : String}
    (free : word ∉ Registry.standard.tags) (plain : word.toList.head? ≠ some '#') :
    t.text ≠ word := by
  rintro rfl
  exact (h tag).elim free plain

/-- Tokens in pairs that differ in the `#` of a tag and in columns only. -/
structure Pairing where
  joins : Token → Token → Prop
  bare {t t' : Token} (pair : joins t t') : t.bare = t'.bare
  proper {t t' : Token} (pair : joins t t') : t.ProperTag ∧ t'.ProperTag

section Bare

variable {t t' : Token} (same : t.bare = t'.bare)

include same

theorem kind_eq_of_bare : t.kind = t'.kind :=
  show t.bare.kind = t'.bare.kind from congrArg kind same

theorem line_eq_of_bare : t.position.line = t'.position.line :=
  congrArg (·.position.line) same

theorem text_eq_of_bare (other : t.kind ≠ .tag) : t.text = t'.text := by
  have text := congrArg text same
  rwa [bare, bare, ← kind_eq_of_bare same, if_neg other, if_neg other] at text

theorem tagName_eq_of_bare : t.tagName = t'.tagName := by
  by_cases tag : t.kind = .tag
  · have text := congrArg text same
    rwa [bare, bare, ← kind_eq_of_bare same, if_pos tag, if_pos tag] at text
  · rw [tagName, tagName, text_eq_of_bare same tag]

end Bare

end Token

namespace Parse

variable {α β γ δ : Type} {m : Token.Pairing}

/-- Two parses ask for the same tokens at every step, and go on in parallel with the tokens of
every pair. -/
inductive Parallel (m : Token.Pairing) (view : α → γ) : Parse α → Parse α → Prop
  | done {a a' : α} (same : view a = view a') : Parallel m view (.done a) (.done a')
  | fail {t t' : Token} {c c' : SyntaxCause} (pair : m.joins t t') (name : c.name = c'.name) :
    Parallel m view (failAt t c) (failAt t' c')
  | look {k k' : Token → Parse α}
      (next : ∀ t t', m.joins t t' → Parallel m view (k t) (k' t')) :
    Parallel m view (.peek k) (.peek k')
  | lookSecond {k k' : Token → Parse α}
      (next : ∀ t t', m.joins t t' → Parallel m view (k t) (k' t')) :
    Parallel m view (.peekSecond k) (.peekSecond k')
  | next {k k' : Token → Parse α}
      (next : ∀ t t', m.joins t t' → Parallel m view (k t) (k' t')) :
    Parallel m view (.take k) (.take k')

section Rules

variable {view : α → γ} {view' : β → δ} {p p' : Parse α} {f f' : α → Parse β}

/-- Parses in a row are parallel if those behind are behind values that are the same. -/
theorem Parallel.bind (h : Parallel m view p p')
    (next : ∀ a a', view a = view a' → Parallel m view' (f a) (f' a')) :
    Parallel m view' (p.bind f) (p'.bind f') := by
  induction h with
  | done same => exact next _ _ same
  | fail pair name => exact .fail pair name
  | look _ ih => exact .look ih
  | lookSecond _ ih => exact .lookSecond ih
  | next _ ih => exact .next ih

/-- The values of parallel parses may be put to use. -/
theorem Parallel.map {g g' : α → β} (h : Parallel m view p p')
    (imp : ∀ a a', view a = view a' → view' (g a) = view' (g' a')) :
    Parallel m view' (p.bind fun a => .done (g a)) (p'.bind fun a => .done (g' a)) :=
  h.bind fun a a' same => .done (imp a a' same)

/-- An optional value is there on both sides or on neither. -/
theorem Parallel.bindOption {p p' : Parse (Option α)} {f f' : Option α → Parse β}
    (h : Parallel m (Option.map view) p p') (absent : Parallel m view' (f none) (f' none))
    (present : ∀ a a', view a = view a' → Parallel m view' (f (some a)) (f' (some a'))) :
    Parallel m view' (p.bind f) (p'.bind f') := by
  refine h.bind ?_
  rintro (_ | a) (_ | a') same
  · exact absent
  · cases same
  · cases same
  · exact present a a' (Option.some.inj same)

/-- What was asked is answered alike. -/
theorem Parallel.bindBool {p p' : Parse Bool} {f f' : Bool → Parse β} (h : Parallel m id p p')
    (no : Parallel m view' (f false) (f' false)) (yes : Parallel m view' (f true) (f' true)) :
    Parallel m view' (p.bind f) (p'.bind f') := by
  refine h.bind ?_
  rintro (_ | _) _ rfl
  · exact no
  · exact yes

theorem parallel_look_bind {f f' : Token → Parse β}
    (next : ∀ t t', m.joins t t' → Parallel m view' (f t) (f' t')) :
    Parallel m view' (Parse.look.bind f) (Parse.look.bind f') := .look next

theorem parallel_lookSecond_bind {f f' : Token → Parse β}
    (next : ∀ t t', m.joins t t' → Parallel m view' (f t) (f' t')) :
    Parallel m view' (Parse.lookSecond.bind f) (Parse.lookSecond.bind f') := .lookSecond next

theorem parallel_next_bind {f f' : Token → Parse β}
    (next : ∀ t t', m.joins t t' → Parallel m view' (f t) (f' t')) :
    Parallel m view' (Parse.next.bind f) (Parse.next.bind f') := .next next

theorem parallel_next : Parallel m Token.bare next next := .next fun _ _ pair => .done (m.bare pair)

/-- No expression begins on either side. -/
theorem parallel_refuse : Parallel m view refuse refuse :=
  parallel_next_bind fun _ _ pair => .fail pair rfl

/-- Loops with one bound are parallel if their rounds are. -/
theorem parallel_gather {p p' : Parse (Option α)} (round : Parallel m (Option.map view) p p')
    (n : Nat) {gathered gathered' : List α} (same : gathered.map view = gathered'.map view) :
    Parallel m (List.map view) (gather p n gathered) (gather p' n gathered') := by
  induction n generalizing gathered gathered' with
  | zero => exact parallel_refuse
  | succ n ih =>
    refine round.bindOption (.done ?_) fun a a' sameOne => ih ?_
    · rw [List.map_reverse, List.map_reverse, same]
    · rw [List.map_cons, List.map_cons, sameOne, same]

theorem parallel_nextIs (kind : TokenKind) : Parallel m id (nextIs kind) (nextIs kind) := by
  refine parallel_look_bind fun t t' pair => .done ?_
  rw [Token.kind_eq_of_bare (m.bare pair)]

theorem parallel_accept (kind : TokenKind) : Parallel m id (accept kind) (accept kind) := by
  refine parallel_look_bind fun t t' pair => ?_
  rw [Token.kind_eq_of_bare (m.bare pair)]
  split
  · exact parallel_next.map fun _ _ _ => rfl
  · exact .done rfl

theorem parallel_expect (kind : TokenKind) : Parallel m Token.bare (expect kind) (expect kind) := by
  refine parallel_look_bind fun t t' pair => ?_
  rw [Token.kind_eq_of_bare (m.bare pair)]
  split
  · exact parallel_next
  · exact .fail pair rfl

/-- The text of what is no tag may be demanded. -/
theorem parallel_expectText {kind : TokenKind} (other : kind ≠ .tag) (text : String) :
    Parallel m Token.bare (expectText kind text) (expectText kind text) := by
  refine parallel_look_bind fun t t' pair => ?_
  have bare := m.bare pair
  have same : (t.kind = kind ∧ t.text = text) ↔ (t'.kind = kind ∧ t'.text = text) := by
    rw [← Token.kind_eq_of_bare bare]
    refine and_congr_right fun is => ?_
    rw [Token.text_eq_of_bare bare (is ▸ other)]
  by_cases found : t.kind = kind ∧ t.text = text
  · rw [if_pos found, if_pos (same.mp found)]
    exact parallel_next
  · rw [if_neg found, if_neg (mt same.mpr found)]
    exact .fail pair rfl

end Rules

/-- Both outcomes are values that are the same to a view of them, or both are errors of one
sort, at two tokens that are joined. -/
inductive Corresponds (joins : Token → Token → Prop) (view : α → γ) :
    Except SyntaxError α → Except SyntaxError α → Prop
  | ok {a a' : α} (same : view a = view a') : Corresponds joins view (.ok a) (.ok a')
  | error {t t' : Token} {c c' : SyntaxCause} (pair : joins t t') (name : c.name = c'.name) :
    Corresponds joins view (.error ⟨c, t.position⟩) (.error ⟨c', t'.position⟩)

/-- What parallel parses come to on sequences of tokens in pairs. -/
theorem Parallel.corresponds {view : α → γ} {p p' : Parse α} (h : Parallel m view p p')
    {s s' : Stream' Token} (pairs : ∀ n, m.joins (s.get n) (s'.get n)) :
    Corresponds m.joins view (p.on s).1 (p'.on s').1 := by
  induction h generalizing s s' with
  | done same => exact .ok same
  | fail pair name => exact .error pair name
  | look _ ih => exact ih _ _ (pairs 0) pairs
  | lookSecond _ ih => exact ih _ _ (pairs 1) pairs
  | next _ ih => exact ih _ _ (pairs 0) fun n => pairs (n + 1)

end Parse

end TagLang
