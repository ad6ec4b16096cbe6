import TagLang.Proofs.Registry.Extension

/-!
# The order of registration

What constructs are dispatched on is a list of entries, a word and a construct each: a construct
of two words stands there as a construct of one word under its joined spelling, and behind that
under its tag. Of a tag and the text behind it, the first entry is chosen that asks for this
text as its second word, or else the first one that asks for none.
-/

namespace TagLang

/-- The first element of a list with a property. -/
def IsFirst {α : Type} (l : List α) (good : α → Prop) (a : α) : Prop :=
  good a ∧ ∃ before behind, l = before ++ a :: behind ∧ ∀ b ∈ before, ¬ good b

/-- A search finds the first element. -/
theorem find?_eq_some_iff_isFirst {α : Type} {l : List α} {good : α → Prop} {p : α → Bool} {a : α}
    (decides : ∀ b, p b = true ↔ good b) : l.find? p = some a ↔ IsFirst l good a := by
  rw [List.find?_eq_some_iff_append, decides]
  refine and_congr_right fun _ => exists_congr fun before => exists_congr fun behind => ?_
  refine and_congr_right fun _ => forall₂_congr fun b _ => ?_
  rw [← decides, Bool.not_eq_true', Bool.not_eq_true]

variable {κ : Type} {c : Construct κ} {cs : List (Construct κ)} {tag second word : String}

namespace Construct

/-- What a construct is dispatched on. -/
def entries (c : Construct κ) : List (String × Construct κ) :=
  (c.joined?.toList.map fun word => (word, { c with second := none })) ++ [(c.tag, c)]

/-- A construct offers under a word what it has entries for. -/
theorem offers_eq_filter_entries (c : Construct κ) (word : String) :
    c.offers word = (c.entries.filter fun e => e.1 == word).map Prod.snd := by
  have own : ([(c.tag, c)].filter fun e => e.1 == word).map Prod.snd =
      if c.tag = word then [c] else [] := by
    by_cases tag : c.tag = word <;> simp [tag]
  rw [offers, entries, List.filter_append, List.map_append, own]
  cases c.joined? with
  | none => simp
  | some joined => by_cases spelling : joined = word <;> simp [spelling]

/-- The construct that a tag and the text behind it choose among constructs in this order. -/
inductive Chosen (cs : List (Construct κ)) (tag second : String) : Construct κ → Prop
  /-- The first under the tag with this text as its second word. -/
  | exact {c : Construct κ} (first : IsFirst (cs.flatMap entries)
      (fun e => e.1 = tag ∧ e.2.second = some second) (tag, c)) : Chosen cs tag second c
  /-- If there is none, the first under the tag without a second word. -/
  | single {c : Construct κ}
      (other : ∀ e ∈ cs.flatMap entries, ¬ (e.1 = tag ∧ e.2.second = some second))
      (first : IsFirst (cs.flatMap entries) (fun e => e.1 = tag ∧ e.2.second = none) (tag, c)) :
      Chosen cs tag second c

/-- A second word that is chosen is the text behind the tag. -/
theorem Chosen.eq_of_second (chosen : Chosen cs tag second c) (two : c.second = some word) :
    second = word := by
  cases chosen with
  | exact first => exact Option.some.inj (first.1.2.symm.trans two)
  | single _ first => cases first.1.2.symm.trans two

end Construct

namespace Registry

variable {r : Registry κ}

theorem candidates_eq_filter_entries (r : Registry κ) (word : String) :
    r.candidates word =
      ((r.constructs.flatMap Construct.entries).filter fun e => e.1 == word).map Prod.snd := by
  rw [candidates, List.filter_flatMap, List.map_flatMap]
  exact congrArg (r.constructs.flatMap ·) (funext fun c => c.offers_eq_filter_entries word)

/-- There are candidates for a word exactly if it has an entry. -/
theorem candidates_eq_nil_iff :
    r.candidates word = [] ↔ ∀ e ∈ r.constructs.flatMap Construct.entries, e.1 ≠ word := by
  simp [candidates_eq_filter_entries, List.filter_eq_nil_iff]

/-- The first candidate with a property is the first entry under the word with it. -/
theorem find?_candidates_eq_some_iff {p : Option String → Bool} {good : Option String → Prop}
    (decides : ∀ o, p o = true ↔ good o) :
    (r.candidates word).find? (fun c => p c.second) = some c ↔
      IsFirst (r.constructs.flatMap Construct.entries) (fun e => e.1 = word ∧ good e.2.second)
        (word, c) := by
  rw [candidates_eq_filter_entries, List.find?_map, List.find?_filter, Option.map_eq_some_iff]
  have first (e : String × Construct κ) :
      (r.constructs.flatMap Construct.entries).find?
          (fun e => decide ((e.1 == word) = true ∧ p e.2.second = true)) = some e ↔
        IsFirst (r.constructs.flatMap Construct.entries)
          (fun e => e.1 = word ∧ good e.2.second) e :=
    find?_eq_some_iff_isFirst (by simp [decides])
  constructor
  · rintro ⟨⟨key, d⟩, found, rfl⟩
    have entry := (first _).mp found
    obtain rfl : key = word := entry.1.1
    exact entry
  · exact fun entry => ⟨_, (first _).mpr entry, rfl⟩

/-- The candidate for a tag and the text behind it, searched for among all candidates. -/
def pick? (r : Registry κ) (tag second : String) : Option (Construct κ) :=
  ((r.candidates tag).find? fun c => c.second == some second).or
    ((r.candidates tag).find? fun c => c.second.isNone)

/-- What is picked is what is chosen. -/
theorem pick?_eq_some_iff :
    r.pick? tag second = some c ↔ Construct.Chosen r.constructs tag second c := by
  have exact (c : Construct κ) := @find?_candidates_eq_some_iff _ c tag r
    (fun o => o == some second) (fun o => o = some second) fun _ => beq_iff_eq
  have single := @find?_candidates_eq_some_iff _ c tag r Option.isNone (fun o => o = none)
    fun _ => Option.isNone_iff_eq_none
  rw [pick?]
  cases found : (r.candidates tag).find? fun c => c.second == some second with
  | some d =>
    rw [Option.some_or]
    constructor
    · intro same
      cases same
      exact .exact ((exact c).mp found)
    · rintro (first | ⟨other, first⟩)
      · exact found.symm.trans ((exact c).mpr first)
      · have entry := (exact d).mp found
        obtain ⟨before, behind, split, -⟩ := entry.2
        exact absurd entry.1 (other _ (by simp [split]))
  | none =>
    rw [Option.none_or, single]
    constructor
    · intro first
      refine .single (fun e mem good => ?_) first
      have all := List.find?_eq_none.mp found e.2 (by
        rw [candidates_eq_filter_entries]
        exact List.mem_map.mpr ⟨e, List.mem_filter.mpr ⟨mem, by simp [good.1]⟩, rfl⟩)
      exact all (by simp [good.2])
    · rintro (first | ⟨-, first⟩)
      · cases found.symm.trans ((exact c).mpr first)
      · exact first

/-- If no candidate has a second word, the first one is picked whatever is behind the tag. -/
theorem head?_candidates_eq_pick? (single : (r.candidates tag).all fun c => c.second.isNone)
    (second : String) : (r.candidates tag).head? = r.pick? tag second := by
  rw [List.all_eq_true] at single
  have exact : (r.candidates tag).find? (fun c => c.second == some second) = none := by
    refine List.find?_eq_none.mpr fun c mem => ?_
    simp [Option.isNone_iff_eq_none.mp (single c mem)]
  rw [pick?, exact, Option.none_or]
  cases all : r.candidates tag with
  | nil => rfl
  | cons c cs =>
    have first : c.second.isNone = true := single c (by simp [all])
    simp [first]

/-- The owner of a word is the tag of the first construct that has it as an auxiliary tag. -/
theorem owner?_eq_some_iff :
    r.owner? word = some tag ↔
      ∃ c, IsFirst r.constructs (fun c => word ∈ c.auxiliaries) c ∧ c.tag = tag := by
  rw [owner?, Option.map_eq_some_iff]
  refine exists_congr fun c => and_congr_left fun _ => ?_
  exact find?_eq_some_iff_isFirst fun _ => List.contains_iff_mem

theorem constructs_foldl_register (cs : List (Construct κ)) (r : Registry κ) :
    (cs.foldl register r).constructs = r.constructs ++ cs := by
  induction cs generalizing r with
  | nil => simp
  | cons c cs ih => rw [List.foldl_cons, ih, register, List.append_assoc, List.singleton_append]

end Registry

end TagLang
