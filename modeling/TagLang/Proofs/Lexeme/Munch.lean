import TagLang.Proofs.Lexeme.Kept.Basic
import TagLang.Proofs.Lexeme.Replaced
import TagLang.Proofs.Text.Language

/-!
# Longest words

A recognizer that never goes back takes the longest word of a sequence of languages only if
none of its parts can take too much. `Settles` says so of one part: where it has taken a
word, every shorter word ends in front of a character with which the rest of the sequence
cannot begin. Then the longest word of the rest makes the longest word of the whole.
-/

namespace TagLang

open Text

namespace Cut

/-- The recognizer takes a word of the language where one begins the text. A shorter word
would leave behind a character that satisfies `more`. -/
structure Settles (f : List Char → Option Cut) (L : Language Char) (more : Char → Bool) :
    Prop where
  of : ∀ {s x}, f s = some x → x.Of s
  mem : ∀ {s x}, f s = some x → x.text ∈ L
  shorter : ∀ {s x w}, f s = some x → w ∈ L → w <+: s →
    w = x.text ∨ ∃ c r, more c = true ∧ x.text = w ++ c :: r
  absent : ∀ {s w}, f s = none → w ∈ L → ¬ w <+: s

/-- The recognizer takes the longest word of the language that begins the text. -/
structure Munches (f : List Char → Cut) (L : Language Char) : Prop where
  of : ∀ s, (f s).Of s
  mem : ∀ s, (f s).text ∈ L
  longest : ∀ {s w}, w ∈ L → w <+: s → w.length ≤ (f s).text.length

variable {f g : List Char → Option Cut} {h : List Char → Cut} {L M : Language Char}
  {p q first more : Char → Bool} {s w : List Char} {x : Cut}

/-- Words that begin the same text begin alike. -/
theorem any_head?_of_begins (pre : w <+: s) (begins : w.head?.any p = true) :
    s.head?.any p = true := by
  obtain ⟨r, rfl⟩ := pre
  cases w with
  | nil => cases begins
  | cons c w => exact begins

theorem eq_nil_of_apart (apart : Apart p L) (mem : w ∈ L) (pre : w <+: s)
    (begins : s.head?.any p = true) : w = [] := by
  cases w with
  | nil => rfl
  | cons c w =>
    obtain ⟨r, rfl⟩ := pre
    have other : p c = false := apart (c :: w) mem
    exact absurd begins (Bool.eq_false_iff.mp other)

theorem settles_row (sub : ∀ c, p c = true → q c = true) :
    Settles (guarded p (run q)) (row p q) q where
  of found := by
    unfold guarded at found
    split at found
    · cases found
      exact of_run q _
    · cases found
  mem {s x} found := by
    unfold guarded at found
    split at found
    · rename_i begins
      cases found
      cases s with
      | nil => cases begins
      | cons c r =>
        have begins : p c = true := begins
        refine mem_row.mpr ⟨c, r.takeWhile q, begins, List.all_takeWhile, ?_⟩
        rw [run, List.takeWhile_cons, if_pos (sub c begins)]
    · cases found
  shorter {s x w} found mem pre := by
    unfold guarded at found
    split at found
    · cases found
      obtain ⟨c, r, begins, further, rfl⟩ := mem_row.mp mem
      obtain ⟨t, rfl⟩ := pre
      have all : (c :: r).all q = true := by simp [sub c begins, further]
      have split : (run q (c :: r ++ t)).text = (c :: r) ++ t.takeWhile q :=
        List.takeWhile_append_of_pos (List.all_eq_true.mp all)
      rw [split]
      cases left : t.takeWhile q with
      | nil => exact .inl (List.append_nil _).symm
      | cons d u =>
        have inside : (t.takeWhile q).all q = true := List.all_takeWhile
        rw [left, List.all_cons, Bool.and_eq_true] at inside
        exact .inr ⟨d, u, inside.1, rfl⟩
    · cases found
  absent {s w} found mem pre := by
    obtain ⟨c, r, begins, -, rfl⟩ := mem_row.mp mem
    have here : s.head?.any p = true := any_head?_of_begins pre begins
    rw [guarded, if_pos here] at found
    cases found

theorem settles_nothing (more : Char → Bool) : Settles (fun s => some (nothing s)) 1 more where
  of found := by
    cases found
    exact of_nothing _
  mem found := by
    cases found
    exact (Language.mem_one _).mpr rfl
  shorter found mem _ := by
    cases found
    exact .inl ((Language.mem_one _).mp mem)
  absent found := nomatch found

theorem behind_eq_some_iff :
    behind p f s = some x ↔
      ∃ c r y, s = c :: r ∧ p c = true ∧ f r = some y ∧ x = y.after [c] := by
  cases s with
  | nil => simp [behind]
  | cons c r =>
    by_cases begins : p c = true
    · simp only [behind, begins, if_true, Option.map_eq_some_iff]
      constructor
      · rintro ⟨y, next, rfl⟩
        exact ⟨c, r, y, rfl, begins, next, rfl⟩
      · rintro ⟨d, r, y, same, -, next, rfl⟩
        cases same
        exact ⟨y, next, rfl⟩
    · simp [behind, begins]

theorem Settles.behind (hf : Settles f L more) (p : Char → Bool) :
    Settles (behind p f) (Text.one p * L) more where
  of found := by
    obtain ⟨c, r, y, rfl, -, next, rfl⟩ := behind_eq_some_iff.mp found
    exact (hf.of next).after [c]
  mem found := by
    obtain ⟨c, r, y, rfl, begins, next, rfl⟩ := behind_eq_some_iff.mp found
    exact mem_one_mul.mpr ⟨c, y.text, begins, hf.mem next, rfl⟩
  shorter found mem pre := by
    obtain ⟨c, r, y, rfl, -, next, rfl⟩ := behind_eq_some_iff.mp found
    obtain ⟨d, a, -, inside, rfl⟩ := mem_one_mul.mp mem
    obtain ⟨rfl, further⟩ := List.cons_prefix_cons.mp pre
    rcases hf.shorter next inside further with rfl | ⟨e, u, further, same⟩
    · exact .inl rfl
    · exact .inr ⟨e, u, further, congrArg (d :: ·) same⟩
  absent found mem pre := by
    obtain ⟨c, a, begins, inside, rfl⟩ := mem_one_mul.mp mem
    obtain ⟨r, rfl⟩ := pre
    cases next : f (a ++ r) with
    | none => exact hf.absent next inside (List.prefix_append a r)
    | some y => simp [Cut.behind, begins, next] at found

/-- Words that begin with characters of two classes do not begin the same text. -/
theorem not_prefixes (hp : Leads p L) (hq : Leads q M)
    (disjoint : ∀ c, p c = true → q c = false) {v : List Char} (inL : v ∈ L) (inM : w ∈ M)
    (hv : v <+: s) : ¬ w <+: s := fun hw =>
  hp.ne_nil inL (eq_nil_of_apart (hp.apart disjoint) inL hv (any_head?_of_begins hw (hq w inM)))

/-- A choice between languages whose words begin with characters of two classes. -/
theorem Settles.either (hf : Settles f L more) (hg : Settles g M more) (hp : Leads p L)
    (hq : Leads q M) (disjoint : ∀ c, p c = true → q c = false) :
    Settles (either f g) (L + M) more := by
  have of_some {s x} (found : Cut.either f g s = some x) :
      f s = some x ∨ f s = none ∧ g s = some x := by
    unfold Cut.either at found
    cases here : f s with
    | some y => exact .inl (by rwa [here] at found)
    | none => exact .inr ⟨rfl, by rwa [here] at found⟩
  refine ⟨fun found => ?_, fun found => ?_, fun found mem pre => ?_, fun found mem => ?_⟩
  · exact (of_some found).elim hf.of fun h => hg.of h.2
  · exact (of_some found).elim (fun h => .inl (hf.mem h)) fun h => .inr (hg.mem h.2)
  · rcases of_some found with here | ⟨none, here⟩
    · rcases (Language.mem_add L M _).mp mem with inL | inM
      · exact hf.shorter here inL pre
      · exact absurd pre (not_prefixes hp hq disjoint (hf.mem here) inM ⟨_, hf.of here⟩)
    · rcases (Language.mem_add L M _).mp mem with inL | inM
      · exact absurd pre (hf.absent none inL)
      · exact hg.shorter here inM pre
  · obtain ⟨noneL, noneM⟩ := Option.or_eq_none_iff.mp found
    exact ((Language.mem_add L M _).mp mem).elim (hf.absent noneL) (hg.absent noneM)

theorem Settles.mono {more' : Char → Bool} (hf : Settles f L more)
    (imp : ∀ c, more c = true → more' c = true) : Settles f L more' :=
  { hf with
    shorter := fun found mem pre => (hf.shorter found mem pre).imp_right
      fun ⟨c, r, further, same⟩ => ⟨c, r, imp c further, same⟩ }

/-- A word of a sequence begins with what the first recognizer takes, unless it is shorter. -/
theorem Settles.cases (hf : Settles f L more) (found : f s = some x) (apart : Apart more M)
    (mem : w ∈ L * M) (pre : w <+: s) :
    (∃ b ∈ M, w = x.text ++ b ∧ b <+: x.rest) ∨ w.length < x.text.length := by
  obtain ⟨a, inL, b, inM, rfl⟩ := Language.mem_mul.mp mem
  rcases hf.shorter found inL ((List.prefix_append a b).trans pre) with rfl | ⟨c, r, further, same⟩
  · refine .inl ⟨b, inM, rfl, ?_⟩
    rw [← hf.of found] at pre
    exact (List.prefix_append_right_inj _).mp pre
  · rw [← hf.of found, same, List.append_assoc] at pre
    have empty := eq_nil_of_apart apart inM ((List.prefix_append_right_inj a).mp pre) further
    refine .inr ?_
    rw [empty, same, List.append_nil, List.length_append]
    exact Nat.lt_add_of_pos_right (Nat.succ_pos _)

theorem munches_nothing : Munches nothing 1 where
  of := of_nothing
  mem _ := (Language.mem_one _).mpr rfl
  longest mem _ := by
    rw [(Language.mem_one _).mp mem]
    exact Nat.zero_le _

/-- An optional part in front of a language whose words cannot be taken for it. -/
theorem Settles.maybe (hf : Settles f L more) (hh : Munches h M) (apart : Apart more M)
    (leads : Leads first L) (other : Apart first M) :
    Munches (fun s => ((f s).getD (nothing s)).andThen h) (Text.maybe L * M) := by
  have distributed : Text.maybe L * M = M + L * M := by
    rw [Text.maybe, add_mul, one_mul]
  have cut (s : List Char) : ((f s).getD (nothing s)).andThen h =
      (f s).elim (h s) fun x => (h x.rest).after x.text := by
    cases f s <;> rfl
  refine ⟨fun s => ?_, fun s => ?_, fun {s w} mem pre => ?_⟩
  · rw [cut]
    cases found : f s with
    | none => exact hh.of s
    | some x => exact (hf.of found).under (hh.of x.rest)
  · rw [cut, distributed]
    cases found : f s with
    | none => exact .inl (hh.mem s)
    | some x => exact .inr (Language.mem_mul.mpr ⟨_, hf.mem found, _, hh.mem x.rest, rfl⟩)
  · rw [distributed, Language.mem_add] at mem
    rw [cut]
    cases found : f s with
    | none =>
      rcases mem with inM | both
      · exact hh.longest inM pre
      · obtain ⟨a, inL, b, -, rfl⟩ := Language.mem_mul.mp both
        exact absurd ((List.prefix_append a b).trans pre) (hf.absent found inL)
    | some x =>
      change w.length ≤ (x.text ++ (h x.rest).text).length
      rw [List.length_append]
      rcases mem with inM | both
      -- Where the optional part stands, a word that goes without it is empty.
      · have begins := any_head?_of_begins ⟨_, hf.of found⟩ (leads _ (hf.mem found))
        rw [eq_nil_of_apart other inM pre begins]
        exact Nat.zero_le _
      · rcases hf.cases found apart both pre with ⟨b, inM, rfl, next⟩ | less
        · rw [List.length_append]
          exact Nat.add_le_add_left (hh.longest inM next) _
        · exact Nat.le_trans (Nat.le_of_lt less) (Nat.le_add_right _ _)

/-- An optional part alone. -/
theorem Settles.getD (hf : Settles f L more) (leads : Leads first L) :
    Munches (fun s => (f s).getD (nothing s)) (Text.maybe L) := by
  have alone := hf.maybe munches_nothing (apart_one_language _) leads (apart_one_language _)
  have still (x : Cut) : x.andThen nothing = x := by simp [andThen, after, nothing]
  simpa only [still, mul_one] using alone

theorem one_eq_getD (p : Char → Bool) :
    Cut.one p = fun s => (Cut.behind p (fun s => some (nothing s)) s).getD (nothing s) := by
  funext s
  cases s with
  | nil => rfl
  | cons c r =>
    by_cases begins : p c = true
    · simp only [Cut.one, Cut.behind, begins, if_true]
      rfl
    · simp [Cut.one, Cut.behind, begins]

theorem settles_one (p more : Char → Bool) :
    Settles (Cut.behind p fun s => some (nothing s)) (Text.one p) more := by
  have single := (settles_nothing more).behind p
  rwa [mul_one] at single

theorem munches_one (p : Char → Bool) : Munches (Cut.one p) (maybe (Text.one p)) := by
  rw [one_eq_getD]
  exact (settles_one p fun _ => false).getD (leads_one fun _ h => h)

/-- An optional character in front of a language whose words begin otherwise. -/
theorem munches_one_andThen (p : Char → Bool) (hh : Munches h M) (other : Apart p M) :
    Munches (fun s => (Cut.one p s).andThen h) (maybe (Text.one p) * M) := by
  rw [one_eq_getD]
  refine (settles_one p fun _ => false).maybe hh (fun w _ => ?_) (leads_one fun _ h => h) other
  cases w <;> rfl

end Cut

namespace Lexeme

/-- The words of a lexical grammar, by the form of literal that they spell. -/
abbrev Forms := LiteralForm → Language Char

/-- The words of one form alone. -/
def only (form : LiteralForm) (L : Language Char) : Forms := Pi.single form L

/-- A word of a form begins the text, and every other word of the grammar that does so is
shorter. -/
structure Longest (G : Forms) (s : List Char) (form : LiteralForm) (w : List Char) : Prop where
  begins : w <+: s
  mem : w ∈ G form
  longest : ∀ other, ∀ v ∈ G other, v <+: s → v.length < w.length ∨ v = w ∧ other = form

/-- The lexeme is a literal of the form of the longest word. -/
def Reads (x : Lexeme) (G : Forms) (s : List Char) : Prop :=
  ∃ form, x.kind = .literal form ∧ Longest G s form x.text

variable {G H : Forms} {form : LiteralForm} {f : List Char → Option Cut} {g : List Char → Cut}
  {found other : List Char → Lexeme} {L : Language Char} {first more : Char → Bool}
  {s w : List Char} {x : Cut}

theorem mem_only {form other : LiteralForm} : w ∈ only form L other ↔ other = form ∧ w ∈ L := by
  rw [only, Pi.single_apply]
  split
  · rename_i same
    simp [same]
  · rename_i apart
    simp [apart, Language.notMem_zero]

theorem apart_only {p : Char → Bool} (apart : Apart p L) (form other : LiteralForm) :
    Apart p (only form L other) :=
  fun w mem => apart w (mem_only.mp mem).2

/-- What one recognizer takes is the longest word of its language. -/
theorem Longest.of_settles (hf : Cut.Settles f L more) (here : f s = some x)
    (form : LiteralForm) : Longest (only form L) s form x.text where
  begins := ⟨_, hf.of here⟩
  mem := mem_only.mpr ⟨rfl, hf.mem here⟩
  longest other v mem pre := by
    obtain ⟨rfl, inL⟩ := mem_only.mp mem
    rcases hf.shorter here inL pre with same | ⟨c, r, -, same⟩
    · exact .inr ⟨same, rfl⟩
    · exact .inl (by simp [same])

theorem Longest.add (h : Longest G s form w)
    (less : ∀ other, ∀ v ∈ H other, v <+: s → v.length < w.length) :
    Longest (G + H) s form w where
  begins := h.begins
  mem := .inl h.mem
  longest other v mem pre :=
    mem.elim (fun inG => h.longest other v inG pre) fun inH => .inl (less other v inH pre)

theorem Longest.skip (h : Longest H s form w) (absent : ∀ other, ∀ v ∈ G other, ¬ v <+: s) :
    Longest (G + H) s form w := by
  rw [add_comm]
  exact h.add fun other v inG pre => absurd pre (absent other v inG)

theorem Longest.behind (h : Longest G x.rest form w) (hf : Cut.Settles f L more)
    (here : f s = some x) (apart : ∀ other, Apart more (G other)) :
    Longest (fun other => L * G other) s form (x.text ++ w) where
  begins := by
    rw [← hf.of here]
    exact (List.prefix_append_right_inj _).mpr h.begins
  mem := Language.mem_mul.mpr ⟨_, hf.mem here, _, h.mem, rfl⟩
  longest other v mem pre := by
    rcases hf.cases here (apart other) mem pre with ⟨b, inG, rfl, next⟩ | less
    · rw [List.length_append, List.length_append]
      rcases h.longest other b inG next with less | ⟨rfl, same⟩
      · exact .inl (Nat.add_lt_add_left less _)
      · exact .inr ⟨rfl, same⟩
    · exact .inl (Nat.lt_of_lt_of_le less (by simp))

theorem reads_ofCut (hg : Cut.Munches g L) (form : LiteralForm) (s : List Char) :
    Reads (ofCut (.literal form) (g s)) (only form L) s := by
  have begins : (g s).text <+: s := ⟨_, hg.of s⟩
  refine ⟨form, rfl, begins, mem_only.mpr ⟨rfl, hg.mem s⟩, fun other v mem pre => ?_⟩
  obtain ⟨rfl, inL⟩ := mem_only.mp mem
  rcases Nat.lt_or_eq_of_le (hg.longest inL pre) with less | same
  · exact .inl less
  · have inner := List.prefix_of_prefix_length_le pre begins (Nat.le_of_eq same)
    exact .inr ⟨inner.eq_of_length same, rfl⟩

/-- Behind a first part, or where it is missing, the longest word of what may come there. -/
theorem reads_branch (hf : Cut.Settles f L more) (leads : Leads first L)
    (hfound : ∀ s, Reads (found s) G s) (hother : ∀ s, Reads (other s) H s)
    (apartG : ∀ form, Apart more (G form)) (apartH : ∀ form, Apart first (H form))
    (s : List Char) : Reads (branch f found other s) ((fun form => L * G form) + H) s := by
  unfold branch
  cases here : f s with
  | some x =>
    obtain ⟨form, kind, longest⟩ := hfound x.rest
    refine ⟨form, kind, (longest.behind hf here apartG).add fun other v inH pre => ?_⟩
    have begins := Cut.any_head?_of_begins ⟨_, hf.of here⟩ (leads _ (hf.mem here))
    rw [Cut.eq_nil_of_apart (apartH other) inH pre begins]
    exact List.length_pos_iff.mpr (List.append_ne_nil_of_left_ne_nil (leads.ne_nil (hf.mem here)) _)
  | none =>
    obtain ⟨form, kind, longest⟩ := hother s
    refine ⟨form, kind, longest.skip fun other v behind pre => ?_⟩
    obtain ⟨a, inL, b, -, rfl⟩ := Language.mem_mul.mp behind
    exact hf.absent here inL ((List.prefix_append a b).trans pre)

end Lexeme

end TagLang
