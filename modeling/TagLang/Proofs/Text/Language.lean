import Mathlib.Computability.Language

/-!
# Languages of characters

Lexical grammars are written as languages over characters: with classes of characters, with
sequence `*`, choice `+` and repetition `∗`. How the words of a language begin decides
whether they can follow a run of characters without prolonging it (`Apart`).
-/

namespace TagLang.Text

open Computability

/-- The characters that satisfy `p`. -/
def one (p : Char → Bool) : Language Char := {w | ∃ c, p c = true ∧ w = [c]}

/-- The characters of a text. -/
def anyOf (cs : String) : Language Char := one fun c => decide (c ∈ cs.toList)

/-- A character that satisfies `p`, and then characters that satisfy `q`. -/
def row (p q : Char → Bool) : Language Char := one p * (one q)∗

/-- A word of the language, or none. -/
def maybe (L : Language Char) : Language Char := 1 + L

/-- None of the characters of a text satisfies `p`. -/
def excludes (p : Char → Bool) (cs : String) : Bool := cs.toList.all (!p ·)

/-- Every word begins with a character that satisfies `p`. -/
def Leads (p : Char → Bool) (L : Language Char) : Prop := ∀ w ∈ L, w.head?.any p = true

/-- No word begins with a character that satisfies `p`. -/
def Apart (p : Char → Bool) (L : Language Char) : Prop := ∀ w ∈ L, w.head?.any p = false

variable {p q : Char → Bool} {w : List Char} {L M : Language Char} {cs : String}

theorem mem_one {c : Char} : [c] ∈ one p ↔ p c = true :=
  ⟨fun ⟨_, h, same⟩ => (List.cons.inj same).1 ▸ h, fun h => ⟨c, h, rfl⟩⟩

theorem one_eq_anyOf (same : ∀ c, p c = true ↔ c ∈ cs.toList) : one p = anyOf cs := by
  refine congrArg one (funext fun c => ?_)
  rw [Bool.eq_iff_iff, same, decide_eq_true_iff]

theorem mem_kstar_one : w ∈ (one p)∗ ↔ w.all p = true := by
  rw [Language.mem_kstar, List.all_eq_true]
  constructor
  · rintro ⟨parts, rfl, members⟩ c mem
    obtain ⟨part, among, inside⟩ := List.mem_flatten.mp mem
    obtain ⟨d, h, rfl⟩ := members part among
    rwa [List.mem_singleton.mp inside]
  · intro all
    refine ⟨w.map fun c => [c], by simp [← List.flatMap_def], fun part mem => ?_⟩
    obtain ⟨c, among, rfl⟩ := List.mem_map.mp mem
    exact mem_one.mpr (all c among)

theorem mem_one_mul : w ∈ one p * L ↔ ∃ c r, p c = true ∧ r ∈ L ∧ w = c :: r := by
  rw [Language.mem_mul]
  constructor
  · rintro ⟨_, ⟨c, first, rfl⟩, r, further, rfl⟩
    exact ⟨c, r, first, further, rfl⟩
  · rintro ⟨c, r, first, further, rfl⟩
    exact ⟨[c], mem_one.mpr first, r, further, rfl⟩

theorem mem_row : w ∈ row p q ↔ ∃ c r, p c = true ∧ r.all q = true ∧ w = c :: r := by
  simp only [row, mem_one_mul, mem_kstar_one]

theorem leads_one (imp : ∀ c, q c = true → p c = true) : Leads p (one q) := by
  rintro _ ⟨c, h, rfl⟩
  exact imp c h

theorem leads_anyOf (cs : String) : Leads (fun c => decide (c ∈ cs.toList)) (anyOf cs) :=
  leads_one fun _ h => h

theorem Leads.mul (h : Leads p L) (M : Language Char) : Leads p (L * M) := by
  intro w mem
  obtain ⟨a, first, b, -, rfl⟩ := Language.mem_mul.mp mem
  cases a with
  | nil => cases h [] first
  | cons c a => exact h (c :: a) first

theorem Leads.ne_nil (h : Leads p L) (mem : w ∈ L) : w ≠ [] := by
  rintro rfl
  cases h [] mem

theorem Leads.apart (h : Leads q L) (disjoint : ∀ c, q c = true → p c = false) : Apart p L := by
  intro w mem
  have begins := h w mem
  cases w with
  | nil => rfl
  | cons c w => exact disjoint c begins

theorem apart_one_language (p : Char → Bool) : Apart p 1 := by
  intro w mem
  rw [(Language.mem_one w).mp mem]
  rfl

theorem Apart.add (h : Apart p L) (hM : Apart p M) : Apart p (L + M) :=
  fun w mem => ((Language.mem_add L M w).mp mem).elim (h w) (hM w)

theorem Apart.maybe (h : Apart p L) : Apart p (maybe L) := (apart_one_language p).add h

theorem Apart.mul (h : Apart p L) (hM : Apart p M) : Apart p (L * M) := by
  intro w mem
  obtain ⟨a, first, b, second, rfl⟩ := Language.mem_mul.mp mem
  cases a with
  | nil => exact hM b second
  | cons c a => exact h (c :: a) first

theorem eq_false_of_mem {c : Char} (disjoint : excludes p cs = true)
    (mem : c ∈ cs.toList) : p c = false := by
  simpa using List.all_eq_true.mp disjoint c mem

theorem decide_mem_eq_false (disjoint : excludes p cs = true) (c : Char)
    (h : p c = true) : decide (c ∈ cs.toList) = false :=
  decide_eq_false fun mem => absurd h (Bool.eq_false_iff.mp (eq_false_of_mem disjoint mem))

theorem apart_anyOf (disjoint : excludes p cs = true) : Apart p (anyOf cs) :=
  (leads_anyOf cs).apart fun _ mem => eq_false_of_mem disjoint (of_decide_eq_true mem)

theorem apart_anyOf_mul (disjoint : excludes p cs = true) (M : Language Char) :
    Apart p (anyOf cs * M) :=
  ((leads_anyOf cs).mul M).apart fun _ mem => eq_false_of_mem disjoint (of_decide_eq_true mem)

theorem all_of_mem_maybe (sub : cs.toList.all p = true) (mem : w ∈ maybe (anyOf cs)) :
    ∀ c ∈ w, p c = true := by
  rcases mem with none | ⟨c, inside, rfl⟩
  · rw [(Language.mem_one w).mp none]
    exact fun _ => nofun
  · intro d here
    rw [List.mem_singleton.mp here]
    exact List.all_eq_true.mp sub c (of_decide_eq_true inside)

end TagLang.Text
