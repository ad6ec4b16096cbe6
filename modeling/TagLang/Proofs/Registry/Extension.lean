import TagLang.Registry

/-!
# Extensions of a registry

A registry extends another one on some tokens if it looks up the same for them: the same rules
for expressions, and under the words of tags the same constructs in the same order, whose
sorts may be named otherwise. What is registered behind the constructs of a registry extends it
on all tokens that are no words of what is registered.
-/

namespace TagLang

namespace Construct

variable {κ κ' : Type} {c : Construct κ} {word : String}

/-- A word of no construct is offered nothing. -/
theorem offers_eq_nil (h : word ∉ c.tags) : c.offers word = [] := by
  have other : c.tag ≠ word ∧ c.joined? ≠ some word := by
    constructor
    · rintro rfl
      exact h List.mem_cons_self
    · intro joined
      refine h (List.mem_append_right _ ?_)
      simp [joined]
  simp [offers, other.1, other.2]

theorem offers_map (f : κ → κ') (c : Construct κ) (word : String) :
    (c.map f).offers word = (c.offers word).map (.map f) := by
  show (if c.joined? = some word then _ else _) ++ (if c.tag = word then _ else _) =
    List.map _ ((if c.joined? = some word then _ else _) ++ if c.tag = word then _ else _)
  split <;> split <;> rfl

end Construct

namespace Registry

variable {κ κ' : Type}

/-- The second registry looks up for the free tokens what the first one does. -/
structure Extends (free : Token → Prop) (lift : κ → κ') (r : Registry κ) (r' : Registry κ') :
    Prop where
  start? : ∀ kind, r'.start? kind = r.start? kind
  continuation? : ∀ kind, r'.continuation? kind = r.continuation? kind
  candidates : ∀ t, free t → dispatches t = true →
    r'.candidates t.tagName = (r.candidates t.tagName).map (.map lift)
  owner? : ∀ t, free t → dispatches t = true → r'.owner? t.tagName = r.owner? t.tagName

namespace Extends

variable {free : Token → Prop} {lift : κ → κ'} {r : Registry κ} {r' : Registry κ'}

theorem refl (r : Registry κ) : Extends free id r r where
  start? _ := rfl
  continuation? _ := rfl
  candidates t _ _ := by simp [show (Construct.map id : Construct κ → Construct κ) = id from rfl]
  owner? _ _ _ := rfl

/-- The same constructs begin with a free token. -/
theorem isConstructTag (h : Extends free lift r r') {t : Token} (ht : free t) :
    r'.isConstructTag t = r.isConstructTag t := by
  cases dispatches : dispatches t with
  | false => simp [Registry.isConstructTag, dispatches]
  | true => simp [Registry.isConstructTag, dispatches, h.candidates t ht dispatches]

/-- Sorts may be named otherwise. -/
theorem of_map (f : κ → κ') (r : Registry κ) : Extends free f r (r.map f) where
  start? _ := rfl
  continuation? _ := rfl
  candidates t _ _ := by
    simp only [Registry.candidates, Registry.map, List.flatMap_map, List.map_flatMap,
      Construct.offers_map]
  owner? t _ _ := by
    simp only [Registry.owner?, Registry.map, List.find?_map, Option.map_map]
    rfl

/-- A construct is registered behind the others, and no free token is a word of it. -/
theorem register (h : Extends free lift r r') {c : Construct κ'}
    (other : ∀ t, free t → dispatches t = true → t.tagName ∉ c.tags) :
    Extends free lift r (r'.register c) where
  start? := h.start?
  continuation? := h.continuation?
  candidates t ht dispatches := by
    rw [← h.candidates t ht dispatches]
    simp [Registry.candidates, Registry.register, Construct.offers_eq_nil (other t ht dispatches)]
  owner? t ht dispatches := by
    have auxiliary : t.tagName ∉ c.auxiliaries := fun mem =>
      other t ht dispatches (List.mem_append_left _ (List.mem_cons_of_mem _ mem))
    rw [← h.owner? t ht dispatches]
    simp [Registry.owner?, Registry.register, auxiliary]

theorem foldl_register (h : Extends free lift r r') {cs : List (Construct κ')}
    (other : ∀ t, free t → dispatches t = true → ∀ c ∈ cs, t.tagName ∉ c.tags) :
    Extends free lift r (cs.foldl Registry.register r') := by
  induction cs generalizing r' with
  | nil => exact h
  | cons c cs ih =>
    refine ih (h.register fun t ht is => other t ht is c List.mem_cons_self) ?_
    exact fun t ht is d mem => other t ht is d (List.mem_cons_of_mem c mem)

end Extends

theorem tags_map (f : κ → κ') (r : Registry κ) : (r.map f).tags = r.tags := by
  simp only [tags, map, List.flatMap_map]
  rfl

theorem tags_register (r : Registry κ) (c : Construct κ) :
    (r.register c).tags = r.tags ++ c.tags := by
  simp [tags, register]

theorem mem_tags_foldl_register {cs : List (Construct κ)} {r : Registry κ} {word : String} :
    word ∈ (cs.foldl register r).tags ↔ word ∈ r.tags ∨ ∃ c ∈ cs, word ∈ c.tags := by
  induction cs generalizing r with
  | nil => simp
  | cons c cs ih =>
    rw [List.foldl_cons, ih, tags_register, List.mem_append]
    simp [or_assoc]

end Registry

end TagLang
