import TagLang.Registry

/-!
# The constructs of the language

Every sort of elements has one construct, so the sort and the tag of an element say
whether a second word stands behind the tag. No word both begins a construct and is an
auxiliary tag of one.
-/

namespace TagLang

/-- The second word that a sort of elements has behind this tag. It has none behind the
joined spelling. -/
def ElementKind.second? (kind : ElementKind) (tag : String) : Option String :=
  (Registry.standardConstructs.find? fun c => c.kind = kind).bind fun c =>
    if c.joined? = some tag then none else c.second

namespace Registry

variable {word : String} {c : Construct}

/-- No construct is dispatched on the end of the source. -/
theorem ne_eof_of_dispatches {t : Token} (h : dispatches t = true) : t.kind ≠ .eof := by
  intro eof
  simp [dispatches, eof, TokenKind.isKeyword] at h

/-- A construct that a word may begin asks for the second word that its sort has there. -/
theorem second?_of_mem_candidates (h : c ∈ standard.candidates word) :
    c.kind.second? word = c.second := by
  have unique : ∀ c ∈ standardConstructs,
      standardConstructs.find? (fun d => d.kind = c.kind) = some c := by decide
  have apart : ∀ c ∈ standardConstructs, c.joined? ≠ some c.tag := by decide
  obtain ⟨d, hd, offered⟩ := List.mem_flatMap.mp h
  rw [Construct.offers, List.mem_append] at offered
  rcases offered with joined | single
  · split at joined
    · rename_i spelling
      cases List.mem_singleton.mp joined
      simp [ElementKind.second?, unique d hd, spelling]
    · cases joined
  · split at single
    · rename_i spelling
      cases List.mem_singleton.mp single
      subst spelling
      simp [ElementKind.second?, unique c hd, apart c hd]
    · cases single

/-- The words that begin constructs. -/
def openers : List String := standardConstructs.flatMap fun c => c.tag :: c.joined?.toList

theorem mem_openers_of_mem_candidates (h : c ∈ standard.candidates word) : word ∈ openers := by
  obtain ⟨d, hd, offered⟩ := List.mem_flatMap.mp h
  refine List.mem_flatMap.mpr ⟨d, hd, ?_⟩
  rw [Construct.offers, List.mem_append] at offered
  rcases offered with joined | single
  · split at joined
    · rename_i spelling
      simp [spelling]
    · cases joined
  · split at single
    · rename_i spelling
      simp [spelling]
    · cases single

/-- The constructs that a word may begin are told apart by their second words. -/
theorem find?_candidates (h : c ∈ standard.candidates word) :
    if (standard.candidates word).all fun d => d.second.isNone then
      (standard.candidates word).head? = some c
    else c.second.isSome ∧
      (standard.candidates word).find? (fun d => d.second == c.second) = some c := by
  have table : ∀ word ∈ openers, ∀ c ∈ standard.candidates word,
      if (standard.candidates word).all fun d => d.second.isNone then
        (standard.candidates word).head? = some c
      else c.second.isSome ∧
        (standard.candidates word).find? (fun d => d.second == c.second) = some c := by
    decide +kernel
  exact table word (mem_openers_of_mem_candidates h) c h

/-- The second words of constructs. -/
theorem second_mem_of_mem_candidates {second : String} (h : c ∈ standard.candidates word)
    (hs : c.second = some second) : second ∈ ["type", "for", "until", "while"] := by
  have table : ∀ word ∈ openers, ∀ c ∈ standard.candidates word, ∀ second ∈ c.second,
      second ∈ ["type", "for", "until", "while"] := by
    decide +kernel
  exact table word (mem_openers_of_mem_candidates h) c h second hs

end Registry

end TagLang
