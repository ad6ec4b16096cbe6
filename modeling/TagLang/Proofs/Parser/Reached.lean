import TagLang.Proofs.Lexer.Significant

/-!
# What a parser of the language has ahead

A parser is `Reached` if it is made for a source and has answered any number of
parses since, failed ones among them. Its ring is in order, its registry is that of
the language, and every token ahead of it is `Regular`: a mark or a reserved word is
spelled as its kind says, and an identifier is no registered tag.
-/

namespace TagLang

open Stream'

/-- The text of the token is what its kind demands. -/
structure Token.Regular (t : Token) : Prop where
  mark : ∀ m, t.kind = .mark m → t.text = String.ofList m.spelling
  word : ∀ w, t.kind = .word w → t.text = String.ofList w.spelling
  identifier : t.kind = .identifier → t.text ∉ Registry.standard.tags

namespace TaggedLexer

variable {file : String} {options : LexerOptions} {tags : List String} {place : Place}
  {text : List Char}

theorem regular_retag {l : TaggedLexer} (same : ∀ t, t ∈ l.tags ↔ t ∈ Registry.standard.tags) :
    (l.retag (Lexer.tokenAt file place text)).Regular := by
  rw [retag_eq]
  refine ⟨?_, ?_, ?_⟩
  all_goals simp only [Token.kind_reclassify, Token.text_reclassify, kindAmong]
  · intro m hm
    split at hm
    · cases hm
    · exact congrArg String.ofList (Lexeme.text_read_of_mark hm)
  · intro w hw
    split at hw
    · cases hw
    · exact congrArg String.ofList (Lexeme.text_read_of_word hw)
  · intro hi
    split at hi
    · cases hi
    · rename_i free
      rw [← same]
      simpa [hi] using free

/-- The next token before a text is regular, and what stands behind it is again before
a text. -/
theorem exists_upcoming_eq (same : ∀ t, t ∈ tags ↔ t ∈ Registry.standard.tags) :
    ∃ t : Token, t.Regular ∧ ∃ place' text', (before file options tags place text).upcoming =
      t :: (before file options tags place' text').upcoming := by
  induction h : text.length using Nat.strongRecOn generalizing text place with
  | ind n ih =>
      subst h
      by_cases trivial : (Lexeme.read text).kind.isTrivia = true
      · have ne : text ≠ [] := by
          rintro rfl
          simp [TokenKind.isTrivia] at trivial
        rw [upcoming_of_isTrivia trivial]
        exact ih _ (Lexeme.length_rest_read_lt ne) rfl
      · exact ⟨_, regular_retag same, _, _, upcoming_of_not_isTrivia trivial⟩

theorem regular_get_upcoming (same : ∀ t, t ∈ tags ↔ t ∈ Registry.standard.tags) (n : Nat) :
    ((before file options tags place text).upcoming.get n).Regular := by
  induction n generalizing place text with
  | zero =>
      obtain ⟨t, regular, place', text', come⟩ := exists_upcoming_eq same
      rw [come]
      exact regular
  | succ n ih =>
      obtain ⟨t, -, place', text', come⟩ := exists_upcoming_eq same
      rw [come, get_succ_cons]
      exact ih

end TaggedLexer

namespace TokenStream

theorem foldl_register_ofLexer (tags : List String) (l : TaggedLexer) :
    tags.foldl register (ofLexer l) = ofLexer (tags.foldl TaggedLexer.register l) := by
  induction tags generalizing l with
  | nil => rfl
  | cons tag tags ih => exact ih _

end TokenStream

namespace TaggedLexer

theorem foldl_register (tags : List String) (l : TaggedLexer) :
    ∃ all, tags.foldl register l = ⟨l.lexer, all⟩ ∧ ∀ t, t ∈ all ↔ t ∈ l.tags ∨ t ∈ tags := by
  induction tags generalizing l with
  | nil => exact ⟨l.tags, rfl, by simp⟩
  | cons tag tags ih =>
      obtain ⟨all, registered, mem⟩ := ih (l.register tag)
      by_cases known : l.isRegistered tag = true
      · rw [register, if_pos known] at registered mem
        refine ⟨all, by rw [List.foldl_cons, register, if_pos known, registered], fun t => ?_⟩
        have old : tag ∈ l.tags := by simpa [isRegistered] using known
        rw [mem, List.mem_cons]
        grind
      · rw [register, if_neg known] at registered mem
        refine ⟨all, by rw [List.foldl_cons, register, if_neg known, registered], fun t => ?_⟩
        rw [mem, List.mem_cons, List.mem_cons]
        grind

end TaggedLexer

namespace Parser

/-- A new parser stands before the text of its source, with the words of its constructs as
tags. -/
theorem exists_stream_ofRegistry {κ : Type} (r : Registry κ) (source : String)
    (file : Option String) (options : LexerOptions) :
    ∃ tags, (∀ t, t ∈ tags ↔ t ∈ r.tags) ∧
      (ofRegistry r source file options).stream =
        .ofLexer (.before (file.getD "shell") options tags .start source.toList) := by
  obtain ⟨all, registered, mem⟩ := TaggedLexer.foldl_register r.tags
    (.ofLexer (.ofSource source file options))
  refine ⟨all, fun t => by simp [mem, TaggedLexer.ofLexer], ?_⟩
  rw [ofRegistry, TokenStream.foldl_register_ofLexer, registered]
  rfl

theorem exists_stream_ofSource (source : String) (file : Option String) (options : LexerOptions) :
    ∃ tags, (∀ t, t ∈ tags ↔ t ∈ Registry.standard.tags) ∧
      (ofSource source file options).stream =
        .ofLexer (.before (file.getD "shell") options tags .start source.toList) :=
  exists_stream_ofRegistry .standard source file options

/-- The parser was made for the source and has answered some parses. -/
inductive Reached (source : String) (file : Option String) (options : LexerOptions) :
    Parser → Prop
  | start : Reached source file options (ofSource source file options)
  | ask {α : Type} {p : Parser} (parse : Parse α) (h : Reached source file options p) :
    Reached source file options (p.ask parse).2

variable {source : String} {file : Option String} {options : LexerOptions} {p : Parser}

theorem Reached.registry_eq (h : p.Reached source file options) : p.registry = .standard := by
  induction h with
  | start => rfl
  | ask parse _ ih => exact ih

theorem Reached.inOrder (h : p.Reached source file options) : p.stream.InOrder := by
  induction h with
  | start =>
      obtain ⟨tags, -, stream⟩ := exists_stream_ofSource source file options
      rw [stream]
      exact TokenStream.inOrder_ofLexer _
  | ask parse _ ih => exact (ask_eq_on parse ih).2.2

/-- Every token that is still to come is regular. -/
theorem Reached.regular (h : p.Reached source file options) (n : Nat) :
    (p.stream.upcoming.get n).Regular := by
  induction h generalizing n with
  | start =>
      obtain ⟨tags, same, stream⟩ := exists_stream_ofSource source file options
      rw [stream, TokenStream.upcoming_ofLexer]
      exact TaggedLexer.regular_get_upcoming same n
  | @ask _ p parse h ih =>
      obtain ⟨k, left⟩ := parse.exists_drop_eq_on p.stream.upcoming
      rw [(ask_eq_on parse h.inOrder).2.1, left, get_drop]
      exact ih _

theorem Reached.regular_of_mem (h : p.Reached source file options) {taken : List Token}
    {left : Stream' Token} (consumed : p.stream.upcoming = taken ++ₛ left) {t : Token}
    (ht : t ∈ taken) : t.Regular := by
  obtain ⟨n, hn, rfl⟩ := List.getElem_of_mem ht
  have same := h.regular n
  rwa [consumed, get_append_left _ _ _ hn] at same

end Parser

end TagLang
