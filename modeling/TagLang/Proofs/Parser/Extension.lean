import TagLang.Proofs.Parser.Unread
import TagLang.Proofs.Unit.Same

/-!
# Registering constructs is a conservative extension

Constructs may be registered behind those of the language, under any words and with sorts that
someone else handles. In a source that uses none of their words, every token keeps its kind and
looks up what it did, so the source is parsed as without them, errors and positions included.
-/

namespace TagLang

open Parse Stream'

/-- An identifier goes by its text. -/
theorem Lexer.tagName_of_mem_lexemes {file : String} {place : Place} {text : List Char}
    {t : Token} (mem : t ∈ lexemes file place text) (identifier : t.kind = .identifier) :
    t.tagName = t.text := by
  induction place, text using lexeme_induction with
  | nil place =>
    rw [lexemes_nil, List.mem_singleton] at mem
    rw [mem] at identifier
    cases identifier
  | cons place text ne ih =>
    rw [lexemes_of_ne_nil ne] at mem
    rcases List.mem_cons.mp mem with rfl | mem
    · rw [Token.tagName]
      split
      · rename_i name hash
        have begins : (Lexeme.read text).text = '#' :: name := by simpa [tokenAt] using hash
        have read : (Lexeme.read text).kind = .identifier := identifier
        rw [← Lexeme.text_append_rest_read text, begins] at read
        exact absurd read (Lexeme.kind_read_hash_ne_identifier _)
      · rfl
    · exact ih mem

namespace TaggedLexer

/-- Words that make tags of the same identifiers of a text make the same tokens of it. -/
theorem upcoming_congr_tags {file : String} {options : LexerOptions} {tags tags' : List String}
    (place : Place) (text : List Char)
    (same : ∀ t ∈ Lexer.lexemes file place text, t.kind = .identifier →
      (t.text ∈ tags ↔ t.text ∈ tags')) :
    (before file options tags place text).upcoming =
      (before file options tags' place text).upcoming := by
  induction place, text using Lexer.lexeme_induction with
  | nil place => rw [upcoming_nil, upcoming_nil]
  | cons place text ne ih =>
    rw [Lexer.lexemes_of_ne_nil ne] at same
    obtain ⟨first, others⟩ := List.forall_mem_cons.mp same
    by_cases trivial : (Lexeme.read text).kind.isTrivia = true
    · rw [upcoming_of_isTrivia trivial, upcoming_of_isTrivia trivial, ih others]
    · have tagged : (before file options tags place text).retag (Lexer.tokenAt file place text) =
          (before file options tags' place text).retag (Lexer.tokenAt file place text) := by
        rw [retag_eq, retag_eq]
        refine congrArg _ (if_congr (and_congr_right fun identifier => ?_) rfl rfl)
        exact (List.contains_iff_mem.trans (first identifier)).trans List.contains_iff_mem.symm
      rw [upcoming_of_not_isTrivia trivial, upcoming_of_not_isTrivia trivial, ih others, tagged]

/-- What comes is made of lexemes that are no trivia: an identifier may have become a tag. -/
theorem exists_lexeme_of_get (file : String) (options : LexerOptions) (tags : List String)
    (place : Place) (text : List Char) (i : Nat) :
    ∃ t ∈ Lexer.lexemes file place text, t.kind.isTrivia = false ∧
      (before file options tags place text).upcoming.get i =
        t.reclassify (kindAmong tags t.kind t.text) := by
  induction place, text using Lexer.lexeme_induction generalizing i with
  | nil place =>
    refine ⟨Lexer.tokenAt file place [], by simp [Lexer.lexemes_nil], rfl, ?_⟩
    rw [upcoming_nil, get_const]
    rfl
  | cons place text ne ih =>
    rw [Lexer.lexemes_of_ne_nil ne]
    by_cases trivial : (Lexeme.read text).kind.isTrivia = true
    · rw [upcoming_of_isTrivia trivial]
      obtain ⟨t, mem, other, come⟩ := ih i
      exact ⟨t, List.mem_cons_of_mem _ mem, other, come⟩
    · rw [upcoming_of_not_isTrivia trivial]
      cases i with
      | zero =>
        refine ⟨_, List.mem_cons_self, by simpa [Lexer.tokenAt] using trivial, ?_⟩
        exact retag_eq _ _
      | succ i =>
        obtain ⟨t, mem, other, come⟩ := ih i
        exact ⟨t, List.mem_cons_of_mem _ mem, other, come⟩

end TaggedLexer

/-- The tokens of a source are its lexemes that are no trivia. -/
theorem mem_tokenize_iff {source : String} {file : Option String} {t : Token} :
    t ∈ tokenize source file ↔
      t ∈ Lexer.lexemes (file.getD "shell") .start source.toList ∧ t.kind.isTrivia = false := by
  have all := Lexer.readAll_before (file.getD "shell") .standard .start source.toList
  rw [tokenize, Lexer.ofSource_eq, all, List.mem_filter]
  simp [Lexer.skips_standard]

namespace Parser

variable {κ η : Type} {source : String} {file : Option String}

/-- Constructs that are registered with a new parser might as well be in its registry. -/
theorem foldl_register_ofRegistry (cs : List (Construct κ)) (r : Registry κ) (source : String)
    (file : Option String) (options : LexerOptions) :
    cs.foldl register (ofRegistry r source file options) =
      ofRegistry (cs.foldl Registry.register r) source file options := by
  induction cs generalizing r with
  | nil => rfl
  | cons c cs ih =>
    have one : (ofRegistry r source file options).register c =
        ofRegistry (r.register c) source file options := by
      rw [ofRegistry, ofRegistry, register, Registry.tags_register, List.foldl_append]
    rw [List.foldl_cons, one, ih, List.foldl_cons]

/-- The tokens of the source that may begin a construct go by none of the words of the
constructs. -/
def Avoids (source : String) (file : Option String) (cs : List (Construct κ)) : Prop :=
  ∀ t ∈ tokenize source file, t.kind = .identifier ∨ t.kind = .tag ∨ t.kind.isKeyword = true →
    ∀ c ∈ cs, t.tagName ∉ c.tags

/-- A token that constructs are dispatched on begins none of these. -/
def FreeOf (cs : List (Construct κ)) (t : Token) : Prop :=
  Registry.dispatches t = true → ∀ c ∈ cs, t.tagName ∉ c.tags

section Avoids

variable {added : List (Construct κ)} (avoids : Avoids source file added)

include avoids in
/-- Words that a source avoids make no tags of its identifiers. -/
theorem upcoming_foldl_register {r : Registry κ} (same : r.tags = Registry.standard.tags) :
    (ofRegistry (added.foldl Registry.register r) source file .standard).stream.upcoming =
      (ofSource source file .standard).stream.upcoming := by
  obtain ⟨tags, mem, stream⟩ := exists_stream_ofSource source file .standard
  obtain ⟨tags', mem', stream'⟩ :=
    exists_stream_ofRegistry (added.foldl Registry.register r) source file .standard
  rw [stream, stream', TokenStream.upcoming_ofLexer, TokenStream.upcoming_ofLexer]
  refine TaggedLexer.upcoming_congr_tags _ _ fun t lexeme identifier => ?_
  have token : t ∈ tokenize source file := mem_tokenize_iff.mpr ⟨lexeme, by rw [identifier]; rfl⟩
  have other := avoids t token (.inl identifier)
  rw [Lexer.tagName_of_mem_lexemes lexeme identifier] at other
  rw [mem', Registry.mem_tags_foldl_register, same, mem]
  exact or_iff_left fun ⟨c, registered, word⟩ => other c registered word

include avoids in
/-- What comes of a source begins none of the constructs whose words it avoids. -/
theorem freeOf_get_upcoming (i : Nat) :
    FreeOf added ((ofSource source file .standard).stream.upcoming.get i) := by
  obtain ⟨tags, -, stream⟩ := exists_stream_ofSource source file .standard
  rw [stream, TokenStream.upcoming_ofLexer]
  obtain ⟨t, lexeme, other, come⟩ :=
    TaggedLexer.exists_lexeme_of_get (file.getD "shell") .standard tags .start source.toList i
  rw [come]
  intro dispatches
  refine avoids t (mem_tokenize_iff.mpr ⟨lexeme, other⟩) ?_
  by_cases identifier : t.kind = .identifier
  · exact .inl identifier
  · have kept : TaggedLexer.kindAmong tags t.kind t.text = t.kind := by
      rw [TaggedLexer.kindAmong, if_neg fun both => identifier both.1]
    rw [Registry.dispatches, Token.kind_reclassify, kept] at dispatches
    simpa [identifier] using dispatches

end Avoids

/-- A parser over a registry that extends that of the language makes of tokens that are free
what a parser of the language makes of them. -/
theorem unitBy_eq_unit {free : Token → Prop} {p : Parser (ElementKind ⊕ η)} {q : Parser} {k : Nat}
    (own : Registry (ElementKind ⊕ η) → Nat → Level → Grammar.Handler η)
    (inOrder : p.stream.InOrder) (inOrder' : q.stream.InOrder)
    (standard : q.registry = .standard) (extends_ : Registry.Extends free .inl .standard p.registry)
    (come : p.stream.upcoming = q.stream.upcoming) (scene : Scene free k q.stream.upcoming)
    (enough : k + 2 ≤ p.depth) (enough' : k + 2 ≤ q.depth) :
    (p.unitBy (Grammar.withOwn own)).1 = q.unit.1 ∧
      (p.scriptBy (Grammar.withOwn own)).1 = q.script.1 := by
  have same : (Grammar.level .standard q.depth).SameOn free k
      (Grammar.levelBy (Grammar.withOwn own) p.registry p.depth) :=
    Grammar.sameOn_levelBy extends_ (fun _ _ _ _ _ => rfl) (by omega) (by omega)
  have unit : Parse.SameOn free k (Grammar.compilationUnit q.registry q.depth)
      (Grammar.unitOf (Grammar.levelBy (Grammar.withOwn own) p.registry p.depth) p.depth) := by
    rw [standard]
    exact Grammar.sameOn_unitOf same (by omega) (by omega)
  have script : Parse.SameOn free k (Grammar.scriptUnit q.registry q.depth)
      (Grammar.scriptOf (Grammar.levelBy (Grammar.withOwn own) p.registry p.depth) p.depth) := by
    rw [standard]
    exact Grammar.sameOn_scriptOf (Grammar.advancing_level _) same (by omega) (by omega)
  constructor
  · rw [unitBy, (ask_eq_on _ inOrder).1, come, ← unit _ scene]
    exact ((ask_eq_on _ inOrder').1).symm
  · rw [scriptBy, (ask_eq_on _ inOrder).1, come, ← script _ scene]
    exact ((ask_eq_on _ inOrder').1).symm

/-- Registering constructs is a conservative extension. Any constructs may be registered behind
those of the language, one after the other, with any words, also such that the language has
already, and with sorts that anyone handles in any way. Of a source whose identifiers, tags and
reserved words go by none of their words, the parser makes the same unit and the same script as
without them, or fails with the same error at the same position. -/
theorem foldl_register_conservative
    (own : Registry (ElementKind ⊕ η) → Nat → Level → Grammar.Handler η)
    (added : List (Construct (ElementKind ⊕ η))) (source : String) (file : Option String)
    (avoids : Avoids source file added) :
    let p := added.foldl register (ofRegistry (Registry.standard.map .inl) source file .standard)
    (p.unitBy (Grammar.withOwn own)).1 = parse source file ∧
      (p.scriptBy (Grammar.withOwn own)).1 = parseScript source file := by
  have reached : (ofSource source file .standard).Reached source file .standard := .start
  obtain ⟨k, unread, enough⟩ := reached.exists_unread
  have come := upcoming_foldl_register avoids (Registry.tags_map Sum.inl .standard)
  rw [foldl_register_ofRegistry]
  obtain ⟨tags, -, stream⟩ := exists_stream_ofRegistry
    (added.foldl Registry.register (Registry.standard.map .inl)) source file .standard
  have inOrder : (ofRegistry (added.foldl Registry.register (Registry.standard.map .inl)) source
      file .standard).stream.InOrder := by
    rw [stream]
    exact TokenStream.inOrder_ofLexer _
  refine unitBy_eq_unit own inOrder reached.inOrder reached.registry_eq ?_ come
    ⟨freeOf_get_upcoming avoids, k, Nat.le_refl k, unread⟩ ?_ enough
  · exact (Registry.Extends.of_map _ _).foldl_register fun t free => free
  · rw [← come] at unread
    exact Nat.add_le_add_right (inOrder.le_remaining unread) 2

/-- A construct with the tag of modules that fails on everything, registered in front of a
source that has a symbol. -/
theorem foldl_register_conservative_module :
    let c : Construct (ElementKind ⊕ Unit) := ⟨"module", some "type", ["else"], .inr ()⟩
    let own := fun _ _ _ _ (t : Token) () => (failAt t (.expressionMissing t.text) : Parse Element)
    let p := [c].foldl register (ofRegistry (Registry.standard.map .inl) "symbol a.b" none .standard)
    p.registry.candidates "module" ≠ (Registry.standard.map .inl).candidates "module" ∧
      (p.unitBy (Grammar.withOwn own)).1 = parse "symbol a.b" none := by
  intro c own p
  refine ⟨by decide +kernel, ?_⟩
  refine (foldl_register_conservative own [c] "symbol a.b" none ?_).1
  have tokens : ∀ t ∈ tokenize "symbol a.b" none, ∀ d ∈ [c], t.tagName ∉ d.tags := by
    decide +kernel
  exact fun t mem _ => tokens t mem

end Parser

end TagLang
