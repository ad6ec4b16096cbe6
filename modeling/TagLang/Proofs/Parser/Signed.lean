import TagLang.Proofs.Lexer.Reading
import TagLang.Proofs.Lexer.Signed
import TagLang.Proofs.Parser.Unread
import TagLang.Proofs.Unit.Parallel
import TagLang.Proofs.Unit.Same
import TagLang.Proofs.Unit.Soundness

/-!
# Tags with and without a hash

A tag may be spelled with a `#` or without, each by itself. If a `#` is put in front of any of
the tags of a source that have none, the tokens are in pairs with those of the source, and what
is parsed corresponds: the same unit but for the `#` and for columns, or an error of the same
sort at the same token.
-/

namespace TagLang

open Stream'

namespace Token

variable {chosen : Token → Bool} {t t' : Token}

theorem isTrivia_classified (t : Token) : t.classified.kind.isTrivia = t.kind.isTrivia := by
  have retagged := TaggedLexer.isTrivia_retag ⟨default, Registry.standard.tags⟩ t
  rwa [TaggedLexer.retag_eq] at retagged

theorem tagName_of_hash {w : List Char} (h : t.text.toList = '#' :: w) :
    t.tagName = String.ofList w := by
  rw [tagName, h]
  rfl

theorem tagName_of_plain (h : t.text.toList.head? ≠ some '#') : t.tagName = t.text := by
  rw [tagName]
  split
  · rename_i w hash
    rw [hash] at h
    exact absurd rfl h
  · rfl

/-- A signed token is the same as before without the `#` and the column. -/
theorem SignedTo.bare (h : t.SignedTo chosen t') : t.bare = t'.bare := by
  have text := h.text
  have name : (if t.kind = .tag then t.tagName else t.text) =
      if t.kind = .tag then t'.tagName else t'.text := by
    rw [signed] at text
    split at text
    · rename_i picked
      obtain ⟨tag, plain⟩ := Bool.and_eq_true_iff.mp (Bool.and_eq_true_iff.mp picked).1
      rw [if_pos (beq_iff_eq.mp tag), if_pos (beq_iff_eq.mp tag), tagName_of_hash text,
        tagName_of_plain (bne_iff_ne.mp plain), String.ofList_toList]
    · have same : t.text = t'.text := String.toList_injective text.symm
      rw [tagName, tagName, same]
  rw [Token.bare, Token.bare, h.kind, name, h.file, h.line]

end Token

variable {source : String} {file : Option String} {options : LexerOptions}

/-- The tokens of a parser of the language are the lexemes of its source without those that its
options drop, with registered identifiers as tags. -/
theorem readAll_ofSource (source : String) (file : Option String) (options : LexerOptions) :
    (Parser.ofSource source file options).stream.lexer.readAll.1 =
      ((Lexer.lexemes (file.getD "shell") .start source.toList).filter
        fun t => !options.skips t.kind).map .classified := by
  obtain ⟨tags, same, stream⟩ := Parser.exists_stream_ofSource source file options
  have retag (t : Token) :
      (TaggedLexer.before (file.getD "shell") options tags .start source.toList).retag t =
        t.classified := by
    rw [TaggedLexer.retag_eq, Token.classified]
    exact congrArg _ (TaggedLexer.kindAmong_congr same _ _)
  rw [stream]
  show (Lexer.before _ _ _ _).readAll.1.map _ = _
  rw [Lexer.readAll_before]
  exact List.map_congr_left fun t _ => retag t

/-- Tags are registered or spelled with a `#`. -/
theorem properTag_of_mem_taggedTokens {t : Token} (mem : t ∈ taggedTokens source file) :
    t.ProperTag := by
  intro tag
  rw [taggedTokens, readAll_ofSource] at mem
  obtain ⟨u, lexeme, rfl⟩ := List.mem_map.mp mem
  have read : u ∈ (Lexer.ofSource source file .standard).readAll.1 := by
    rw [Lexer.ofSource_eq, Lexer.readAll_before]
    exact lexeme
  obtain ⟨s, kind, text⟩ := Lexer.exists_read_of_mem_readAll read
  rcases Token.tag_cases kind text tag with registered | hash
  · exact .inl registered.2
  · exact .inr hash

/-- The source with a `#` in front of the chosen ones of its tags that are spelled without. -/
def sign (chosen : Token → Bool) (source : String) (file : Option String) : String :=
  String.ofList ((Parser.ofSource source file ⟨false, false⟩).stream.lexer.readAll.1.flatMap
    fun t => t.signed chosen)

example : sign (fun t => t.position.line = 2) "if x\nelse #if y end\n1if" none =
    "if x\n#else #if y end\n1if" := by
  decide +kernel

theorem toList_sign (chosen : Token → Bool) (source : String) (file : Option String) :
    (sign chosen source file).toList =
      Lexer.signed chosen (file.getD "shell") .start source.toList := by
  rw [sign, String.toList_ofList, readAll_ofSource, Lexer.filter_skips_nothing, List.flatMap_map]
  rfl

/-- The tokens of a source and of the signed source are in pairs. -/
theorem signedTo_taggedTokens (chosen : Token → Bool) (source : String) (file : Option String) :
    List.Forall₂ (Token.SignedTo chosen) (taggedTokens source file)
      (taggedTokens (sign chosen source file) file) := by
  rw [taggedTokens, taggedTokens, readAll_ofSource, readAll_ofSource, toList_sign]
  have whole := Lexer.signedTo_lexemes chosen (file.getD "shell") .start .start rfl source.toList
  rw [List.forall₂_map_left_iff, List.forall₂_map_right_iff] at whole ⊢
  refine List.rel_filter (fun t t' signed => ?_) whole
  have kind := congrArg TokenKind.isTrivia signed.kind
  rw [Token.isTrivia_classified, Token.isTrivia_classified] at kind
  simp only [Lexer.skips_standard, kind]

namespace Parser

/-- What is parsed may be read off the tokens ahead with any bound above their number. -/
theorem parse_eq_on (source : String) (file : Option String) :
    ∃ k, ∀ n, k ≤ n →
      parse source file = ((Grammar.unitOf (Grammar.level .standard n) n).on
        (ofSource source file .standard).stream.upcoming).1 ∧
      parseScript source file = ((Grammar.scriptOf (Grammar.level .standard n) n).on
        (ofSource source file .standard).stream.upcoming).1 := by
  have reached : (ofSource source file .standard).Reached source file .standard := .start
  obtain ⟨k, unread, deep⟩ := reached.exists_unread
  refine ⟨k + 2, fun n room => ?_⟩
  have scene : Scene (fun _ => True) k (ofSource source file .standard).stream.upcoming :=
    ⟨fun _ => trivial, k, Nat.le_refl k, unread⟩
  have same : (Grammar.level .standard (ofSource source file .standard).depth).SameOn
      (fun _ => True) k (Grammar.levelBy Grammar.elementOf .standard n) :=
    Grammar.sameOn_levelBy (.refl _) (fun _ _ _ _ _ => rfl) (by omega) (by omega)
  constructor
  · rw [parse, unit, unitBy, (ask_eq_on _ reached.inOrder).1]
    exact congrArg Prod.fst (Grammar.sameOn_unitOf same (by omega) (by omega) _ scene)
  · rw [parseScript, script, scriptBy, (ask_eq_on _ reached.inOrder).1]
    have advances := Grammar.advancing_level (ofSource source file .standard).depth
    exact congrArg Prod.fst
      (Grammar.sameOn_scriptOf advances same (by omega) (by omega) _ scene)

end Parser

/-- Lists of one length, each with a token repeated behind it, are in pairs as they were before
that token was repeated. -/
theorem get_mem_zip {ts us : List Token} (length : ts.length = us.length) (e e' : Token)
    (n : Nat) : ((ts ++ₛ const e).get n, (us ++ₛ const e').get n) ∈
      (ts ++ [e]).zip (us ++ [e']) := by
  rw [List.zip_append length, List.mem_append]
  by_cases inside : n < ts.length
  · left
    rw [get_append_left _ _ _ inside, get_append_left _ _ _ (length ▸ inside)]
    have here : n < (ts.zip us).length := by
      rw [List.length_zip]
      omega
    rw [← List.getElem_zip (h := here)]
    exact List.getElem_mem here
  · right
    obtain ⟨m, rfl⟩ := Nat.exists_eq_add_of_le (Nat.le_of_not_lt inside)
    rw [get_append_right, length, get_append_right]
    exact List.mem_singleton_self _

/-- Tags may be spelled with a `#` or without, each by itself. Let a `#` be put in front of any
of the tags of a source that are spelled without one. The tokens are the same in the same lines
but for these `#`. A script, and a unit, is parsed from the one source exactly if it is from the
other, and then they are equal once the `#` of tags and the columns are dropped; if neither is
parsed, the errors are of the same sort and stand at the same token of the sequence. -/
theorem sign_parse_congr (chosen : Token → Bool) (source : String) (file : Option String) :
    let signed := sign chosen source file
    let joins := fun t t' => (t, t') ∈ (taggedTokens source file).zip (taggedTokens signed file)
    List.Forall₂ (Token.SignedTo chosen) (taggedTokens source file) (taggedTokens signed file) ∧
      Parse.Corresponds joins (CompilationUnit.map .bare) (parseScript source file)
        (parseScript signed file) ∧
      Parse.Corresponds joins (CompilationUnit.map .bare) (parse source file)
        (parse signed file) := by
  intro signed joins
  have pairs : List.Forall₂ _ _ (taggedTokens signed file) :=
    signedTo_taggedTokens chosen source file
  let m : Token.Pairing := {
    joins
    bare pair := ((List.forall₂_iff_zip.mp pairs).2 pair).bare
    proper pair := ⟨properTag_of_mem_taggedTokens (List.of_mem_zip pair).1,
      properTag_of_mem_taggedTokens (List.of_mem_zip pair).2⟩ }
  obtain ⟨ts, e, all, -, -, ahead⟩ := exists_taggedTokens_eq source file
  obtain ⟨us, e', all', -, -, ahead'⟩ := exists_taggedTokens_eq signed file
  have length : ts.length = us.length := by
    have same := pairs.length_eq
    rw [all, all', List.length_append, List.length_append] at same
    exact Nat.succ.inj same
  have joined (n : Nat) : m.joins ((Parser.ofSource source file .standard).stream.upcoming.get n)
      ((Parser.ofSource signed file .standard).stream.upcoming.get n) := by
    have here := get_mem_zip length e e' n
    rwa [← ahead, ← ahead', ← all, ← all'] at here
  obtain ⟨k, enough⟩ := Parser.parse_eq_on source file
  obtain ⟨k', enough'⟩ := Parser.parse_eq_on signed file
  obtain ⟨unit, script⟩ := enough (k + k') (Nat.le_add_right k k')
  obtain ⟨unit', script'⟩ := enough' (k + k') (Nat.le_add_left k' k)
  have level := Grammar.parallel_level (m := m) (k + k')
  rw [unit, unit', script, script']
  exact ⟨pairs, (Grammar.parallel_scriptOf level _).corresponds joined,
    (Grammar.parallel_unitOf level _).corresponds joined⟩

end TagLang
