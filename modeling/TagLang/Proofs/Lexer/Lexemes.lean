import Mathlib.Logic.Function.Iterate
import TagLang.Proofs.Lexer.Significant

/-!
# The lexemes of a text

Lexeme by lexeme, a text makes a list of tokens that ends with the empty token of the end
of the file. A lexer of any options reads this list without the tokens it drops, and is
then at the end of the text for ever. The texts of the list make up the source again, so
a lexer that drops nothing loses no character of it, whatever faults it finds.
-/

namespace TagLang

/-- The characters of some tokens, one after the other. -/
def Token.written (ts : List Token) : List Char := ts.flatMap fun t => t.text.toList

namespace Lexer

/-- The tokens of a text at a place, with nothing dropped. -/
def lexemes (file : String) (place : Place) (text : List Char) : List Token :=
  if _h : text = [] then [tokenAt file place []]
  else tokenAt file place text ::
    lexemes file (place.after (Lexeme.read text).text) (Lexeme.read text).rest
termination_by text.length
decreasing_by exact Lexeme.length_rest_read_lt _h

variable {file : String} {options : LexerOptions} {place : Place} {text : List Char}

theorem lexemes_nil : lexemes file place [] = [tokenAt file place []] := by
  rw [lexemes, dif_pos rfl]

theorem lexemes_of_ne_nil (ne : text ≠ []) :
    lexemes file place text = tokenAt file place text ::
      lexemes file (place.after (Lexeme.read text).text) (Lexeme.read text).rest := by
  rw [lexemes, dif_neg ne]

/-- What holds at the end of a text, and of a text if it holds behind its first lexeme. -/
theorem lexeme_induction {P : Place → List Char → Prop} (nil : ∀ place, P place [])
    (cons : ∀ place text, text ≠ [] →
      P (place.after (Lexeme.read text).text) (Lexeme.read text).rest → P place text)
    (place : Place) (text : List Char) : P place text := by
  induction h : text.length using Nat.strongRecOn generalizing place text with
  | ind n ih =>
    subst h
    by_cases ne : text = []
    · exact ne ▸ nil place
    · exact cons place text ne (ih _ (Lexeme.length_rest_read_lt ne) _ _ rfl)

theorem after_lexeme (place : Place) (text : List Char) :
    (place.after (Lexeme.read text).text).after (Lexeme.read text).rest = place.after text := by
  rw [← Place.after_append, Lexeme.text_append_rest_read]

theorem readAll_congr {l l' : Lexer} (h : l.read = l'.read) : l.readAll = l'.readAll := by
  conv_lhs => rw [readAll, h]
  conv_rhs => rw [readAll]

theorem readAll_of_eof {l : Lexer} (h : l.read.1.kind = .eof) :
    l.readAll = ([l.read.1], l.read.2) := by
  rw [readAll, dif_pos h]

theorem readAll_of_ne_eof {l : Lexer} (h : l.read.1.kind ≠ .eof) :
    l.readAll = (l.read.1 :: l.read.2.readAll.1, l.read.2.readAll.2) := by
  rw [readAll, dif_neg h]

/-- At the end of the text a lexer stays where it is. -/
theorem read_before_nil :
    (before file options place []).read = (tokenAt file place [], before file options place []) := by
  rw [read_of_not_skips (by simp [LexerOptions.skips]), token_before, next_before]
  rfl

/-- A lexer reads the lexemes of its text without those it drops, and is then at the end. -/
theorem readAll_before (file : String) (options : LexerOptions) (place : Place)
    (text : List Char) :
    (before file options place text).readAll =
      ((lexemes file place text).filter fun t => !options.skips t.kind,
        before file options (place.after text) []) := by
  induction place, text using lexeme_induction with
  | nil place =>
    rw [readAll_of_eof (by rw [read_before_nil]; rfl), read_before_nil, lexemes_nil]
    rfl
  | cons place text ne ih =>
    rw [lexemes_of_ne_nil ne]
    by_cases skipped : options.skips (Lexeme.read text).kind = true
    · have same : (before file options place text).read = _ := read_of_skips skipped
      rw [readAll_congr same, next_before, ih, after_lexeme, List.filter_cons_of_neg]
      simpa [tokenAt] using skipped
    · have reads : (before file options place text).read = _ := read_of_not_skips skipped
      rw [token_before, next_before] at reads
      have more : (before file options place text).read.1.kind ≠ .eof := by
        rw [reads]
        exact mt Lexeme.kind_read_eq_eof_iff.mp ne
      rw [readAll_of_ne_eof more, reads, ih, after_lexeme, List.filter_cons_of_pos]
      simpa [tokenAt] using skipped

theorem written_lexemes (file : String) (place : Place) (text : List Char) :
    Token.written (lexemes file place text) = text := by
  induction place, text using lexeme_induction with
  | nil place => rw [lexemes_nil]; rfl
  | cons place text ne ih =>
    rw [lexemes_of_ne_nil ne, Token.written, List.flatMap_cons, ← Token.written, ih]
    simp [tokenAt, Lexeme.text_append_rest_read]

/-- The token of the end of the file comes last, and only there, and it alone is empty. -/
theorem exists_lexemes_eq (file : String) (place : Place) (text : List Char) :
    ∃ ts, lexemes file place text = ts ++ [tokenAt file (place.after text) []] ∧
      ∀ t ∈ ts, t.text ≠ "" ∧ t.kind ≠ .eof := by
  induction place, text using lexeme_induction with
  | nil place => exact ⟨[], lexemes_nil, by simp⟩
  | cons place text ne ih =>
    obtain ⟨ts, all, inner⟩ := ih
    refine ⟨tokenAt file place text :: ts, ?_, List.forall_mem_cons.mpr ⟨⟨?_, ?_⟩, inner⟩⟩
    · rw [lexemes_of_ne_nil ne, all, after_lexeme]
      rfl
    · simpa [tokenAt, ← String.toList_eq_nil_iff] using mt Lexeme.text_read_eq_nil_iff.mp ne
    · exact mt Lexeme.kind_read_eq_eof_iff.mp ne

theorem ofSource_eq (source : String) (file : Option String) (options : LexerOptions) :
    ofSource source file options = before (file.getD "shell") options .start source.toList := rfl

theorem filter_skips_nothing (ts : List Token) :
    (ts.filter fun t => !LexerOptions.skips ⟨false, false⟩ t.kind) = ts := by
  refine List.filter_eq_self.mpr fun t _ => ?_
  cases t.kind <;> rfl

/-- A lexer that drops nothing parts a source without loss: the texts of its tokens make up
the source, only the last token is empty and of the end of the file, and that one is read
again for ever. -/
theorem readAll_lossless (source : String) (file : Option String) :
    ∃ ts e l, (ofSource source file ⟨false, false⟩).readAll = (ts ++ [e], l) ∧
      Token.written (ts ++ [e]) = source.toList ∧ (∀ t ∈ ts, t.text ≠ "" ∧ t.kind ≠ .eof) ∧
      e.kind = .eof ∧ e.text = "" ∧ ∀ n, ((fun l : Lexer => l.read.2)^[n] l).read.1 = e := by
  have all := readAll_before (file.getD "shell") ⟨false, false⟩ .start source.toList
  rw [← ofSource_eq, filter_skips_nothing] at all
  have whole := written_lexemes (file.getD "shell") .start source.toList
  obtain ⟨ts, parts, inner⟩ := exists_lexemes_eq (file.getD "shell") .start source.toList
  rw [parts] at all whole
  refine ⟨ts, _, _, all, whole, inner, rfl, rfl, fun n => ?_⟩
  rw [Function.iterate_fixed (by rw [read_before_nil]), read_before_nil]

/-- Options drop white space, and line and block comments, each if they say so. -/
theorem skips_eq (options : LexerOptions) (kind : TokenKind) :
    options.skips kind = (options.skipWhiteSpace && kind == .whiteSpace ||
      options.skipComments && (kind == .lineComment || kind == .blockComment)) := by
  cases kind <;> simp [LexerOptions.skips]

/-- Options only filter: what is read is what a lexer that drops nothing reads, the same
tokens at the same positions, without the white space and the comments that the options
name. Documentation, unclosed comments and the end of the file stay whatever they say, and
the lexer comes to the same place. -/
theorem readAll_options (source : String) (file : Option String) (options : LexerOptions) :
    let whole := (ofSource source file ⟨false, false⟩).readAll
    let kept := (ofSource source file options).readAll
    let staying := fun t : Token => t.kind == .documentation ||
      t.kind == .fault .unclosedBlockComment || t.kind == .eof
    kept.1 = whole.1.filter (fun t => !(options.skipWhiteSpace && t.kind == .whiteSpace) &&
        !(options.skipComments && (t.kind == .lineComment || t.kind == .blockComment))) ∧
      kept.1.filter staying = whole.1.filter staying ∧
      kept.2 = { whole.2 with options := options } := by
  intro whole kept staying
  have wholly := readAll_before (file.getD "shell") ⟨false, false⟩ .start source.toList
  have partly := readAll_before (file.getD "shell") options .start source.toList
  rw [← ofSource_eq, filter_skips_nothing] at wholly
  rw [← ofSource_eq] at partly
  have dropped : kept.1 = whole.1.filter fun t => !options.skips t.kind := by
    rw [show kept.1 = _ from congrArg Prod.fst partly,
      show whole.1 = _ from congrArg Prod.fst wholly]
  refine ⟨?_, ?_, ?_⟩
  · simp only [dropped, skips_eq, Bool.not_or]
  · -- no option drops what stays, so filtering by both is filtering by the second
    rw [dropped, List.filter_filter]
    refine List.filter_congr fun t _ => ?_
    cases h : t.kind <;> simp [staying, LexerOptions.skips, h]
  · rw [show kept.2 = _ from congrArg Prod.snd partly,
      show whole.2 = _ from congrArg Prod.snd wholly]
    rfl

end Lexer

end TagLang
