import TagLang.Proofs.Lexeme.Isolated
import TagLang.Proofs.Lexer.Lexemes

/-!
# Tokens read again

The texts of neighbouring tokens, one on a line each, are lexed to the same tokens again
(`exists_tokenize_run`). Each text is read up to its line break, since its lexeme is the
same in front of one, and the line breaks between the texts are dropped. Only the last
token of a source may go on over a line break, and it stands last again.
-/

namespace TagLang

namespace Token

/-- What a token says apart from where it stands. -/
def face (t : Token) : TokenKind × String := (t.kind, t.text)

/-- The texts of some tokens with a line break between each two of them. -/
def onLines (ts : List Token) : String := "\n".intercalate (ts.map Token.text)

/-- The text of the token is read as the token again, in front of a line break if it is not
the last text. -/
structure Rereads (t : Token) (isLast : Prop) : Prop where
  kind_eof : t.kind ≠ .eof
  kind_trivia : t.kind.isTrivia = false
  read : ∀ s, Breaks s → (isLast → s = []) →
    Lexeme.read (t.text.toList ++ s) = ⟨t.kind, t.text.toList, s⟩

/-- Each of the tokens is read again, the last one perhaps only at the end. -/
def Reread : List Token → Prop
  | [] => True
  | t :: ts => t.Rereads (ts = []) ∧ Reread ts

variable {t : Token} {ts us : List Token}

theorem Rereads.mono {p q : Prop} (h : t.Rereads p) (imp : p → q) : t.Rereads q :=
  ⟨h.kind_eof, h.kind_trivia, fun s breaks last => h.read s breaks (last ∘ imp)⟩

theorem Reread.left (h : Reread (ts ++ us)) : Reread ts := by
  induction ts with
  | nil => trivial
  | cons t ts ih =>
    exact ⟨h.1.mono fun last => (List.append_eq_nil_iff.mp last).1, ih h.2⟩

theorem Reread.right (h : Reread (ts ++ us)) : Reread us := by
  induction ts with
  | nil => exact h
  | cons t ts ih => exact ih h.2

/-- Neighbouring tokens are read again on their own. -/
theorem Reread.among (h : Reread us) (part : ts <:+: us) : Reread ts := by
  obtain ⟨pre, post, rfl⟩ := part
  exact h.left.right

/-- What stands behind the text of a token in front of the others. -/
def behind : List Token → List Char
  | [] => []
  | ts => '\n' :: (onLines ts).toList

theorem onLines_cons (t : Token) (ts : List Token) :
    (onLines (t :: ts)).toList = t.text.toList ++ behind ts := by
  cases ts <;> simp [onLines, behind, String.toList_intercalate]

theorem breaks_behind (ts : List Token) : Breaks (behind ts) := by
  cases ts with
  | nil => exact .nil
  | cons u ts => exact .cons _

theorem Reread.read_onLines (h : Reread (t :: ts)) :
    Lexeme.read (onLines (t :: ts)).toList = ⟨t.kind, t.text.toList, behind ts⟩ := by
  rw [onLines_cons]
  exact h.1.read _ (breaks_behind ts) fun last => by rw [last]; rfl

end Token

namespace Lexer

open Token (Reread behind face onLines)

variable {file : String} {place : Place}

/-- The tokens of a text that are no trivia. -/
def kept (file : String) (place : Place) (text : List Char) : List Token :=
  (lexemes file place text).filter fun t => !t.kind.isTrivia

theorem tokenize_eq (source : String) (file : Option String) :
    tokenize source file = kept (file.getD "shell") .start source.toList := by
  rw [tokenize, ofSource_eq, readAll_before]
  simp only [skips_standard]
  rfl

theorem kept_nil : kept file place [] = [tokenAt file place []] := by
  rw [kept, lexemes_nil]
  rfl

theorem kept_of_trivia {text : List Char} (trivia : (Lexeme.read text).kind.isTrivia = true) :
    kept file place text =
      kept file (place.after (Lexeme.read text).text) (Lexeme.read text).rest := by
  have ne : text ≠ [] := by
    rintro rfl
    cases trivia
  rw [kept, lexemes_of_ne_nil ne, List.filter_cons_of_neg (by simpa [tokenAt] using trivia)]
  rfl

theorem kept_of_not_trivia {text : List Char} (ne : text ≠ [])
    (trivia : (Lexeme.read text).kind.isTrivia = false) :
    kept file place text = tokenAt file place text ::
      kept file (place.after (Lexeme.read text).text) (Lexeme.read text).rest := by
  rw [kept, lexemes_of_ne_nil ne, List.filter_cons_of_pos (by simpa [tokenAt] using trivia)]
  rfl

/-- The tokens of a text are read again from what they are written as. -/
theorem exists_kept_eq (file : String) (place : Place) (text : List Char) :
    ∃ ts, kept file place text = ts ++ [tokenAt file (place.after text) []] ∧ Reread ts := by
  induction place, text using lexeme_induction with
  | nil place => exact ⟨[], kept_nil, trivial⟩
  | cons place text ne ih =>
    obtain ⟨ts, rest, inner⟩ := ih
    rw [after_lexeme] at rest
    by_cases trivia : (Lexeme.read text).kind.isTrivia = true
    · exact ⟨ts, (kept_of_trivia trivia).trans rest, inner⟩
    · have trivia := Bool.eq_false_iff.mpr trivia
      refine ⟨tokenAt file place text :: ts, ?_, ⟨?_, trivia, fun s breaks last => ?_⟩, inner⟩
      · rw [kept_of_not_trivia ne trivia, rest]
        rfl
      · exact mt Lexeme.kind_read_eq_eof_iff.mp ne
      · have isLast : (Lexeme.read text).rest = [] → s = [] := by
          intro none
          rw [none, kept_nil] at rest
          exact last (by simpa using congrArg List.length rest)
        simpa [tokenAt, Lexeme.before] using Lexeme.read_before ne trivia breaks isLast

/-- The kinds and texts of the tokens of a text that are no trivia. -/
def faces (file : String) (place : Place) (text : List Char) : List (TokenKind × String) :=
  (kept file place text).map face

/-- A line break in front of a lexeme that is no trivia is dropped. -/
theorem faces_of_break {text : List Char} (trivia : (Lexeme.read text).kind.isTrivia = false) :
    faces file place ('\n' :: text) = faces file (place.after ['\n']) text := by
  have solid : text.head?.any isBlank = false := by
    cases text with
    | nil => rfl
    | cons c text =>
      refine Bool.eq_false_iff.mpr fun blank => ?_
      have blank : isBlank c = true := blank
      rw [Lexeme.read, if_pos blank] at trivia
      cases trivia
  have reads : Lexeme.read ('\n' :: text) = ⟨.whiteSpace, ['\n'], text⟩ := by
    have blank : isBlank '\n' = true := rfl
    rw [Lexeme.read, if_pos blank, Lexeme.blanks, ← List.singleton_append,
      Cut.run_append rfl solid]
    rfl
  rw [faces, kept_of_trivia (by rw [reads]; rfl), reads]
  rfl

/-- The texts of tokens that are read again, on a line each, have the same tokens. -/
theorem faces_onLines {ts : List Token} (h : Reread ts) (file : String) (place : Place) :
    faces file place (onLines ts).toList = ts.map face ++ [(.eof, "")] := by
  induction ts generalizing place with
  | nil =>
    have none : (onLines []).toList = [] := rfl
    rw [faces, none, kept_nil]
    rfl
  | cons t ts ih =>
    have reads := h.read_onLines
    have more : (onLines (t :: ts)).toList ≠ [] := by
      rw [Ne, ← Lexeme.kind_read_eq_eof_iff, reads]
      exact h.1.kind_eof
    have rest (place : Place) : faces file place (behind ts) = ts.map face ++ [(.eof, "")] := by
      cases ts with
      | nil =>
        rw [behind, faces, kept_nil]
        rfl
      | cons u ts =>
        have trivia : (Lexeme.read (onLines (u :: ts)).toList).kind.isTrivia = false := by
          rw [h.2.read_onLines]
          exact h.2.1.kind_trivia
        exact (faces_of_break trivia).trans (ih h.2 _)
    rw [faces, kept_of_not_trivia more (by rw [reads]; exact h.1.kind_trivia), reads,
      List.map_cons, ← faces, rest]
    simp [tokenAt, reads, face]

theorem kind_of_reread {ts : List Token} (h : Reread ts) :
    ∀ t ∈ ts, t.kind = (Lexeme.read t.text.toList).kind := by
  induction ts with
  | nil => exact fun _ mem => nomatch mem
  | cons t ts ih =>
    refine List.forall_mem_cons.mpr ⟨?_, ih h.2⟩
    have alone := h.1.read [] .nil fun _ => rfl
    rw [List.append_nil] at alone
    rw [alone]

/-- The text of a token alone says of what kind it is, whatever surrounds it. -/
theorem kind_of_mem_tokenize {source : String} {file : Option String} {t : Token}
    (mem : t ∈ tokenize source file) : t.kind = (Lexeme.read t.text.toList).kind := by
  obtain ⟨ts, all, reread⟩ := exists_kept_eq (file.getD "shell") .start source.toList
  rw [tokenize_eq, all, List.mem_append, List.mem_singleton] at mem
  rcases mem with mem | rfl
  · exact kind_of_reread reread t mem
  · rfl

/-- The tokens of any source end with that of the end of the file, and neighbours among the
others, written on a line each, are lexed to tokens of the same kinds and texts. -/
theorem exists_tokenize_run (source : String) (file : Option String) :
    ∃ ts e, tokenize source file = ts ++ [e] ∧ e.kind = .eof ∧ e.text = "" ∧
      ∀ run, run <:+: ts → ∀ label,
        (tokenize (onLines run) label).map face = run.map face ++ [(.eof, "")] := by
  obtain ⟨ts, all, reread⟩ := exists_kept_eq (file.getD "shell") .start source.toList
  rw [← tokenize_eq] at all
  refine ⟨ts, _, all, rfl, rfl, fun run part label => ?_⟩
  rw [tokenize_eq]
  exact faces_onLines (reread.among part) _ _

end Lexer

end TagLang
