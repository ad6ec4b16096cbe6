import TagLang.Proofs.Lexeme.Signed
import TagLang.Proofs.Lexer.Lexemes

/-!
# Texts with a hash in front of tags

A tag of the language may be spelled with a `#` or without. Where a `#` is put in front of
some of the tags that have none, the text has the same tokens in the same lines: each of the
chosen ones has become a hash tag, and all others are spelled as they were.
-/

namespace TagLang

namespace Token

/-- The token as the language has it: an identifier that is registered is a tag. -/
def classified (t : Token) : Token :=
  t.reclassify (TaggedLexer.kindAmong Registry.standard.tags t.kind t.text)

/-- A lexeme that is a tag of the language is registered, or it is spelled with a `#`. -/
theorem tag_cases {t : Token} {s : List Char} (kind : t.kind = (Lexeme.read s).kind)
    (text : t.text.toList = (Lexeme.read s).text) (tag : t.classified.kind = .tag) :
    t.kind = .identifier ∧ t.text ∈ Registry.standard.tags ∨ t.text.toList.head? = some '#' := by
  by_cases registered : t.kind = .identifier ∧ Registry.standard.tags.contains t.text = true
  · exact .inl ⟨registered.1, List.contains_iff_mem.mp registered.2⟩
  · have raw : t.classified.kind = t.kind := if_neg registered
    rw [text]
    exact .inr (Lexeme.head?_text_of_tag (kind.symm.trans (raw.symm.trans tag)))

/-- A tag that is spelled without a `#`. -/
def isBareTag (t : Token) : Bool := t.kind == .tag && t.text.toList.head? != some '#'

/-- A chosen tag that is spelled without a `#`. -/
def isPicked (chosen : Token → Bool) (t : Token) : Bool := t.isBareTag && chosen t

/-- The characters of a token, behind a `#` if it is a chosen tag without one. -/
def signed (chosen : Token → Bool) (t : Token) : List Char :=
  if t.isPicked chosen then '#' :: t.text.toList else t.text.toList

/-- The second token is the first one behind a `#` if that is a chosen tag without one, and is
spelled like the first one otherwise. It stands in the same line of the same file. -/
structure SignedTo (chosen : Token → Bool) (t t' : Token) : Prop where
  kind : t'.kind = t.kind
  text : t'.text.toList = t.signed chosen
  file : t'.position.file = t.position.file
  line : t'.position.line = t.position.line

end Token

namespace Lexer

/-- The first token of a text, as the language has it. -/
def classifiedAt (file : String) (place : Place) (text : List Char) : Token :=
  (tokenAt file place text).classified

/-- A text at a place with a `#` in front of the chosen ones of its tags that have none. -/
def signed (chosen : Token → Bool) (file : String) (place : Place) (text : List Char) :
    List Char :=
  (lexemes file place text).flatMap fun t => t.classified.signed chosen

variable {chosen : Token → Bool} {file : String} {place : Place} {text : List Char}

theorem signed_nil : signed chosen file place [] = [] := by
  rw [signed, lexemes_nil, List.flatMap_singleton]
  rfl

theorem signed_of_ne_nil (ne : text ≠ []) :
    signed chosen file place text = (classifiedAt file place text).signed chosen ++
      signed chosen file (place.after (Lexeme.read text).text) (Lexeme.read text).rest := by
  rw [signed, lexemes_of_ne_nil ne, List.flatMap_cons]
  rfl

theorem text_classifiedAt :
    (classifiedAt file place text).text.toList = (Lexeme.read text).text := String.toList_ofList

/-- A tag without a `#` is an identifier that is registered. -/
theorem identifier_of_isBareTag (bare : (classifiedAt file place text).isBareTag = true) :
    (Lexeme.read text).kind = .identifier := by
  rw [Token.isBareTag, Bool.and_eq_true, beq_iff_eq, bne_iff_ne] at bare
  obtain ⟨tag, plain⟩ := bare
  rcases Token.tag_cases (t := tokenAt file place text) rfl String.toList_ofList tag with is | hash
  · exact is.1
  · exact absurd hash plain

theorem signs_signed (chosen : Token → Bool) (file : String) (place : Place) (text : List Char) :
    Signs text (signed chosen file place text) := by
  induction place, text using lexeme_induction with
  | nil place =>
    rw [signed_nil]
    exact .same
  | cons place text ne ih =>
    rw [signed_of_ne_nil ne, Token.signed, text_classifiedAt]
    split
    · rename_i picked
      refine .sign (List.nil_append text).symm (Lexeme.exists_letter_of_identifier ?_)
      exact identifier_of_isBareTag (Bool.and_eq_true_iff.mp picked).1
    · have whole := ih.behind (Lexeme.read text).text
      rwa [Lexeme.text_append_rest_read] at whole

/-- The first lexeme of the signed text is the signed first lexeme. It comes to the same kind,
and behind it stands the signed rest. -/
theorem read_signed (chosen : Token → Bool) (file : String) (place : Place) (ne : text ≠ []) :
    ∃ kind, Lexeme.read (signed chosen file place text) =
        ⟨kind, (classifiedAt file place text).signed chosen,
          signed chosen file (place.after (Lexeme.read text).text) (Lexeme.read text).rest⟩ ∧
      TaggedLexer.kindAmong Registry.standard.tags kind
          (String.ofList ((classifiedAt file place text).signed chosen)) =
        (classifiedAt file place text).kind := by
  have reads := Lexeme.read_append_of_signs ne (signs_signed chosen file
    (place.after (Lexeme.read text).text) (Lexeme.read text).rest)
  rw [signed_of_ne_nil ne, Token.signed, text_classifiedAt]
  split
  · rename_i picked
    have bare := (Bool.and_eq_true_iff.mp picked).1
    refine ⟨.tag, ?_, (beq_iff_eq.mp (Bool.and_eq_true_iff.mp bare).1).symm⟩
    rw [List.cons_append, Lexeme.read_hash, reads]
    · rfl
    · rw [reads]
      exact identifier_of_isBareTag bare
  · exact ⟨(Lexeme.read text).kind, reads, rfl⟩

theorem signed_ne_nil (ne : text ≠ []) : signed chosen file place text ≠ [] := by
  intro empty
  obtain ⟨kind, reads, -⟩ := read_signed chosen file place ne
  have nothing := (congrArg Lexeme.text reads).symm
  rw [empty, Lexeme.read_nil, Token.signed, text_classifiedAt] at nothing
  split at nothing
  · cases nothing
  · exact ne (Lexeme.text_read_eq_nil_iff.mp nothing)

/-- No line break is put into a text. -/
theorem count_signed (t : Token) :
    (t.signed chosen).count '\n' = t.text.toList.count '\n' := by
  rw [Token.signed]
  split
  · exact List.count_cons_of_ne (by decide)
  · rfl

/-- Token by token, a text and the signed text have the same tokens in the same lines, and the
chosen tags have a `#` in front. -/
theorem signedTo_lexemes (chosen : Token → Bool) (file : String) (place place' : Place)
    (line : place'.line = place.line) (text : List Char) :
    List.Forall₂ (Token.SignedTo chosen) ((lexemes file place text).map .classified)
      ((lexemes file place' (signed chosen file place text)).map .classified) := by
  induction place, text using lexeme_induction generalizing place' with
  | nil place =>
    rw [signed_nil, lexemes_nil, lexemes_nil]
    exact .cons ⟨rfl, rfl, rfl, line⟩ .nil
  | cons place text ne ih =>
    obtain ⟨kind, reads, same⟩ := read_signed chosen file place ne
    rw [lexemes_of_ne_nil ne, lexemes_of_ne_nil (signed_ne_nil ne), reads]
    refine .cons ⟨?_, ?_, rfl, line⟩ (ih _ ?_)
    · rw [← classifiedAt, ← classifiedAt, ← same, classifiedAt, Token.classified, tokenAt, reads]
      rfl
    · rw [← classifiedAt, text_classifiedAt, reads]
      rfl
    · rw [Place.line_after, Place.line_after, count_signed, text_classifiedAt, line]

end Lexer

end TagLang
