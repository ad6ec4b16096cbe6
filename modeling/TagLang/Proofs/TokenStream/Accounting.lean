import Mathlib.Data.List.Forall2
import TagLang.Proofs.Lexer.Lexemes
import TagLang.Proofs.TokenStream.Queue

/-!
# What becomes of the tokens

No token is lost between the lexer and those who take tokens from a stream: what was taken
and what the ring holds make up what the lexer has read (`Holds.consumed`). What it reads
are the significant tokens of its source in order, each retagged with the tags registered
by then.
-/

namespace TagLang

/-- The token as it was read from the source, or an identifier that was made a tag. -/
def Token.Retags (raw t : Token) : Prop :=
  t = raw ∨ raw.kind = .identifier ∧ t = raw.reclassify .tag

theorem TaggedLexer.retags_retag (l : TaggedLexer) (t : Token) : Token.Retags t (l.retag t) := by
  unfold retag
  split
  · exact .inr ⟨‹_ ∧ _›.1, rfl⟩
  · exact .inl rfl

namespace Lexer

/-- The tokens of a lexer that are no trivia, and then the one at the end for ever. -/
def significant (l : Lexer) : Stream' Token :=
  (l.readAll.1.filter fun t => !t.kind.isTrivia) ++ₛ Stream'.const l.readAll.2.read.1

variable {file : String} {options : LexerOptions} {place : Place} {text : List Char}

/-- Whichever trivia a lexer drops, the same significant tokens are left. -/
theorem filter_readAll (file : String) (options : LexerOptions) (place : Place)
    (text : List Char) :
    ((before file options place text).readAll.1.filter fun t => !t.kind.isTrivia) =
      (lexemes file place text).filter fun t => !t.kind.isTrivia := by
  have kept (t : Token) : (!options.skips t.kind && !t.kind.isTrivia) = !t.kind.isTrivia := by
    cases skipped : options.skips t.kind with
    | false => rfl
    | true => rw [isTrivia_of_skips skipped]; rfl
  rw [readAll_before, List.filter_filter]
  simp only [Bool.and_comm, kept]

theorem significant_before :
    (before file options place text).significant =
      ((lexemes file place text).filter fun t => !t.kind.isTrivia) ++ₛ
        Stream'.const (tokenAt file (place.after text) []) := by
  rw [significant, filter_readAll, readAll_before, read_before_nil]

theorem significant_of_isTrivia (h : (Lexeme.read text).kind.isTrivia = true) :
    (before file options place text).significant =
      (before file options (place.after (Lexeme.read text).text)
        (Lexeme.read text).rest).significant := by
  have ne : text ≠ [] := by
    rintro rfl
    simp [TokenKind.isTrivia] at h
  rw [significant_before, significant_before, lexemes_of_ne_nil ne, after_lexeme,
    List.filter_cons_of_neg (by simpa [tokenAt] using h)]

theorem significant_of_not_isTrivia (h : ¬ (Lexeme.read text).kind.isTrivia = true) :
    (before file options place text).significant =
      Stream'.cons (tokenAt file place text)
        (before file options (place.after (Lexeme.read text).text)
          (Lexeme.read text).rest).significant := by
  by_cases ne : text = []
  · subst ne
    have last : (before file options place []).significant =
        Stream'.const (tokenAt file place []) := by
      rw [significant_before, lexemes_nil]
      exact (Stream'.const_eq _).symm
    simp only [Lexeme.read_nil, Place.after_nil, last]
    exact Stream'.const_eq _
  · rw [significant_before, significant_before, lexemes_of_ne_nil ne, after_lexeme,
      List.filter_cons_of_pos (by simpa [tokenAt] using h), Stream'.cons_append_stream]

/-- The significant tokens of a source are those of its lexemes, the last of them for ever. -/
theorem exists_significant_eq (source : String) (file : Option String) (options : LexerOptions) :
    ∃ ts e, ((ofSource source file options).readAll.1.filter fun t => !t.kind.isTrivia) =
        ts ++ [e] ∧ e.kind = .eof ∧
      (ofSource source file options).significant = ts ++ₛ Stream'.const e := by
  obtain ⟨ts, all, -⟩ := exists_lexemes_eq (file.getD "shell") .start source.toList
  have kept := filter_readAll (file.getD "shell") options .start source.toList
  rw [all, List.filter_append] at kept
  refine ⟨_, _, kept, rfl, ?_⟩
  rw [significant, ofSource_eq, kept, readAll_before, read_before_nil, Stream'.append_append_stream]
  exact congrArg _ (Stream'.const_eq _).symm

end Lexer

namespace TaggedLexer

/-- Before some text of a source. -/
def Settled (l : TaggedLexer) : Prop :=
  ∃ file options tags place text, l = before file options tags place text

/-- What is read next is the next significant token, retagged by the tags of now. -/
theorem Settled.readSignificant {l : TaggedLexer} (h : l.Settled) :
    ∃ raw, Token.Retags raw l.readSignificant.1 ∧ l.readSignificant.2.Settled ∧
      l.lexer.significant = Stream'.cons raw l.readSignificant.2.lexer.significant := by
  obtain ⟨file, options, tags, place, text, rfl⟩ := h
  have reads {place : Place} {text : List Char} (h : ¬ (Lexeme.read text).kind.isTrivia = true) :
      ∃ raw, Token.Retags raw (before file options tags place text).readSignificant.1 ∧
        (before file options tags place text).readSignificant.2.Settled ∧
        (before file options tags place text).lexer.significant = Stream'.cons raw
          (before file options tags place text).readSignificant.2.lexer.significant := by
    rw [readSignificant_before_of_not_isTrivia h]
    exact ⟨_, retags_retag _ _, ⟨_, _, _, _, _, rfl⟩, Lexer.significant_of_not_isTrivia h⟩
  induction place, text using Lexer.lexeme_induction with
  | nil place => exact reads (by decide)
  | cons place text ne ih =>
    by_cases trivial : (Lexeme.read text).kind.isTrivia = true
    · have same : (before file options tags place text).lexer.significant = _ :=
        Lexer.significant_of_isTrivia trivial
      rw [readSignificant_before_of_isTrivia trivial, same]
      exact ih
    · exact reads trivial

theorem Settled.register {l : TaggedLexer} (h : l.Settled) (tag : String) :
    (l.register tag).Settled ∧ (l.register tag).lexer = l.lexer := by
  obtain ⟨file, options, tags, place, text, rfl⟩ := h
  unfold TaggedLexer.register
  split
  · exact ⟨⟨_, _, _, _, _, rfl⟩, rfl⟩
  · exact ⟨⟨_, _, _, _, _, rfl⟩, rfl⟩

/-- One lexer becomes the other by reading these tokens, with tags registered in between. -/
inductive Draws : TaggedLexer → List Token → TaggedLexer → Prop
  | nothing (l : TaggedLexer) : Draws l [] l
  | read {l l' : TaggedLexer} {ts : List Token} (h : Draws l.readSignificant.2 ts l') :
      Draws l (l.readSignificant.1 :: ts) l'
  | register {l l' : TaggedLexer} {ts : List Token} {tag : String}
      (h : Draws (l.register tag) ts l') : Draws l ts l'

theorem Draws.append {l l' l'' : TaggedLexer} {ts us : List Token} (h : l.Draws ts l')
    (h' : l'.Draws us l'') : l.Draws (ts ++ us) l'' := by
  induction h with
  | nothing => exact h'
  | read _ ih => exact .read (ih h')
  | register _ ih => exact .register (ih h')

/-- The tokens drawn are the next significant tokens, each retagged or not. -/
theorem Draws.significant {l l' : TaggedLexer} {ts : List Token} (h : l.Draws ts l')
    (hl : l.Settled) :
    ∃ raws, List.Forall₂ Token.Retags raws ts ∧
      l.lexer.significant = raws ++ₛ l'.lexer.significant := by
  induction h with
  | nothing => exact ⟨[], .nil, rfl⟩
  | read _ ih =>
    obtain ⟨raw, retags, settled, first⟩ := hl.readSignificant
    obtain ⟨raws, others, behind⟩ := ih settled
    exact ⟨raw :: raws, .cons retags others, by rw [first, behind, Stream'.cons_append_stream]⟩
  | @register l l' ts tag _ ih =>
    obtain ⟨settled, same⟩ := hl.register tag
    rw [← same]
    exact ih settled

end TaggedLexer

namespace TokenStream

/-- The tokens that a parse takes. -/
def taken {α : Type} : Parse α → TokenStream → List Token
  | .done _, _ => []
  | .fail _, _ => []
  | .peek k, s => taken (k s.look.1) s.look.2
  | .peekSecond k, s => taken (k s.lookSecond.1) s.lookSecond.2
  | .take k, s => s.take.1 :: taken (k s.take.1) s.take.2

/-- The tokens that requests consume, in order. -/
def consumed : List Request → TokenStream → List Token
  | [], _ => []
  | r :: rs, s => s.taken (r.parse s.isEmpty) ++ consumed rs (s.answer r).2

variable {s : TokenStream} {ts : List Token}

/-- From what one stream holds, tokens are taken, and what is left is held by the other,
behind the tokens that the lexer has read meanwhile. -/
def Conserves (s : TokenStream) (ts taken : List Token) (s' : TokenStream) : Prop :=
  ∃ us new, s'.Holds us ∧ s.lexer.Draws new s'.lexer ∧ taken ++ us = ts ++ new

theorem conserves_self (h : s.Holds ts) : s.Conserves ts [] s :=
  ⟨ts, [], h, .nothing _, by simp⟩

theorem Conserves.trans {s' s'' : TokenStream} {a b : List Token} (h : s.Conserves ts a s')
    (h' : ∀ us, s'.Holds us → s'.Conserves us b s'') : s.Conserves ts (a ++ b) s'' := by
  obtain ⟨us, new, held, draws, parts⟩ := h
  obtain ⟨vs, more, held', draws', parts'⟩ := h' us held
  refine ⟨vs, new ++ more, held', draws.append draws', ?_⟩
  rw [List.append_assoc, parts', ← List.append_assoc, parts, List.append_assoc]

theorem conserves_push (h : s.Holds ts) (room : ts.length ≤ 1) : s.Conserves ts [] s.push :=
  ⟨_, [s.lexer.readSignificant.1], h.push room, .read (.nothing _), rfl⟩

theorem conserves_look (h : s.Holds ts) : s.Conserves ts [] s.look.2 := by
  cases ts with
  | nil =>
    rw [h.look_of_nil]
    exact conserves_push h (Nat.zero_le _)
  | cons a ts =>
    rw [h.look_of_cons]
    exact conserves_self h

theorem conserves_lookSecond (h : s.Holds ts) : s.Conserves ts [] s.lookSecond.2 := by
  match ts, h with
  | [], h =>
    rw [h.lookSecond_of_nil]
    exact ⟨_, [s.lexer.readSignificant.1, s.push.lexer.readSignificant.1],
      (h.push (Nat.zero_le _)).push (by simp), .read (.read (.nothing _)), rfl⟩
  | [a], h =>
    rw [h.lookSecond_of_singleton]
    exact conserves_push h (by simp)
  | a :: b :: ts, h =>
    rw [h.lookSecond_of_cons_cons]
    exact conserves_self h

theorem conserves_take (h : s.Holds ts) : s.Conserves ts [s.take.1] s.take.2 := by
  cases ts with
  | nil =>
    have last : s.last = s.next := by
      cases h
      assumption
    rw [h.take_of_nil]
    exact ⟨[], [s.lexer.readSignificant.1], .nothing last, .read (.nothing _), rfl⟩
  | cons a ts =>
    rw [h.take_of_cons]
    exact ⟨ts, [], h.vacate, .nothing _, by simp⟩

theorem conserves_run {α : Type} (p : Parse α) (h : s.Holds ts) :
    s.Conserves ts (s.taken p) (s.run p).2 := by
  induction p generalizing s ts with
  | done a => exact conserves_self h
  | fail e => exact conserves_self h
  | peek k ih => exact (conserves_look h).trans fun us held => ih _ held
  | peekSecond k ih => exact (conserves_lookSecond h).trans fun us held => ih _ held
  | take k ih => exact (conserves_take h).trans fun us held => ih _ held

theorem conserves_answer (r : Request) (h : s.Holds ts) :
    s.Conserves ts (s.taken (r.parse s.isEmpty)) (s.answer r).2 := by
  have replies (p : Parse Answer) : s.Conserves ts (s.taken p) (s.reply p).2 := by
    have runs := conserves_run p h
    unfold reply
    split <;> simp_all
  cases r with
  | register tag => exact ⟨ts, [], h.register tag, .register (.nothing _), by simp [taken, Request.parse]⟩
  | _ => exact replies _

theorem conserves_answers (rs : List Request) (h : s.Holds ts) :
    s.Conserves ts (s.consumed rs) (s.answers rs).2 := by
  induction rs generalizing s ts with
  | nil => exact conserves_self h
  | cons r rs ih => exact (conserves_answer r h).trans fun us held => ih held

theorem Holds.exists_look (h : s.Holds ts) : ∃ us, s.look.2.Holds (s.look.1 :: us) := by
  cases ts with
  | nil =>
    rw [h.look_of_nil]
    exact ⟨[], h.push (Nat.zero_le _)⟩
  | cons a ts =>
    rw [h.look_of_cons]
    exact ⟨ts, h⟩

theorem Holds.exists_lookSecond (h : s.Holds ts) :
    ∃ t us, s.lookSecond.2.Holds (t :: s.lookSecond.1 :: us) := by
  match ts, h with
  | [], h =>
    rw [h.lookSecond_of_nil]
    exact ⟨_, [], (h.push (Nat.zero_le _)).push (by simp)⟩
  | [a], h =>
    rw [h.lookSecond_of_singleton]
    exact ⟨a, [], h.push (by simp)⟩
  | a :: b :: ts, h =>
    rw [h.lookSecond_of_cons_cons]
    exact ⟨a, ts, h⟩

/-- What is looked at is what is consumed later, whatever is asked in between. -/
theorem eq_look_of_consumed (h : s.Holds ts) {rs : List Request} {t : Token} {us : List Token}
    (later : s.look.2.consumed rs = t :: us) : t = s.look.1 := by
  obtain ⟨_, held⟩ := h.exists_look
  obtain ⟨_, _, -, -, parts⟩ := conserves_answers rs held
  rw [later] at parts
  exact (List.cons.inj parts).1

theorem eq_lookSecond_of_consumed (h : s.Holds ts) {rs : List Request} {t u : Token}
    {us : List Token} (later : s.lookSecond.2.consumed rs = t :: u :: us) :
    u = s.lookSecond.1 := by
  obtain ⟨_, _, held⟩ := h.exists_lookSecond
  obtain ⟨_, _, -, -, parts⟩ := conserves_answers rs held
  rw [later] at parts
  exact (List.cons.inj (List.cons.inj parts).2).1

/-- A request that fails consumes nothing. -/
theorem consumed_of_failure {r : Request} {e : SyntaxError} (h : (s.answer r).1 = .failure e) :
    s.consumed [r] = [] := by
  cases r with
  | expect kind =>
    by_cases same : s.look.1.kind = kind
    · simp [answer_expect, same] at h
    · simp [consumed, taken, Request.parse, Parse.expect, Parse.look, Parse.failAt, Parse.bind,
        same]
  | expectText kind text =>
    by_cases same : s.look.1.kind = kind ∧ s.look.1.text = text
    · simp [answer_expectText, same] at h
    · simp [consumed, taken, Request.parse, Parse.expectText, Parse.look, Parse.failAt,
        Parse.bind, same]
  | accept kind =>
    rw [answer_accept] at h
    split at h <;> cases h
  | takeBuffered =>
    rw [answer_takeBuffered] at h
    split at h <;> cases h
  | _ => cases h

/-- The slots that are asked for are filled. -/
structure Fills (s : TokenStream) : Prop where
  first : ((s.fill 1).held? 0).isSome = true
  second : ((s.fill 2).held? 1).isSome = true
  looked : (s.fill 1).isEmpty = false
  next : s.isEmpty = false → (s.held? 0).isSome = true

theorem Holds.held?_zero {a : Token} (h : s.Holds (a :: ts)) : s.held? 0 = some a := by
  cases h <;> assumption

theorem Holds.held?_one {a b : Token} (h : s.Holds (a :: b :: ts)) : s.held? 1 = some b := by
  cases h
  assumption

theorem Holds.fills (h : s.Holds ts) : s.Fills where
  first := by
    obtain ⟨_, held⟩ := h.exists_look
    exact Option.isSome_of_mem held.held?_zero
  second := by
    obtain ⟨_, _, held⟩ := h.exists_lookSecond
    exact Option.isSome_of_mem held.held?_one
  looked := by
    obtain ⟨_, held⟩ := h.exists_look
    exact held.isEmpty_eq
  next := by
    intro more
    rw [h.isEmpty_eq] at more
    cases ts with
    | nil => cases more
    | cons a ts => exact Option.isSome_of_mem h.held?_zero

/-- A stream answers requests as a plain queue does, and accounts for every token: those
that are consumed are the significant tokens of the source in order, with the one of its
end for ever; what was looked at is what is consumed later; a request that fails consumes
nothing; and no slot that is asked for is empty. -/
theorem answers_eq_queue (source : String) (file : Option String) (options : LexerOptions)
    (rs : List Request) :
    let lexer := Lexer.ofSource source file options
    let stream := ofLexer (.ofLexer lexer)
    let s := (stream.answers rs).2
    (stream.answers rs).1 = ((TokenQueue.ofLexer (.ofLexer lexer)).answers rs).1 ∧
      (∃ ts e, (lexer.readAll.1.filter fun t => !t.kind.isTrivia) = ts ++ [e] ∧ e.kind = .eof ∧
        List.Forall₂ Token.Retags ((ts ++ₛ Stream'.const e).take (stream.consumed rs).length)
          (stream.consumed rs)) ∧
      (∀ qs t us, s.look.2.consumed qs = t :: us → t = s.look.1) ∧
      (∀ qs t u us, s.lookSecond.2.consumed qs = t :: u :: us → u = s.lookSecond.1) ∧
      (∀ r e, (s.answer r).1 = .failure e → s.consumed [r] = []) ∧ s.Fills := by
  intro lexer stream s
  have start : stream.Holds [] := .nothing rfl
  obtain ⟨us, new, held, draws, parts⟩ := conserves_answers rs start
  refine ⟨((Models.ofLexer _).answers rs).1, ?_, fun _ _ _ => eq_look_of_consumed held,
    fun _ _ _ _ => eq_lookSecond_of_consumed held, fun _ _ => consumed_of_failure, held.fills⟩
  obtain ⟨ts, e, kept, atEnd, significant⟩ := Lexer.exists_significant_eq source file options
  obtain ⟨raws, retags, order⟩ := draws.significant ⟨_, _, _, _, _, rfl⟩
  refine ⟨ts, e, kept, atEnd, ?_⟩
  rw [List.nil_append] at parts
  have enough : (stream.consumed rs).length ≤ raws.length := by
    rw [retags.length_eq, ← parts, List.length_append]
    omega
  have first : (ts ++ₛ Stream'.const e).take (stream.consumed rs).length =
      raws.take (stream.consumed rs).length := by
    rw [← significant]
    exact (congrArg _ order).trans (Stream'.take_append_of_le_length _ _ _ enough)
  rw [first]
  exact List.forall₂_take_append raws _ us (parts ▸ retags)

/-- A word is registered behind a lookahead over it, and another before it is read. -/
theorem answers_eq_queue_registered :
    let stream := ofLexer (.ofLexer (Lexer.ofSource "a b /* - */ a" none ⟨false, false⟩))
    let s := (stream.answers [.register "b", .take]).2
    ∃ t u e, s.look.2.consumed [.register "a", .accept (.mark .comma), .take] = [t] ∧
      t = s.look.1 ∧ s.lookSecond.2.consumed [.register "a", .take, .take] = [t, u] ∧
      u = s.lookSecond.1 ∧ t.kind = .tag ∧ u.kind = .identifier ∧
      (s.answer (.expect .identifier)).1 = .failure e ∧
      s.consumed [.expect .identifier] = [] := by
  intro stream s
  obtain ⟨-, -, looked, lookedSecond, fails, -⟩ :=
    answers_eq_queue "a b /* - */ a" none ⟨false, false⟩ [.register "b", .take]
  let t : Token := ⟨.tag, "b", ⟨"shell", 1, 3⟩⟩
  let u : Token := ⟨.identifier, "a", ⟨"shell", 1, 13⟩⟩
  have first : s.look.2.consumed [.register "a", .accept (.mark .comma), .take] = [t] := by
    decide +kernel
  have both : s.lookSecond.2.consumed [.register "a", .take, .take] = [t, u] := by
    decide +kernel
  have failed : (s.answer (.expect .identifier)).1 =
      .failure ⟨.unexpectedToken .identifier none .tag "b", ⟨"shell", 1, 3⟩⟩ := by
    decide +kernel
  exact ⟨t, u, _, first, looked _ _ _ first, both, lookedSecond _ _ _ _ both, rfl, rfl, failed,
    fails _ _ failed⟩

end TokenStream

end TagLang
