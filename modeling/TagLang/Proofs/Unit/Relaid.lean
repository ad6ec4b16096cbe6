import TagLang.Proofs.Element.Relaid
import TagLang.Proofs.Unit.Soundness

/-!
# Sources in another layout

What comes of a source depends on the kinds and texts of its tokens, and of all that its
layout says only on one thing: whether a name that stands next after a `return` is on a later
line. White space, comments and line breaks have no other influence.
-/

namespace TagLang

/-- For every `return` in front of a name, whether the name is on a later line. -/
def returnBreaks : List Token → List Bool
  | t :: u :: ts =>
    if t.tagName = "return" ∧ u.kind = .identifier then
      decide (t.position.line < u.position.line) :: returnBreaks (u :: ts)
    else returnBreaks (u :: ts)
  | _ => []

/-- What is said of two lists is said of their first two tokens and of what follows the
first. -/
theorem returnBreaks_cons {t u t' u' : Token} {ts us : List Token} (same : t.erase = t'.erase)
    (sameNext : u.erase = u'.erase)
    (breaks : returnBreaks (t :: u :: ts) = returnBreaks (t' :: u' :: us)) :
    (t.tagName = "return" → u.kind = .identifier →
      (t.position.line < u.position.line ↔ t'.position.line < u'.position.line)) ∧
      returnBreaks (u :: ts) = returnBreaks (u' :: us) := by
  have tag : t.tagName = t'.tagName :=
    Token.tagName_eq_of_text (Token.erase_eq_iff.mp same).2
  have kind := (Token.erase_eq_iff.mp sameNext).1
  rw [returnBreaks, returnBreaks, ← tag, ← kind] at breaks
  split at breaks
  · obtain ⟨first, others⟩ := List.cons.inj breaks
    exact ⟨fun _ _ => decide_eq_decide.mp first, others⟩
  · rename_i other
    exact ⟨fun isReturn name => absurd ⟨isReturn, name⟩ other, breaks⟩

theorem later_iff_of_returnBreaks {n : Nat} {ts us : List Token}
    (faces : ts.map Token.erase = us.map Token.erase) (breaks : returnBreaks ts = returnBreaks us)
    (hn : n + 1 < ts.length) (hn' : n + 1 < us.length)
    (isReturn : ts[n].tagName = "return") (name : ts[n + 1].kind = .identifier) :
    ts[n].position.line < ts[n + 1].position.line ↔
      us[n].position.line < us[n + 1].position.line := by
  induction n generalizing ts us with
  | zero =>
      match ts, us, hn, hn' with
      | t :: u :: ts, t' :: u' :: us, _, _ =>
        obtain ⟨same, others⟩ := List.cons.inj faces
        exact (returnBreaks_cons same (List.cons.inj others).1 breaks).1 isReturn name
  | succ n ih =>
      match ts, us, hn, hn' with
      | t :: u :: ts, t' :: u' :: us, hn, hn' =>
        obtain ⟨same, others⟩ := List.cons.inj faces
        have behind := (returnBreaks_cons same (List.cons.inj others).1 breaks).2
        exact ih others behind (Nat.lt_of_succ_lt_succ hn) (Nat.lt_of_succ_lt_succ hn') isReturn name

open Parse Stream'

namespace Grammar

variable {n n' k : Nat} {s s' : Stream' Token}

theorem agrees_use (relaid : Relaid k s s') (room : k < n) (room' : k < n') :
    (use n).Agrees (use n') s s' (Further k Use.erase) := by
  refine agrees_look_bind ?_
  show (if s.head.kind == .word .useWord then _ else _ : Parse (Option Use)).Agrees
    (if s'.head.kind == .word .useWord then _ else _ : Parse (Option Use)) s s' _
  rw [← relaid.head_kind]
  split
  · rename_i same
    have kind : s.head.kind = .word .useWord := by simpa using same
    refine (relaid.agrees_next (by simp [kind])).bind ?_
    rintro tag tag' t t' ⟨sameTag, j, lt, left⟩
    refine (agrees_path left (by omega) (by omega)).bind ?_
    rintro name name' u u' ⟨sameName, left⟩
    refine (left.agrees_accept (by decide)).bind ?_
    rintro renamed _ v v' ⟨rfl, left⟩
    cases renamed with
    | false =>
        refine agrees_done (.goes ?_ lt left)
        simp only [Use.erase, sameTag, sameName, Option.map_none]
    | true =>
        obtain ⟨i, less, left⟩ := left
        refine (left.agrees_expect (by decide)).map ?_
        rintro synonym synonym' w w' ⟨sameSynonym, i', lesser, left⟩
        refine .goes ?_ (by omega) left
        simp only [Use.erase, sameTag, sameName, Option.map_some, sameSynonym]
  · exact agrees_done (.stops relaid)

theorem agrees_uses (relaid : Relaid k s s') (room : k < n) (room' : k < n') :
    (uses n).Agrees (uses n') s s' (Kept k (List.map Use.erase)) := by
  refine agrees_gather ?_ room room' relaid rfl
  intro j le t t' relaid
  exact agrees_use relaid (by omega) (by omega)

/-- The end of a source is the same on both sides. -/
theorem agrees_end (relaid : Relaid k s s') :
    (expect .eof).Agrees (expect .eof) s s' fun e e' _ _ => e.erase = e'.erase := by
  refine agrees_look_bind ?_
  rw [← relaid.head_kind, ← relaid.head_text]
  split
  · exact relaid.erase 0
  · exact agrees_fail rfl

theorem agrees_compilationUnit (relaid : Relaid k s s') (room : k + 1 < n) (room' : k + 1 < n') :
    (compilationUnit .standard n).Agrees (compilationUnit .standard n') s s' fun u u' _ _ =>
      u.erase = u'.erase := by
  refine (agrees_uses relaid (by omega) (by omega)).bind ?_
  rintro uses uses' t t' ⟨sameUses, left⟩
  refine ((agrees_level n n').element k (by omega) t t' left).bind ?_
  rintro element element' u u' ⟨sameElement, j, lt, left⟩
  refine (agrees_end left).map ?_
  rintro eof eof' v v' sameEof
  simp only [CompilationUnit.erase, sameUses, List.map_cons, List.map_nil, sameElement, sameEof]

theorem agrees_scriptUnit (relaid : Relaid k s s') (room : k + 1 < n) (room' : k + 1 < n') :
    (scriptUnit .standard n).Agrees (scriptUnit .standard n') s s' fun u u' _ _ =>
      u.erase = u'.erase := by
  refine (agrees_uses relaid (by omega) (by omega)).bind ?_
  rintro uses uses' t t' ⟨sameUses, left⟩
  have round : ∀ j ≤ k, ∀ u u', Relaid j u u' →
      (furtherTopLevel (level .standard n)).Agrees (furtherTopLevel (level .standard n')) u u'
        (Further j Element.erase) := by
    intro j le u u' relaid
    refine agrees_look_bind ?_
    show (if u.head.kind == .eof then done none
        else (level .standard n).element.bind fun e => done (some e)).Agrees
      (if u'.head.kind == .eof then done none
        else (level .standard n').element.bind fun e => done (some e)) u u' _
    rw [← relaid.head_kind]
    split
    · exact agrees_done (.stops relaid)
    · refine ((agrees_level n n').element j (by omega) u u' relaid).map ?_
      rintro e e' v v' ⟨same, i, lt, left⟩
      exact .goes same lt left
  refine (agrees_gather round (by omega) (by omega) left rfl).bind ?_
  rintro elements elements' u u' ⟨sameElements, left⟩
  refine (agrees_end left).map ?_
  rintro eof eof' v v' sameEof
  simp only [CompilationUnit.erase, sameUses, sameElements, sameEof]

end Grammar

namespace Relaid

/-- Lists of tokens that agree without positions and at each `return`, each with the token at
its end repeated, are laid out differently. -/
theorem of_lists {ts us : List Token} {e e' : Token}
    (faces : (ts ++ [e]).map Token.erase = (us ++ [e']).map Token.erase)
    (breaks : returnBreaks (ts ++ [e]) = returnBreaks (us ++ [e'])) (last : e.kind = .eof) :
    Relaid ts.length (ts ++ₛ const e) (us ++ₛ const e') := by
  have length : ts.length = us.length := by
    have same := congrArg List.length faces
    simpa using same
  obtain ⟨front, ends⟩ : ts.map Token.erase = us.map Token.erase ∧ e.erase = e'.erase := by
    rw [List.map_append, List.map_append] at faces
    obtain ⟨front, ends⟩ := List.append_inj faces (by simpa using length)
    exact ⟨front, List.singleton_inj.mp ends⟩
  have repeated (ws : List Token) (d : Token) : ws ++ₛ const d = (ws ++ [d]) ++ₛ const d := by
    rw [append_append_stream, append_eq_cons, ← const_eq]
  refine ⟨?_, ?_, ?_⟩
  · intro n
    by_cases hn : n < ts.length
    · rw [get_append_left _ _ _ hn, get_append_left _ _ _ (length ▸ hn)]
      have same := congrArg (·[n]?) front
      simpa [hn, length ▸ hn] using same
    · obtain ⟨m, rfl⟩ : ∃ m, n = ts.length + m := ⟨n - ts.length, by omega⟩
      rw [get_append_right, length, get_append_right]
      exact ends
  · intro n isReturn name
    by_cases hn : n + 1 < (ts ++ [e]).length
    · have hn' : n + 1 < (us ++ [e']).length := by simpa [length] using hn
      rw [repeated ts, get_append_left _ _ _ hn] at name ⊢
      rw [repeated ts, get_append_left _ _ _ (by omega)] at isReturn
      rw [get_append_left _ _ _ (by omega : n < (ts ++ [e]).length), repeated us,
        get_append_left _ _ _ hn', get_append_left _ _ _ (by omega : n < (us ++ [e']).length)]
      exact later_iff_of_returnBreaks faces breaks hn hn' isReturn name
    · obtain ⟨m, hm⟩ : ∃ m, n + 1 = ts.length + m := by
        refine ⟨n + 1 - ts.length, ?_⟩
        simp only [List.length_append, List.length_singleton] at hn
        omega
      rw [hm, get_append_right, get_const, last] at name
      cases name
  · intro n hn
    obtain ⟨m, rfl⟩ : ∃ m, n = ts.length + m := ⟨n - ts.length, by omega⟩
    rw [get_append_right]
    exact last

end Relaid

/-- A lexer reads at most one token for each character that is left, and the end. -/
theorem Lexer.length_readAll_le (l : Lexer) : l.readAll.1.length ≤ l.unread + 1 := by
  induction h : l.unread using Nat.strongRecOn generalizing l with
  | ind n ih =>
      subst h
      rw [readAll]
      split
      · exact Nat.succ_le_succ (Nat.zero_le _)
      · rename_i goesOn
        have less := unread_read_lt goesOn
        have rest := ih _ less l.read.2 rfl
        rw [List.length_cons]
        omega

theorem length_taggedTokens_lt_depth (source : String) (file : Option String) :
    (taggedTokens source file).length < (Parser.ofSource source file .standard).depth := by
  have le := Lexer.length_readAll_le (Parser.ofSource source file .standard).stream.lexer.lexer
  rw [taggedTokens, TaggedLexer.readAll, List.length_map, Parser.depth, TokenStream.remaining]
  omega

/-- What comes of a parse, without positions. -/
def erased (outcome : Except SyntaxError CompilationUnit) : Except SyntaxError CompilationUnit :=
  (outcome.map .erase).mapError .erase

theorem erased_ask_eq_of_agrees {p p' : Parser} {parse parse' : Parse CompilationUnit}
    (inOrder : p.stream.InOrder) (inOrder' : p'.stream.InOrder)
    (agrees : parse.Agrees parse' p.stream.upcoming p'.stream.upcoming fun u u' _ _ =>
      u.erase = u'.erase) :
    erased (p.ask parse).1 = erased (p'.ask parse').1 := by
  rw [(Parser.ask_eq_on parse inOrder).1, (Parser.ask_eq_on parse' inOrder').1]
  rw [Agrees] at agrees
  split at agrees
  · rename_i u t u' t' run run'
    rw [run, run']
    exact congrArg Except.ok agrees
  · rename_i e t e' t' run run'
    obtain ⟨cause, position⟩ := e
    obtain ⟨cause', position'⟩ := e'
    cases agrees
    rw [run, run']
    rfl
  · cases agrees

/-- Two sources have the same tokens without positions, and after each `return` a name that
comes next is on a later line in both or in neither. Then both are parsed to the same unit,
or both fail for the same cause, without positions. -/
theorem erased_parse_congr {source source' : String} {file file' : Option String}
    (faces : (taggedTokens source file).map Token.erase =
      (taggedTokens source' file').map Token.erase)
    (breaks : returnBreaks (taggedTokens source file) =
      returnBreaks (taggedTokens source' file')) :
    erased (parseScript source file) = erased (parseScript source' file') ∧
      erased (parse source file) = erased (parse source' file') := by
  obtain ⟨ts, e, all, -, last, ahead⟩ := exists_taggedTokens_eq source file
  obtain ⟨us, e', all', -, -, ahead'⟩ := exists_taggedTokens_eq source' file'
  have reached : (Parser.ofSource source file .standard).Reached source file .standard := .start
  have reached' : (Parser.ofSource source' file' .standard).Reached source' file' .standard := .start
  have room := length_taggedTokens_lt_depth source file
  have room' := length_taggedTokens_lt_depth source' file'
  have length := congrArg List.length faces
  rw [all, all'] at faces breaks length
  rw [all, List.length_append, List.length_singleton] at room
  rw [all', List.length_append, List.length_singleton] at room'
  simp only [List.length_map, List.length_append, List.length_singleton] at length
  have relaid := Relaid.of_lists faces breaks last
  rw [← ahead, ← ahead'] at relaid
  constructor
  · exact erased_ask_eq_of_agrees reached.inOrder reached'.inOrder
      (Grammar.agrees_scriptUnit relaid room (by omega))
  · exact erased_ask_eq_of_agrees reached.inOrder reached'.inOrder
      (Grammar.agrees_compilationUnit relaid room (by omega))

/-- A name on a later line than the `return` before it annotates an element in both layouts. -/
theorem erased_parse_congr_comments :
    (taggedTokens "function f ( )\nreturn\nlate return x end" none).map Token.erase =
        (taggedTokens "function f()  // starts\n\n  return /* nothing */\n  late\n return x\nend"
          none).map Token.erase ∧
      erased (parseScript "function f ( )\nreturn\nlate return x end" none) =
        erased (parseScript
          "function f()  // starts\n\n  return /* nothing */\n  late\n return x\nend" none) := by
  have faces : (taggedTokens "function f ( )\nreturn\nlate return x end" none).map Token.erase =
      (taggedTokens "function f()  // starts\n\n  return /* nothing */\n  late\n return x\nend"
        none).map Token.erase := by
    decide +kernel
  have breaks : returnBreaks (taggedTokens "function f ( )\nreturn\nlate return x end" none) =
      returnBreaks (taggedTokens
        "function f()  // starts\n\n  return /* nothing */\n  late\n return x\nend" none) := by
    decide +kernel
  exact ⟨faces, (erased_parse_congr faces breaks).1⟩

end TagLang
