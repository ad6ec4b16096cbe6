import TagLang.Lexeme.Basic

/-!
# Comments, code, templates and regular expressions

These run to the first place where their terminator stands. Without one they
take all that is left, a regular expression all that is left of its line.
-/

namespace TagLang.Lexeme

/-- Take a text through the first place where the terminator stands, if any. -/
def through? (terminator : List Char) : List Char → Option Cut
  | [] => if terminator.isPrefixOf [] then some (Cut.nothing []) else none
  | c :: r =>
    if terminator.isPrefixOf (c :: r) then
      some ⟨terminator, (c :: r).drop terminator.length⟩
    else (through? terminator r).map (Cut.after [c])

/-- A lexeme from its opening delimiter through the first terminator, or else to
the end of the text. -/
def delimited (opening terminator : List Char) (closed : TokenKind) (unclosed : LexicalFault)
    (s : List Char) : Lexeme :=
  match through? terminator s with
  | some body => ofCut closed (body.after opening)
  | none => ⟨.fault unclosed, opening ++ s, []⟩

/-- The code literal after a back-tick. -/
def code (s : List Char) : Lexeme := delimited ['\x60'] ['\x60'] (.literal .code) .unclosedCode s

/-- The template after three braces. -/
def template (s : List Char) : Lexeme :=
  delimited ['{', '{', '{'] ['}', '}', '}'] (.literal .template) .unclosedTemplate s

/-- Whether a block comment documents: a second star opens it that does not close it. -/
def documents : List Char → Bool
  | '*' :: '/' :: _ => false
  | '*' :: _ => true
  | _ => false

/-- The comment after a slash and a star. -/
def blockComment (s : List Char) : Lexeme :=
  delimited ['/', '*'] ['*', '/'] (if documents s then .documentation else .blockComment)
    .unclosedBlockComment s

/-- The comment after two slashes, up to the end of the line. -/
def lineComment (s : List Char) : Lexeme :=
  ofCut .lineComment ((Cut.run (· != '\n') s).after ['/', '/'])

/-- The flags after a regular expression. -/
def isRegularExpressionFlag (c : Char) : Bool := c == 'i' || c == 'g' || c == 'm'

/-- The regular expression after a tilde and a slash. -/
def regularExpression (s : List Char) : Lexeme :=
  let pattern := Cut.run (fun c => c != '/' && c != '\n' && c != '\r') s
  match pattern.rest with
  | '/' :: r =>
    ofCut (.literal .regularExpression)
      ((Cut.run isRegularExpressionFlag r).after (['~', '/'] ++ pattern.text ++ ['/']))
  | _ => ofCut (.fault .unclosedRegularExpression) (pattern.after ['~', '/'])

theorem of_through? {terminator s : List Char} {x : Cut} (h : through? terminator s = some x) :
    x.Of s := by
  induction s generalizing x with
  | nil =>
    unfold through? at h
    split at h <;> cases h
    rfl
  | cons c r ih =>
    unfold through? at h
    split at h
    · rename_i hp
      obtain ⟨t, ht⟩ := List.isPrefixOf_iff_prefix.mp hp
      cases h
      simp [Cut.Of, ← ht]
    · obtain ⟨y, hy, rfl⟩ := Option.map_eq_some_iff.mp h
      exact (ih hy).after [c]

theorem splits_delimited {opening : List Char} (ne : opening ≠ []) (terminator : List Char)
    (closed : TokenKind) (unclosed : LexicalFault) (s : List Char) :
    (delimited opening terminator closed unclosed s).Splits (opening ++ s) := by
  unfold delimited
  split
  · rename_i body hb
    exact splits_ofCut ((of_through? hb).after opening) (by simp [ne])
  · exact ⟨by simp, by simp [ne]⟩

theorem splits_lineComment (s : List Char) : (lineComment s).Splits ('/' :: '/' :: s) :=
  splits_ofCut ((Cut.of_run _ _).after ['/', '/']) (by simp)

theorem splits_regularExpression (s : List Char) :
    (regularExpression s).Splits ('~' :: '/' :: s) := by
  have pattern := Cut.of_run (fun c => c != '/' && c != '\n' && c != '\r') s
  unfold regularExpression
  dsimp only
  split
  · rename_i r hr
    refine splits_ofCut ?_ (by simp)
    have flags := (Cut.of_run isRegularExpressionFlag r).after ['/']
    rw [List.singleton_append, ← hr] at flags
    have joined := (pattern.under flags).after ['~', '/']
    simpa [Cut.after, List.append_assoc] using joined
  · exact splits_ofCut (pattern.after ['~', '/']) (by simp)

end TagLang.Lexeme
