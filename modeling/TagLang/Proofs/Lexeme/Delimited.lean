import TagLang.Proofs.Lexeme.Enclosed

/-!
# The first terminator

Comments, code and templates end at the first place where their terminator stands, and are
unclosed exactly if it stands nowhere. A regular expression ends at the first slash of its
line, with the flags behind it, and a line comment in front of the line feed. What each of
them is comes from the text alone: a body, a terminator and what follows.
-/

namespace TagLang

/-- The terminator stands in the text between the body and the rest, and nowhere earlier. -/
structure FirstAt (terminator s body rest : List Char) : Prop where
  whole : s = body ++ terminator ++ rest
  first : ∀ b r, s = b ++ terminator ++ r → body.length ≤ b.length

namespace Lexeme

/-- What is read between delimiters: all through the first terminator, or else all. -/
inductive Delimits (opening terminator : List Char) (closed : TokenKind) (unclosed : LexicalFault)
    (s : List Char) : Lexeme → Prop
  | closed {body rest : List Char} (ends : FirstAt terminator s body rest) :
    Delimits opening terminator closed unclosed s ⟨closed, opening ++ body ++ terminator, rest⟩
  | unclosed (never : ¬ terminator <:+: s) :
    Delimits opening terminator closed unclosed s ⟨.fault unclosed, opening ++ s, []⟩

/-- What is read behind the two slashes of a comment: all in front of the first line feed. -/
inductive RunsOverLine (s : List Char) : Lexeme → Prop
  | mk {body rest : List Char} (whole : s = body ++ rest) (line : '\n' ∉ body)
    (stop : ∀ c ∈ rest.head?, c = '\n') :
    RunsOverLine s ⟨.lineComment, ['/', '/'] ++ body, rest⟩

/-- What is read behind the beginning of a regular expression: all through the first slash
of the line and the longest run of flags behind it, or else the line. -/
inductive RunsToSlash (s : List Char) : Lexeme → Prop
  | closed {body flags rest : List Char} (ends : FirstAt ['/'] s body (flags ++ rest))
    (line : ∀ c ∈ body, c ≠ '\n' ∧ c ≠ '\r') (flagged : ∀ c ∈ flags, c ∈ ['i', 'g', 'm'])
    (stop : ∀ c ∈ rest.head?, c ∉ ['i', 'g', 'm']) :
    RunsToSlash s ⟨.literal .regularExpression, ['~', '/'] ++ body ++ ['/'] ++ flags, rest⟩
  | unclosed {body rest : List Char} (whole : s = body ++ rest)
    (line : ∀ c ∈ body, c ≠ '/' ∧ c ≠ '\n' ∧ c ≠ '\r') (stop : ∀ c ∈ rest.head?, c = '\n' ∨ c = '\r') :
    RunsToSlash s ⟨.fault .unclosedRegularExpression, ['~', '/'] ++ body, rest⟩

variable {terminator s : List Char}

/-- The search ends at the first terminator. -/
theorem firstAt_of_through? {x : Cut} (found : through? terminator s = some x) :
    ∃ body, x.text = body ++ terminator ∧ FirstAt terminator s body x.rest := by
  induction s generalizing x with
  | nil =>
    unfold through? at found
    split at found
    · rename_i empty
      obtain rfl := List.prefix_nil.mp (List.isPrefixOf_iff_prefix.mp empty)
      cases found
      exact ⟨[], rfl, rfl, fun b r _ => Nat.zero_le _⟩
    · cases found
  | cons c s ih =>
    unfold through? at found
    split at found
    · rename_i here
      have begins := List.prefix_iff_eq_append.mp (List.isPrefixOf_iff_prefix.mp here)
      cases found
      exact ⟨[], rfl, begins.symm, fun b r _ => Nat.zero_le _⟩
    · rename_i later
      obtain ⟨y, hy, rfl⟩ := Option.map_eq_some_iff.mp found
      obtain ⟨body, text, whole, first⟩ := ih hy
      refine ⟨c :: body, by simp [text], congrArg (c :: ·) whole, fun b r split => ?_⟩
      cases b with
      | nil =>
        have here : terminator <+: c :: s := ⟨r, by simpa using split.symm⟩
        exact absurd (List.isPrefixOf_iff_prefix.mpr here) later
      | cons d b => exact Nat.succ_le_succ (first b r (List.cons.inj split).2)

/-- The search fails only if the terminator stands nowhere. -/
theorem not_infix_of_through? (none : through? terminator s = none) : ¬ terminator <:+: s := by
  induction s with
  | nil =>
    unfold through? at none
    split at none
    · cases none
    · rename_i other
      rw [List.infix_nil]
      rintro rfl
      exact other rfl
  | cons c s ih =>
    unfold through? at none
    split at none
    · cases none
    · rename_i other
      rw [List.infix_cons_iff, not_or]
      exact ⟨mt List.isPrefixOf_iff_prefix.mpr other, ih (Option.map_eq_none_iff.mp none)⟩

theorem delimits_delimited (opening terminator : List Char) (closed : TokenKind)
    (unclosed : LexicalFault) (s : List Char) :
    Delimits opening terminator closed unclosed s
      (delimited opening terminator closed unclosed s) := by
  unfold delimited
  cases found : through? terminator s with
  | none => exact .unclosed (not_infix_of_through? found)
  | some x =>
    obtain ⟨body, text, ends⟩ := firstAt_of_through? found
    have read : (⟨closed, opening ++ body ++ terminator, x.rest⟩ : Lexeme) =
        ofCut closed (x.after opening) := by
      rw [ofCut, Cut.text_after, text, List.append_assoc, Cut.rest_after]
    show Delimits _ _ _ _ s (ofCut closed (x.after opening))
    rw [← read]
    exact .closed ends

theorem documents_iff : documents s = true ↔ ['*'] <+: s ∧ ¬ ['*', '/'] <+: s := by
  simp only [← List.isPrefixOf_iff_prefix]
  match s with
  | [] => decide
  | [c] =>
    by_cases star : c = '*'
    · subst star
      decide
    · simp [documents, star, Ne.symm star]
  | c :: d :: s =>
    by_cases star : c = '*'
    · subst star
      by_cases slash : d = '/'
      · simp [documents, slash]
      · simp [documents, slash, Ne.symm slash]
    · simp [documents, star, Ne.symm star]

/-- What a run stops at is not in its class. -/
theorem eq_false_of_head? {p : Char → Bool} {c : Char} (stop : s.head?.any p = false)
    (mem : c ∈ s.head?) : p c = false := by
  rwa [Option.mem_def.mp mem] at stop

theorem runsOverLine_lineComment (s : List Char) : RunsOverLine s (lineComment s) := by
  have whole := Cut.of_run (· != '\n') s
  have line := List.all_eq_true.mp (Cut.all_run (· != '\n') s)
  have stop := Cut.stops_run (· != '\n') s
  rw [lineComment]
  generalize Cut.run (· != '\n') s = x at whole line stop ⊢
  obtain ⟨body, rest⟩ := x
  refine .mk (Eq.symm whole) (fun mem => absurd (line _ mem) (by decide)) fun c mem => ?_
  simpa using eq_false_of_head? stop mem

/-- A slash behind a run without one is the first. -/
theorem firstAt_slash {body rest : List Char} (plain : '/' ∉ body) :
    FirstAt ['/'] (body ++ '/' :: rest) body rest := by
  refine ⟨by simp, fun b r split => ?_⟩
  rw [List.append_assoc, List.singleton_append] at split
  by_contra shorter
  have begins : b ++ ['/'] <+: body ++ '/' :: rest := by
    refine ⟨r, ?_⟩
    rw [split, List.append_assoc, List.singleton_append]
  have inside : b ++ ['/'] <+: body := by
    refine List.prefix_of_prefix_length_le begins (List.prefix_append _ _) ?_
    rw [List.length_append, List.length_singleton]
    omega
  exact plain (inside.subset (by simp))

/-- The flags take the longest run of their letters. -/
theorem exists_flags (r : List Char) : ∃ flags rest, Cut.run isRegularExpressionFlag r = ⟨flags, rest⟩ ∧
    flags ++ rest = r ∧ (∀ c ∈ flags, c ∈ ['i', 'g', 'm']) ∧ ∀ c ∈ rest.head?, c ∉ ['i', 'g', 'm'] := by
  have flagged := List.all_eq_true.mp (Cut.all_run isRegularExpressionFlag r)
  have stop := Cut.stops_run isRegularExpressionFlag r
  refine ⟨_, _, rfl, Cut.of_run _ r, fun c mem => ?_, fun c mem => ?_⟩
  · simpa [isRegularExpressionFlag, or_assoc] using flagged c mem
  · simpa [isRegularExpressionFlag, and_assoc] using eq_false_of_head? stop mem

theorem runsToSlash_regularExpression (s : List Char) : RunsToSlash s (regularExpression s) := by
  have whole := Cut.of_run (fun c => c != '/' && c != '\n' && c != '\r') s
  have plain := List.all_eq_true.mp (Cut.all_run (fun c => c != '/' && c != '\n' && c != '\r') s)
  have stop := Cut.stops_run (fun c => c != '/' && c != '\n' && c != '\r') s
  unfold regularExpression
  generalize Cut.run (fun c => c != '/' && c != '\n' && c != '\r') s = x at whole plain stop ⊢
  obtain ⟨body, rest⟩ := x
  obtain rfl : body ++ rest = s := whole
  have line : ∀ c ∈ body, c ≠ '/' ∧ c ≠ '\n' ∧ c ≠ '\r' := fun c mem => by
    simpa [and_assoc] using plain c mem
  dsimp only
  split
  · rename_i r
    obtain ⟨flags, rest, cut, rfl, flagged, unflagged⟩ := exists_flags r
    rw [cut]
    refine .closed ?_ (fun c mem => (line c mem).2) flagged unflagged
    exact firstAt_slash fun slash => (line _ slash).1 rfl
  · rename_i other
    refine .unclosed rfl line fun c mem => ?_
    obtain ⟨r, rfl⟩ := List.head?_eq_some_iff.mp (Option.mem_def.mp mem)
    have apart : c ≠ '/' := by
      rintro rfl
      exact other r rfl
    have stop : (c != '/' && c != '\n' && c != '\r') = false := stop
    simpa [apart, or_iff_not_imp_left] using stop

end Lexeme

end TagLang
