import TagLang.Literal.Value
import TagLang.Proofs.Lexeme.Replaced
import TagLang.Proofs.Unicode.Ascii

/-!
# Versions and their text

A version is written in one way, and its text is read back as the parts it is written from:
`Version.ofText?` is the inverse of `Version.written` on versions whose labels it admits.
Which characters a label may have is a parameter, so that a grammar with other labels is
compared part by part.
-/

namespace TagLang

namespace Version

/-- A nonempty text of characters that satisfy `p`. -/
def IsRun (p : Char → Bool) (w : List Char) : Prop := w ≠ [] ∧ w.all p = true

/-- A label behind its introducer; nothing where there is none. -/
def labelled (introducer : Char) : Option String → List Char
  | none => []
  | some w => introducer :: w.toList

/-- The labels of a version as they are written. -/
def labels (v : Version) : List Char :=
  labelled '-' v.prerelease ++ labelled '+' v.build

/-- The characters that a version is written with. -/
def written (v : Version) : List Char :=
  v.major.toList ++ '.' :: (v.minor.toList ++ '.' :: (v.patch.toList ++ v.labels))

/-- The parts have digits and underscores, and the labels characters that satisfy `p`. -/
structure Fits (p : Char → Bool) (v : Version) : Prop where
  major : IsRun isPartChar v.major.toList
  minor : IsRun isPartChar v.minor.toList
  patch : IsRun isPartChar v.patch.toList
  prerelease : ∀ w ∈ v.prerelease, IsRun p w.toList
  build : ∀ w ∈ v.build, IsRun p w.toList

variable {p : Char → Bool} {introducer : Char} {w r s : List Char} {label : Option String}
  {v : Version}

theorem run?_eq_some_iff :
    run? p s = some (w, r) ↔ s = w ++ r ∧ IsRun p w ∧ r.head?.any p = false := by
  unfold run?
  constructor
  · intro h
    split at h
    · cases h
    · rename_i ne
      cases h
      exact ⟨List.takeWhile_append_dropWhile.symm, ⟨ne, List.all_takeWhile⟩, Cut.stops_run p s⟩
  · rintro ⟨rfl, ⟨ne, all⟩, stop⟩
    obtain ⟨taken, left⟩ := Cut.mk.inj (Cut.run_append all stop)
    rw [taken, left, if_neg ne]

theorem dotPart?_eq_some_iff :
    dotPart? s = some (w, r) ↔
      s = '.' :: (w ++ r) ∧ IsRun isPartChar w ∧ r.head?.any isPartChar = false := by
  constructor
  · intro h
    unfold dotPart? at h
    split at h
    · obtain ⟨rfl, run, stop⟩ := run?_eq_some_iff.mp h
      exact ⟨rfl, run, stop⟩
    · cases h
  · rintro ⟨rfl, run, stop⟩
    exact run?_eq_some_iff.mpr ⟨rfl, run, stop⟩

theorem of_label? {label : Option (List Char)} (h : label? introducer s = some (label, r)) :
    s = labelled introducer (label.map String.ofList) ++ r ∧
      ∀ w ∈ label.map String.ofList, IsRun isLabelChar w.toList := by
  cases s with
  | nil =>
    cases h
    exact ⟨rfl, fun w mem => nomatch mem⟩
  | cons c s =>
    rw [label?] at h
    split at h
    · rename_i here
      obtain ⟨⟨w, rest⟩, run, same⟩ := Option.map_eq_some_iff.mp h
      cases same
      obtain ⟨rfl, run, -⟩ := run?_eq_some_iff.mp run
      rw [show c = introducer by simpa using here]
      simpa [labelled] using run
    · cases h
      exact ⟨rfl, fun w mem => nomatch mem⟩

theorem label?_labelled (runs : ∀ w ∈ label, IsRun isLabelChar w.toList)
    (stop : r.head?.any isLabelChar = false) (apart : introducer ∉ r.head?) :
    label? introducer (labelled introducer label ++ r) = some (label.map String.toList, r) := by
  cases label with
  | none =>
    cases r with
    | nil => rfl
    | cons c r =>
      have other : ¬ (c == introducer) = true := by
        simpa using apart
      exact if_neg other
  | some w =>
    have run : run? isLabelChar (w.toList ++ r) = some (w.toList, r) :=
      run?_eq_some_iff.mpr ⟨rfl, runs w rfl, stop⟩
    rw [labelled, List.cons_append, label?, if_pos (beq_self_eq_true _), run]
    rfl

/-- Behind a part or a label comes an introducer, which belongs to neither. -/
theorem stops_labelled {i : Char} (apart : p i = false) (stop : r.head?.any p = false) :
    (labelled i label ++ r).head?.any p = false := by
  cases label with
  | none => exact stop
  | some w => exact apart

theorem stops_labels (dash : p '-' = false) (plus : p '+' = false) :
    v.labels.head?.any p = false := by
  have build : (labelled '+' v.build).head?.any p = false := by
    rw [← List.append_nil (labelled _ _)]
    exact stops_labelled plus rfl
  exact stops_labelled dash build

theorem label?_labels (fits : v.Fits isLabelChar) :
    label? '-' v.labels = some (v.prerelease.map String.toList, labelled '+' v.build) ∧
      label? '+' (labelled '+' v.build) = some (v.build.map String.toList, []) := by
  have apart : '-' ∉ (labelled '+' v.build).head? := by
    cases v.build <;> simp [labelled]
  have stop : (labelled '+' v.build).head?.any isLabelChar = false := by
    cases v.build <;> rfl
  have build : label? '+' (labelled '+' v.build ++ []) = some (v.build.map String.toList, []) :=
    label?_labelled fits.build rfl fun mem => nomatch mem
  rw [List.append_nil] at build
  exact ⟨label?_labelled fits.prerelease stop apart, build⟩

/-- A version whose labels fit is read back from its text. -/
theorem ofText?_written (fits : v.Fits isLabelChar) : ofText? v.written = some v := by
  have major : run? isPartChar v.written =
      some (v.major.toList, '.' :: (v.minor.toList ++ '.' :: (v.patch.toList ++ v.labels))) :=
    run?_eq_some_iff.mpr ⟨rfl, fits.major, rfl⟩
  have minor : dotPart? ('.' :: (v.minor.toList ++ '.' :: (v.patch.toList ++ v.labels))) =
      some (v.minor.toList, '.' :: (v.patch.toList ++ v.labels)) :=
    dotPart?_eq_some_iff.mpr ⟨rfl, fits.minor, rfl⟩
  have patch : dotPart? ('.' :: (v.patch.toList ++ v.labels)) = some (v.patch.toList, v.labels) :=
    dotPart?_eq_some_iff.mpr ⟨rfl, fits.patch, stops_labels rfl rfl⟩
  obtain ⟨prerelease, build⟩ := label?_labels fits
  simp only [ofText?, Option.bind_eq_bind, major, minor, patch, prerelease, build, Option.bind_some]
  simp [Function.comp_def]

/-- What is read is a version whose labels fit, and the text is how it is written. -/
theorem of_ofText? (h : ofText? s = some v) : v.Fits isLabelChar ∧ s = v.written := by
  simp only [ofText?, Option.bind_eq_bind, Option.bind_eq_some_iff, Prod.exists] at h
  obtain ⟨a, r₁, major, b, r₂, minor, c, r₃, patch, x, r₄, prerelease, y, r₅, build, finish⟩ := h
  obtain ⟨rfl, majorFits, -⟩ := run?_eq_some_iff.mp major
  obtain ⟨rfl, minorFits, -⟩ := dotPart?_eq_some_iff.mp minor
  obtain ⟨rfl, patchFits, -⟩ := dotPart?_eq_some_iff.mp patch
  obtain ⟨rfl, prereleaseFits⟩ := of_label? prerelease
  obtain ⟨rfl, buildFits⟩ := of_label? build
  split at finish
  · rename_i atEnd
    subst atEnd
    cases finish
    refine ⟨⟨?_, ?_, ?_, prereleaseFits, buildFits⟩, ?_⟩
    · rwa [String.toList_ofList]
    · rwa [String.toList_ofList]
    · rwa [String.toList_ofList]
    · simp [written, labels]
  · cases finish

section Ascii

variable {c : Char}

theorem isAscii_of_isPartChar (h : isPartChar c = true) : Unicode.isAscii c = true := by
  rcases Bool.or_eq_true_iff.mp h with digit | underscore
  · exact Unicode.isAscii_of_isDigit digit
  · rw [beq_iff_eq.mp underscore]
    rfl

theorem isAscii_of_isLabelChar (h : isLabelChar c = true) : Unicode.isAscii c = true := by
  rcases Bool.or_eq_true_iff.mp h with alphanumeric | underscore
  · rcases Bool.or_eq_true_iff.mp alphanumeric with letter | digit
    · rcases Bool.or_eq_true_iff.mp letter with upper | lower
      · exact Unicode.isAscii_of_isUpper upper
      · exact Unicode.isAscii_of_isLower lower
    · exact Unicode.isAscii_of_isDigit digit
  · rw [beq_iff_eq.mp underscore]
    rfl

/-- In ASCII the labels of words are those of versions. -/
theorem isLabelChar_of_isWordBody (ascii : Unicode.isAscii c = true) (h : isWordBody c = true) :
    isLabelChar c = true := by
  have classes : (!isWordBody c || isLabelChar c) = true :=
    Unicode.of_isAscii (p := fun c => !isWordBody c || isLabelChar c) (by decide) ascii
  simpa [h] using classes

end Ascii

theorem all_labelled (mark : p introducer = true) :
    (labelled introducer label).all p = true ↔ ∀ w ∈ label, w.toList.all p = true := by
  cases label with
  | none => simp [labelled]
  | some w => simp [labelled, mark]

theorem all_written (marks : p '.' = true ∧ p '-' = true ∧ p '+' = true) :
    v.written.all p = true ↔
      v.major.toList.all p = true ∧ v.minor.toList.all p = true ∧ v.patch.toList.all p = true ∧
        (∀ w ∈ v.prerelease, w.toList.all p = true) ∧ ∀ w ∈ v.build, w.toList.all p = true := by
  simp only [written, labels, List.all_append, List.all_cons, Bool.and_eq_true, marks.1, true_and,
    all_labelled marks.2.1, all_labelled marks.2.2]

theorem IsRun.imp {q : Char → Bool} (run : IsRun p w) (imp : ∀ c ∈ w, p c = true → q c = true) :
    IsRun q w :=
  ⟨run.1, List.all_eq_true.mpr fun c mem => imp c mem (List.all_eq_true.mp run.2 c mem)⟩

theorem isAscii_written (fits : v.Fits isLabelChar) : v.written.all Unicode.isAscii = true := by
  have part {w : List Char} (run : IsRun isPartChar w) : w.all Unicode.isAscii = true :=
    (run.imp fun _ _ => isAscii_of_isPartChar).2
  have label {w : List Char} (run : IsRun isLabelChar w) : w.all Unicode.isAscii = true :=
    (run.imp fun _ _ => isAscii_of_isLabelChar).2
  exact (all_written ⟨rfl, rfl, rfl⟩).mpr ⟨part fits.major, part fits.minor, part fits.patch,
    fun w mem => label (fits.prerelease w mem), fun w mem => label (fits.build w mem)⟩

theorem Fits.of_isAscii (fits : v.Fits isWordBody) (ascii : v.written.all Unicode.isAscii = true) :
    v.Fits isLabelChar := by
  obtain ⟨-, -, -, prerelease, build⟩ := (all_written ⟨rfl, rfl, rfl⟩).mp ascii
  have label {w : List Char} (ascii : w.all Unicode.isAscii = true) (run : IsRun isWordBody w) :
      IsRun isLabelChar w :=
    run.imp fun c mem => isLabelChar_of_isWordBody (List.all_eq_true.mp ascii c mem)
  exact
    { fits with
      prerelease := fun w mem => label (prerelease w mem) (fits.prerelease w mem)
      build := fun w mem => label (build w mem) (fits.build w mem) }

/-- A version whose labels are made as words are is read back from its text if that is ASCII,
and nothing is read from it otherwise. -/
theorem ofText?_written_of_isWordBody (fits : v.Fits isWordBody) :
    ofText? v.written = if v.written.all Unicode.isAscii = true then some v else none := by
  split
  · rename_i ascii
    exact ofText?_written (fits.of_isAscii ascii)
  · rename_i foreign
    cases known : ofText? v.written with
    | none => rfl
    | some read =>
      obtain ⟨labels, same⟩ := of_ofText? known
      exact absurd (same ▸ isAscii_written labels) foreign

end Version

end TagLang
