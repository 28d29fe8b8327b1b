import ArityCheck.Proofs.Analysis.Files

/-! When an analysis fails, and with which error.

Files are analyzed one after the other, in the order of their paths, and the first one that ends
the analysis decides how. `Ends` says what can end it: a file that is no text, or syntax errors if
those are not let pass. `collect_cons_eq_error_iff` is what one file does, `collect_eq_error_iff`
what a list of them comes to, and `analyze_first_error` puts that together for an analysis. -/
namespace ArityCheck

namespace FileSystem

/-- The path leads to a file whose bytes are a text in UTF-8. -/
def IsText (fs : FileSystem) (p : Path) : Prop :=
  ∃ place text, fs.resolve p = .ok place ∧ place.node = .file (String.toUTF8 text)

theorem fromUTF8?_eq_some_iff {content : ByteArray} {text : String} :
    String.fromUTF8? content = some text ↔ content = text.toUTF8 := by
  unfold String.fromUTF8?
  constructor
  · intro h
    split at h
    · obtain rfl := Option.some.inj h
      rfl
    · nomatch h
  · rintro rfl
    rw [String.toUTF8_eq_toByteArray, dif_pos text.isValidUTF8]
    rfl

/-- A file can be read exactly if it is a text. -/
theorem isText_iff {fs : FileSystem} {p : Path} :
    fs.IsText p ↔ ∃ text, fs.read p = .ok text := by
  rw [IsText, read]
  cases fs.resolve p with
  | error fault => simp [bind, Except.bind]
  | ok place =>
    simp only [Except.ok.injEq, exists_and_left, exists_eq_left', bind, Except.bind]
    cases place.node with
    | folder entries => simp
    | file content =>
      simp only [Node.file.injEq, ← fromUTF8?_eq_some_iff]
      cases String.fromUTF8? content <;> simp

end FileSystem

namespace Analyzer

variable {a : Analyzer} {fs : FileSystem} {p : Path}

/-! ### One file -/

/-- A file ends the analysis with an error: it cannot be read, or it has syntax errors and those
are not let pass. The message tells the first of them and how many there are. -/
inductive Ends (a : Analyzer) (fs : FileSystem) (p : Path) : AnalysisError → Prop
  | unreadable {fault : FileFault} (hread : fs.read p = .error fault) :
      Ends a fs p (.unreadable fault)
  | malformed {o : Outline} {first : Span} {more : List Span} (hfail : a.failOnParseError = true)
      (ho : fs.outline? p = some o) (hfaults : o.faults = first :: more) :
      Ends a fs p (.malformed p (faultMessage first (more.length + 1)))

/-- A file is a text and, unless syntax errors are let pass, it has none. -/
def Accepts (a : Analyzer) (fs : FileSystem) (p : Path) : Prop :=
  fs.IsText p ∧ (a.failOnParseError = true → fs.isSound p = true)

/-- Files are taken for sources exactly if they are of a known dialect. -/
theorem isSource_iff (p : Path) : isSource p = true ↔ ∃ dialect, Dialect.ofPath p = .ok dialect := by
  refine ⟨ofPath_of_isSource, fun ⟨dialect, hdialect⟩ => ?_⟩
  unfold Dialect.ofPath at hdialect
  rw [isSource]
  cases hext : p.extension? with
  | none => simp [hext, Dialect.ofExtension?] at hdialect
  | some ext =>
    simp only [hext, Option.getD_some] at hdialect
    rw [Option.bind_some]
    cases hof : Dialect.ofExtension? ext with
    | none => simp [hof] at hdialect
    | some d => rfl

theorem exists_outline (hsource : isSource p = true) {text : String}
    (hread : fs.read p = .ok text) : ∃ o, fs.outline? p = some o := by
  obtain ⟨dialect, hdialect⟩ := ofPath_of_isSource hsource
  exact ⟨_, FileSystem.outline?_eq_some_iff.mpr ⟨text, dialect, hread, hdialect, rfl⟩⟩

/-- Only such files pass. -/
theorem passes_iff (hsource : isSource p = true) : a.Passes fs p ↔ a.Accepts fs p := by
  rw [Accepts, FileSystem.isText_iff]
  constructor
  · rintro ⟨text, hread, hsound | ⟨hfail, -⟩⟩
    · exact ⟨⟨text, hread⟩, fun _ => (fs.isSound_iff a hread).mpr hsound⟩
    · exact ⟨⟨text, hread⟩, fun hfail' => by simp [hfail] at hfail'⟩
  · rintro ⟨⟨text, hread⟩, hsound⟩
    refine passes_of_isSource hsource hread ?_
    cases hfail : a.failOnParseError with
    | false => exact .inr rfl
    | true => exact .inl (hsound hfail)

theorem passes_of_outline {o : Outline} (hsource : isSource p = true)
    (ho : fs.outline? p = some o) :
    a.Passes fs p ↔ (a.failOnParseError = true → o.faults = []) := by
  obtain ⟨text, -, hread, -⟩ := FileSystem.outline?_eq_some_iff.mp ho
  have htext : fs.IsText p := FileSystem.isText_iff.mpr ⟨text, hread⟩
  rw [passes_iff hsource, Accepts, and_iff_right htext]
  simp [FileSystem.isSound, ho]

theorem ends_of_unreadable {fault : FileFault} (hread : fs.read p = .error fault)
    (e : AnalysisError) : a.Ends fs p e ↔ e = .unreadable fault := by
  constructor
  · rintro (hread' | ⟨-, ho, -⟩)
    · rw [hread] at hread'
      rw [Except.error.inj hread']
    · obtain ⟨text, -, htext, -⟩ := FileSystem.outline?_eq_some_iff.mp ho
      rw [hread] at htext
      nomatch htext
  · rintro rfl
    exact .unreadable hread

theorem ends_of_outline {o : Outline} (ho : fs.outline? p = some o) (e : AnalysisError) :
    a.Ends fs p e ↔ a.failOnParseError = true ∧ ∃ first more, o.faults = first :: more ∧
      e = .malformed p (faultMessage first (more.length + 1)) := by
  constructor
  · rintro (hread | ⟨hfail, ho', hfaults⟩)
    · obtain ⟨text, -, htext, -⟩ := FileSystem.outline?_eq_some_iff.mp ho
      rw [hread] at htext
      nomatch htext
    · obtain rfl := Option.some.inj (ho.symm.trans ho')
      exact ⟨hfail, _, _, hfaults, rfl⟩
  · rintro ⟨hfail, first, more, hfaults, rfl⟩
    exact .malformed hfail ho hfaults

/-- What the outline of a file does to a report. -/
theorem collect_cons_of_outline {o : Outline} (ho : fs.outline? p = some o)
    (rest : List Inspection) :
    a.collect (a.inspectFile fs p :: rest) =
      match o.faults with
      | [] => (a.collect rest).map fun r =>
          ⟨a.fileViolations fs p ++ r.violations, r.filesChecked + 1⟩
      | first :: more =>
        if a.failOnParseError then .error (.malformed p (faultMessage first (more.length + 1)))
        else a.collect rest := by
  obtain ⟨text, dialect, hread, hdialect, rfl⟩ := FileSystem.outline?_eq_some_iff.mp ho
  simp only [collect_cons, hread, analyzeSource, inspect_of_dialect a hdialect]
  cases hfaults : (Outline.ofTree (Grammar.parse dialect text)).faults with
  | nil =>
    rw [violations_outcome a p hfaults, ← fileViolations_eq_flatMap ho hfaults]
  | cons first more => simp only [outcome, hfaults, violations]

/-- **What one file does**: it ends the analysis, or it passes and the files after it decide. -/
theorem collect_cons_eq_error_iff (hsource : isSource p = true) (rest : List Inspection)
    (e : AnalysisError) :
    a.collect (a.inspectFile fs p :: rest) = .error e ↔
      a.Ends fs p e ∨ a.Passes fs p ∧ a.collect rest = .error e := by
  cases hread : fs.read p with
  | error fault =>
    have hnot : ¬ a.Passes fs p := by
      rintro ⟨text, htext, -⟩
      rw [hread] at htext
      nomatch htext
    rw [collect_cons, hread, ends_of_unreadable hread]
    simp [hnot, eq_comm]
  | ok text =>
    obtain ⟨o, ho⟩ := exists_outline hsource hread
    rw [collect_cons_of_outline ho, ends_of_outline ho, passes_of_outline hsource ho]
    cases o.faults with
    | nil => cases a.collect rest <;> simp [Except.map]
    | cons first more => cases a.failOnParseError <;> simp [eq_comm]

/-! ### All files -/

/-- **The first file that ends the analysis decides how it ends.** -/
theorem collect_eq_error_iff {files : List Path} (hsource : ∀ p ∈ files, isSource p = true)
    (e : AnalysisError) :
    a.collect (files.map (a.inspectFile fs)) = .error e ↔
      ∃ before p after, files = before ++ p :: after ∧ (∀ q ∈ before, a.Passes fs q) ∧
        a.Ends fs p e := by
  induction files with
  | nil => simp [collect]
  | cons p files ih =>
    rw [List.forall_mem_cons] at hsource
    rw [List.map_cons, collect_cons_eq_error_iff hsource.1, ih hsource.2]
    constructor
    · rintro (hends | ⟨hpasses, before, q, after, rfl, hbefore, hends⟩)
      · exact ⟨[], p, files, rfl, List.forall_mem_nil _, hends⟩
      · exact ⟨p :: before, q, after, rfl, List.forall_mem_cons.mpr ⟨hpasses, hbefore⟩, hends⟩
    · rintro ⟨before, q, after, hfiles, hbefore, hends⟩
      cases before with
      | nil =>
        obtain ⟨rfl, rfl⟩ := List.cons.inj hfiles
        exact .inl hends
      | cons b before =>
        obtain ⟨rfl, rfl⟩ := List.cons.inj hfiles
        rw [List.forall_mem_cons] at hbefore
        exact .inr ⟨hbefore.1, before, q, after, rfl, hbefore.2, hends⟩

theorem isSource_of_discover {files : List Path} (h : a.discover fs = .ok files) :
    ∀ p ∈ files, isSource p = true := by
  obtain ⟨found, -, rfl⟩ := discover_eq_ok_iff.mp h
  exact fun p hp => (mem_select.mp hp).1.2

theorem analyze_eq_error_iff {files : List Path} (h : a.discover fs = .ok files)
    (e : AnalysisError) :
    a.analyze fs = .error e ↔ ∃ before p after, files = before ++ p :: after ∧
      (∀ q ∈ before, a.Accepts fs q) ∧ a.Ends fs p e := by
  have hsource := isSource_of_discover h
  have hcollect : a.analyze fs = .error e ↔
      a.collect (files.map (a.inspectFile fs)) = .error e := by
    rw [analyze, h]
    simp only [bind, Except.bind]
    cases a.collect (files.map (a.inspectFile fs)) <;> simp [pure, Except.pure]
  rw [hcollect, collect_eq_error_iff hsource]
  -- The files before are sources too, and those pass if they are accepted.
  refine exists_congr fun before => exists_congr fun p => exists_congr fun after =>
    and_congr_right fun hfiles => and_congr_left fun _ => forall₂_congr fun q hq => ?_
  exact passes_iff (hsource q (hfiles ▸ List.mem_append_left _ hq))

theorem analyze_eq_ok_iff_accepts {files : List Path} (h : a.discover fs = .ok files) :
    (∃ report, a.analyze fs = .ok report) ↔ ∀ p ∈ files, a.Accepts fs p := by
  have hpasses : (∀ p ∈ files, a.Passes fs p) ↔ ∀ p ∈ files, a.Accepts fs p :=
    forall₂_congr fun p hp => passes_iff (isSource_of_discover h p hp)
  simp only [analyze_eq_ok_iff, h, Except.ok.injEq, ← hpasses]
  constructor
  · rintro ⟨_, _, rfl, hall, -⟩
    exact hall
  · exact fun hall => ⟨_, files, rfl, hall, rfl⟩

/-! ### What an error tells -/

theorem not_isText_iff : ¬ fs.IsText p ↔ ∃ fault, a.Ends fs p (.unreadable fault) := by
  rw [FileSystem.isText_iff]
  constructor
  · intro h
    cases hread : fs.read p with
    | error fault => exact ⟨fault, .unreadable hread⟩
    | ok text => exact absurd ⟨text, hread⟩ h
  · rintro ⟨fault, ⟨hread⟩⟩ ⟨text, htext⟩
    rw [hread] at htext
    nomatch htext

theorem isText_and_not_isSound_iff (hsource : isSource p = true) :
    (fs.IsText p ∧ a.failOnParseError = true ∧ fs.isSound p = false) ↔
      ∃ m, a.Ends fs p (.malformed p m) := by
  constructor
  · rintro ⟨htext, hfail, hsound⟩
    obtain ⟨text, hread⟩ := FileSystem.isText_iff.mp htext
    obtain ⟨o, ho⟩ := exists_outline hsource hread
    cases hfaults : o.faults with
    | nil => simp [FileSystem.isSound, ho, hfaults] at hsound
    | cons first more => exact ⟨_, .malformed hfail ho hfaults⟩
  · rintro ⟨m, ⟨⟩ | ⟨hfail, ho, hfaults⟩⟩
    obtain ⟨text, -, hread, -⟩ := FileSystem.outline?_eq_some_iff.mp ho
    refine ⟨FileSystem.isText_iff.mpr ⟨text, hread⟩, hfail, ?_⟩
    simp [FileSystem.isSound, ho, hfaults]

section Reading

variable {fs' : FileSystem} (h : fs'.read p = fs.read p)

include h

theorem outline?_congr_read : fs'.outline? p = fs.outline? p := by
  rw [FileSystem.outline?, FileSystem.outline?, h]

theorem accepts_congr_read : a.Accepts fs' p ↔ a.Accepts fs p := by
  rw [Accepts, Accepts, FileSystem.isText_iff, FileSystem.isText_iff, FileSystem.isSound,
    FileSystem.isSound, outline?_congr_read h, h]

theorem Ends.congr_read {e : AnalysisError} (hends : a.Ends fs p e) : a.Ends fs' p e := by
  cases hends with
  | unreadable hread => exact .unreadable (h.trans hread)
  | malformed hfail ho hfaults =>
    exact .malformed hfail ((outline?_congr_read h).trans ho) hfaults

end Reading

/-- **An analysis fails with the error of the first file that is not accepted.** There is a report
exactly if every file is a text and, where syntax errors are not let pass, has none. If not, the
first file in the order of paths that is otherwise decides the error, whatever comes after it: a
file that is no text by why it could not be read, one with syntax errors by its path. No file is
ever refused for its extension, since those that are looked for are those that have a dialect. -/
theorem analyze_first_error (a : Analyzer) (fs : FileSystem) (files : List Path)
    (hfiles : a.discover fs = .ok files) :
    ((∃ report, a.analyze fs = .ok report) ↔ ∀ p ∈ files, a.Accepts fs p) ∧
    (∀ e, a.analyze fs = .error e ↔ ∃ before p after, files = before ++ p :: after ∧
      (∀ q ∈ before, a.Accepts fs q) ∧ a.Ends fs p e) ∧
    (∀ p ∈ files,
      (¬ fs.IsText p ↔ ∃ fault, a.Ends fs p (.unreadable fault)) ∧
      (fs.IsText p ∧ a.failOnParseError = true ∧ fs.isSound p = false ↔
        ∃ m, a.Ends fs p (.malformed p m))) ∧
    files.Pairwise (fun p q => (p.order q).isLE) ∧
    (∀ before p after e, files = before ++ p :: after → (∀ q ∈ before, a.Accepts fs q) →
      a.Ends fs p e → ∀ fs' after', a.discover fs' = .ok (before ++ p :: after') →
      (∀ q ∈ before ++ [p], fs'.read q = fs.read q) → a.analyze fs' = .error e) ∧
    (∀ ext, a.analyze fs ≠ .error (.unsupported ext)) ∧
    ∀ p, isSource p = true ↔ ∃ dialect, Dialect.ofPath p = .ok dialect := by
  refine ⟨analyze_eq_ok_iff_accepts hfiles, analyze_eq_error_iff hfiles, fun p hp =>
    ⟨not_isText_iff, isText_and_not_isSound_iff (isSource_of_discover hfiles p hp)⟩, ?_, ?_, ?_,
    isSource_iff⟩
  · obtain ⟨found, -, rfl⟩ := discover_eq_ok_iff.mp hfiles
    exact a.select_sorted found
  · intro before p after e _ hbefore hends fs' after' hfiles' hread
    refine (analyze_eq_error_iff hfiles' e).mpr ⟨before, p, after', rfl, fun q hq => ?_, ?_⟩
    · exact (accepts_congr_read (hread q (List.mem_append_left _ hq))).mpr (hbefore q hq)
    · exact hends.congr_read (hread p (List.mem_append_right _ List.mem_cons_self))
  · intro ext herror
    obtain ⟨-, p, -, -, -, hends⟩ := (analyze_eq_error_iff hfiles _).mp herror
    nomatch hends

/-- The second file is no UTF-8 and the third has a syntax error: the second decides. -/
theorem analyze_first_error_of_invalid_text :
    let a : Analyzer := ⟨⟨"/p"⟩, [], [], {}, true⟩
    let fs : FileSystem := ⟨.folder [("p", .folder [("c.js", .file "f(".toUTF8),
      ("b.js", .file ⟨#[255]⟩), ("a.js", .file "f(1)".toUTF8)])], ⟨"/"⟩⟩
    a.discover fs = .ok [⟨"/p/a.js"⟩, ⟨"/p/b.js"⟩, ⟨"/p/c.js"⟩] ∧
      a.analyze fs = .error (.unreadable .invalidText) := by
  intro a fs
  have hdiscover : a.discover fs = .ok [⟨"/p/a.js"⟩, ⟨"/p/b.js"⟩, ⟨"/p/c.js"⟩] :=
    eq_ok_of_toOption (by rw [discover_toOption]; decide +kernel)
  have ha : fs.read ⟨"/p/a.js"⟩ = .ok "f(1)" := eq_ok_of_toOption (by decide +kernel)
  have hb : fs.read ⟨"/p/b.js"⟩ = .error .invalidText := by decide +kernel
  refine ⟨hdiscover, ((analyze_first_error a fs _ hdiscover).2.1 _).mpr
    ⟨[⟨"/p/a.js"⟩], ⟨"/p/b.js"⟩, [⟨"/p/c.js"⟩], rfl, ?_, .unreadable hb⟩⟩
  refine List.forall_mem_singleton.mpr ⟨FileSystem.isText_iff.mpr ⟨_, ha⟩, fun _ => ?_⟩
  decide +kernel

end Analyzer

end ArityCheck
