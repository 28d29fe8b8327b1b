import ArityCheck.Analysis.Basic
import ArityCheck.Proofs.Analysis.Source

/-! What the analysis of a list of files gives.

A file gives its violations, or has syntax errors that are let pass, or ends the analysis: `Passes`
says which files do not end it. `collect_eq_ok_iff`: there is a report exactly if all files pass,
and it holds what `fileViolations` says of each of them, in the order of the list. -/
namespace ArityCheck

/-! ### One file -/

namespace FileSystem

/-- The outline of a source file, if the file can be read and is of a known dialect. -/
def outline? (fs : FileSystem) (p : Path) : Option Outline := do
  let text ← (fs.read p).toOption
  let dialect ← (Dialect.ofPath p).toOption
  return Outline.ofTree (Grammar.parse dialect text)

/-- A source file without syntax errors. -/
def isSound (fs : FileSystem) (p : Path) : Bool := (fs.outline? p).any (·.faults.isEmpty)

end FileSystem

namespace Analyzer

/-- What a rule reports about one construct. -/
def violation? (a : Analyzer) (file : Path) (r : Rule) (c : Construct) : Option Violation :=
  if a.config.isEnabled r.name then (r.finding? c).map (·.violation file (a.severity r)) else none

/-- The violations that the analysis of one file gives. Where it fails there are none. -/
def fileViolations (a : Analyzer) (fs : FileSystem) (p : Path) : List Violation :=
  ((fs.read p).toOption.bind fun text => (a.analyzeSource p text).toOption).getD []

/-- A file does not end the analysis. -/
def Passes (a : Analyzer) (fs : FileSystem) (p : Path) : Prop :=
  ∃ text, fs.read p = .ok text ∧
    ((∃ violations, a.analyzeSource p text = .ok violations) ∨
      a.failOnParseError = false ∧ ∃ m, a.analyzeSource p text = .error (.malformed p m))

theorem runViolations_eq_filterMap_violation? (a : Analyzer) (file : Path)
    (constructs : List Construct) (r : Rule) :
    a.runViolations file (r, a.runRule constructs r) =
      constructs.filterMap (a.violation? file r) := by
  refine runViolations_eq_filterMap (fun h c => ?_) (fun h c => ?_) constructs
  · rw [violation?, if_pos h]
  · rw [violation?, if_neg (by simp [h])]

/-- The violations of a text, rule by rule and in each rule construct by construct. -/
theorem violations_outcome (a : Analyzer) (path : Path) {o : Outline} (h : o.faults = []) :
    a.violations path (a.outcome o) = .ok (a.rules.flatMap fun r =>
      o.constructs.filterMap (a.violation? (path.relativeTo a.root) r)) := by
  rw [outcome_of_faults_eq_nil a h, violations, List.flatMap_map]
  simp only [runViolations_eq_filterMap_violation?]

theorem analyzeSource_eq_ok_iff (a : Analyzer) (path : Path) (text : String)
    (vs : List Violation) :
    a.analyzeSource path text = .ok vs ↔ ∃ dialect, Dialect.ofPath path = .ok dialect ∧
      (Outline.ofTree (Grammar.parse dialect text)).faults = [] ∧
      vs = a.rules.flatMap fun r =>
        (Outline.ofTree (Grammar.parse dialect text)).constructs.filterMap
          (a.violation? (path.relativeTo a.root) r) := by
  rw [analyzeSource]
  cases hdialect : Dialect.ofPath path with
  | error ext => simp [inspect_of_unsupported a hdialect, violations]
  | ok dialect =>
    rw [inspect_of_dialect a hdialect]
    cases hfaults : (Outline.ofTree (Grammar.parse dialect text)).faults with
    | nil =>
      rw [violations_outcome a path hfaults, Except.ok.injEq]
      constructor
      · rintro rfl
        exact ⟨dialect, rfl, hfaults, rfl⟩
      · rintro ⟨_, ⟨⟩, -, rfl⟩
        rfl
    | cons first rest => simp [outcome, hfaults, violations]

theorem path_of_analyzeSource_malformed {a : Analyzer} {path q : Path} {text m : String}
    (h : a.analyzeSource path text = .error (.malformed q m)) : q = path := by
  rw [analyzeSource] at h
  cases hinspect : a.inspect path text with
  | unsupported ext => simp [hinspect, violations] at h
  | malformed message =>
    simp only [hinspect, violations, Except.error.injEq, AnalysisError.malformed.injEq] at h
    exact h.1.symm
  | checked runs => simp [hinspect, violations] at h

end Analyzer

namespace FileSystem

theorem outline?_eq_some_iff {fs : FileSystem} {p : Path} {o : Outline} :
    fs.outline? p = some o ↔ ∃ text dialect, fs.read p = .ok text ∧
      Dialect.ofPath p = .ok dialect ∧ Outline.ofTree (Grammar.parse dialect text) = o := by
  rw [outline?]
  cases fs.read p with
  | error fault => simp [Except.toOption]
  | ok text =>
    cases Dialect.ofPath p with
    | error ext => simp [Except.toOption]
    | ok dialect => simp [Except.toOption]

/-- A file is sound exactly if its analysis gives violations, even if there are none. -/
theorem isSound_iff (a : Analyzer) {fs : FileSystem} {p : Path} {text : String}
    (hread : fs.read p = .ok text) :
    fs.isSound p = true ↔ ∃ violations, a.analyzeSource p text = .ok violations := by
  simp only [isSound, Option.any_eq_true, outline?_eq_some_iff, List.isEmpty_iff,
    a.analyzeSource_eq_ok_iff]
  constructor
  · rintro ⟨o, ⟨text', dialect, htext, hdialect, rfl⟩, hfaults⟩
    obtain rfl := Except.ok.inj (hread.symm.trans htext)
    exact ⟨_, dialect, hdialect, hfaults, rfl⟩
  · rintro ⟨violations, dialect, hdialect, hfaults, -⟩
    exact ⟨_, ⟨text, dialect, hread, hdialect, rfl⟩, hfaults⟩

end FileSystem

namespace Analyzer

variable {a : Analyzer} {fs : FileSystem} {p : Path}

theorem fileViolations_of_ok {text : String} {violations : List Violation}
    (hread : fs.read p = .ok text) (h : a.analyzeSource p text = .ok violations) :
    a.fileViolations fs p = violations := by
  simp [fileViolations, hread, h, Except.toOption]

theorem fileViolations_of_error {text : String} {e : AnalysisError}
    (hread : fs.read p = .ok text) (h : a.analyzeSource p text = .error e) :
    a.fileViolations fs p = [] := by
  simp [fileViolations, hread, h, Except.toOption]

/-- The violations of a sound file, rule by rule and in each rule construct by construct. -/
theorem fileViolations_eq_flatMap {o : Outline} (ho : fs.outline? p = some o)
    (hfaults : o.faults = []) :
    a.fileViolations fs p = a.rules.flatMap fun r =>
      o.constructs.filterMap (a.violation? (p.relativeTo a.root) r) := by
  obtain ⟨text, dialect, hread, hdialect, rfl⟩ := FileSystem.outline?_eq_some_iff.mp ho
  exact fileViolations_of_ok hread
    ((a.analyzeSource_eq_ok_iff p text _).mpr ⟨dialect, hdialect, hfaults, rfl⟩)

/-- A violation tells its file and its rule, by name and by code. -/
theorem file_and_rule_of_violation? {file : Path} {r : Rule} {c : Construct} {v : Violation}
    (h : a.violation? file r c = some v) :
    v.location.file = file ∧ v.rule = r.name ∧ v.code = r.code := by
  rw [violation?] at h
  split at h
  · obtain ⟨finding, hfinding, rfl⟩ := Option.map_eq_some_iff.mp h
    obtain ⟨subject, -, hmax⟩ := Option.bind_eq_some_iff.mp hfinding
    obtain ⟨max, -, hmax⟩ := Option.bind_eq_some_iff.mp hmax
    obtain rfl := Option.some.inj hmax
    exact ⟨rfl, rfl, rfl⟩
  · nomatch h

/-- Rules on calls that stand before those on functions report before them. -/
theorem pairwise_rule (hrules : a.rules.Pairwise fun r s =>
    ¬(r.kind = .parameters ∧ s.kind = .arguments)) {file : Path} {constructs : List Construct} :
    (a.rules.flatMap fun r => constructs.filterMap (a.violation? file r)).Pairwise fun v w =>
      ¬(v.rule = "func-params" ∧ w.rule = "func-args") := by
  have hname : ∀ r v, v ∈ constructs.filterMap (a.violation? file r) → v.rule = r.kind.name := by
    intro r v hv
    obtain ⟨c, -, hc⟩ := List.mem_filterMap.mp hv
    exact (file_and_rule_of_violation? hc).2.1
  rw [List.pairwise_flatMap]
  constructor
  · intro r _
    refine List.pairwise_of_forall_mem_list fun v hv w hw => ?_
    rw [hname r v hv, hname r w hw]
    cases r.kind <;> simp [RuleKind.name]
  · refine hrules.imp fun {r s} hrs v hv w hw => ?_
    rw [hname r v hv, hname s w hw]
    cases hr : r.kind <;> cases hs : s.kind <;> simp_all [RuleKind.name]

/-- What is reported about a file comes from its outline, which has no faults. -/
theorem outline_of_mem_fileViolations {v : Violation} (h : v ∈ a.fileViolations fs p) :
    ∃ o, fs.outline? p = some o ∧ o.faults = [] ∧
      v ∈ a.rules.flatMap fun r =>
        o.constructs.filterMap (a.violation? (p.relativeTo a.root) r) := by
  cases hread : fs.read p with
  | error fault => simp [fileViolations, hread, Except.toOption] at h
  | ok text =>
    cases hanalyze : a.analyzeSource p text with
    | error e =>
      rw [fileViolations_of_error hread hanalyze] at h
      nomatch h
    | ok violations =>
      rw [fileViolations_of_ok hread hanalyze] at h
      obtain ⟨dialect, hdialect, hfaults, rfl⟩ := (a.analyzeSource_eq_ok_iff p text _).mp hanalyze
      have ho := FileSystem.outline?_eq_some_iff.mpr ⟨text, dialect, hread, hdialect, rfl⟩
      exact ⟨_, ho, hfaults, h⟩

theorem file_of_mem_fileViolations {v : Violation} (h : v ∈ a.fileViolations fs p) :
    v.location.file = p.relativeTo a.root := by
  obtain ⟨o, -, -, hv⟩ := outline_of_mem_fileViolations h
  obtain ⟨r, -, hr⟩ := List.mem_flatMap.mp hv
  obtain ⟨c, -, hc⟩ := List.mem_filterMap.mp hr
  exact (file_and_rule_of_violation? hc).1

/-! ### Files that pass -/

theorem ofPath_of_isSource (h : isSource p = true) : ∃ dialect, Dialect.ofPath p = .ok dialect := by
  obtain ⟨dialect, hdialect⟩ := Option.isSome_iff_exists.mp h
  obtain ⟨ext, hext, hdialect⟩ := Option.bind_eq_some_iff.mp hdialect
  refine ⟨dialect, ?_⟩
  unfold Dialect.ofPath
  simp only [hext, Option.getD_some, hdialect]

/-- A source file that can be read ends the analysis only by its syntax errors. -/
theorem passes_of_isSource (hsource : isSource p = true) {text : String}
    (hread : fs.read p = .ok text)
    (h : fs.isSound p = true ∨ a.failOnParseError = false) : a.Passes fs p := by
  refine ⟨text, hread, ?_⟩
  rcases h with hsound | hfail
  · exact .inl ((fs.isSound_iff a hread).mp hsound)
  · obtain ⟨dialect, hdialect⟩ := ofPath_of_isSource hsource
    by_cases hfaults : (Outline.ofTree (Grammar.parse dialect text)).faults = []
    · exact .inl ⟨_, (a.analyzeSource_eq_ok_iff p text _).mpr ⟨dialect, hdialect, hfaults, rfl⟩⟩
    · refine .inr ⟨hfail, ?_⟩
      rw [analyzeSource, inspect_of_dialect a hdialect]
      exact (a.violations_malformed_iff p _).mpr hfaults

/-- A file that passes is sound and gives its violations, or is refused and gives none. -/
theorem passes_cases (h : a.Passes fs p) :
    ∃ text, fs.read p = .ok text ∧
      (a.analyzeSource p text = .ok (a.fileViolations fs p) ∧ fs.isSound p = true ∨
        (∃ m, a.analyzeSource p text = .error (.malformed p m)) ∧
          fs.isSound p = false ∧ a.fileViolations fs p = []) := by
  obtain ⟨text, hread, ⟨violations, hok⟩ | ⟨-, m, herror⟩⟩ := h
  · rw [fileViolations_of_ok hread hok]
    exact ⟨text, hread, .inl ⟨hok, (fs.isSound_iff a hread).mpr ⟨violations, hok⟩⟩⟩
  · refine ⟨text, hread, .inr ⟨⟨m, herror⟩, ?_, fileViolations_of_error hread herror⟩⟩
    rw [Bool.eq_false_iff, Ne, fs.isSound_iff a hread]
    simp [herror]

theorem fileViolations_of_not_isSound (h : fs.isSound p = false) : a.fileViolations fs p = [] := by
  cases hread : fs.read p with
  | error fault => simp [fileViolations, hread, Except.toOption]
  | ok text =>
    cases hanalyze : a.analyzeSource p text with
    | error e => exact fileViolations_of_error hread hanalyze
    | ok violations =>
      have hsound := (fs.isSound_iff a hread).mpr ⟨violations, hanalyze⟩
      rw [h] at hsound
      nomatch hsound

/-! ### All files -/

/-- What one file does to the report on those after it. -/
theorem collect_cons (a : Analyzer) (fs : FileSystem) (p : Path) (rest : List Inspection) :
    a.collect (a.inspectFile fs p :: rest) =
      match fs.read p with
      | .error fault => .error (.unreadable fault)
      | .ok text =>
        match a.analyzeSource p text with
        | .ok violations => (a.collect rest).map fun r =>
            ⟨violations ++ r.violations, r.filesChecked + 1⟩
        | .error (.malformed q m) =>
          if a.failOnParseError then .error (.malformed q m) else a.collect rest
        | .error e => .error e := by
  rw [inspectFile]
  cases fs.read p with
  | error fault => rfl
  | ok text =>
    simp only [Except.map, collect, analyzeSource]
    cases a.violations p (a.inspect p text) with
    | ok violations => rfl
    | error e => cases e <;> rfl

/-- A file that gives violations goes before the rest of the report. -/
theorem collect_cons_of_ok {text : String} {violations : List Violation} {rest : List Inspection}
    {report : Report} (hread : fs.read p = .ok text)
    (h : a.analyzeSource p text = .ok violations) :
    a.collect (a.inspectFile fs p :: rest) = .ok report ↔ ∃ r, a.collect rest = .ok r ∧
      report = ⟨violations ++ r.violations, r.filesChecked + 1⟩ := by
  simp only [collect_cons, hread, h]
  cases a.collect rest with
  | error e => simp [Except.map]
  | ok r => simp [Except.map, eq_comm]

/-- A file that is refused is passed over or ends the analysis. -/
theorem collect_cons_of_error {text : String} {e : AnalysisError} {rest : List Inspection}
    {report : Report} (hread : fs.read p = .ok text) (h : a.analyzeSource p text = .error e) :
    a.collect (a.inspectFile fs p :: rest) = .ok report ↔
      a.failOnParseError = false ∧ (∃ m, e = .malformed p m) ∧ a.collect rest = .ok report := by
  have hpath := fun q m (he : e = .malformed q m) =>
    path_of_analyzeSource_malformed (h.trans (congrArg Except.error he))
  simp only [collect_cons, hread, h]
  cases e with
  | malformed q m =>
    obtain rfl := hpath q m rfl
    cases a.failOnParseError <;> simp
  | _ => simp

/-- What one file does to a report. -/
theorem collect_cons_eq_ok_iff (rest : List Inspection) (report : Report) :
    a.collect (a.inspectFile fs p :: rest) = .ok report ↔ a.Passes fs p ∧
      ∃ r, a.collect rest = .ok r ∧ report = ⟨a.fileViolations fs p ++ r.violations,
        r.filesChecked + if fs.isSound p then 1 else 0⟩ := by
  cases hread : fs.read p with
  | error fault => simp [collect_cons, hread, Passes]
  | ok text =>
    cases hanalyze : a.analyzeSource p text with
    | ok violations =>
      have hsound : fs.isSound p = true := (fs.isSound_iff a hread).mpr ⟨violations, hanalyze⟩
      rw [collect_cons_of_ok hread hanalyze, fileViolations_of_ok hread hanalyze, if_pos hsound]
      simp [Passes, hread, hanalyze]
    | error e =>
      have hsound : ¬ fs.isSound p = true := by
        rw [fs.isSound_iff a hread]
        simp [hanalyze]
      rw [collect_cons_of_error hread hanalyze, fileViolations_of_error hread hanalyze,
        if_neg hsound]
      simp [Passes, hread, hanalyze, and_assoc]

/-- **The report that files come to.** There is one exactly if no file ends the analysis, and then
it holds what each file gives, one file after the other, and counts those that are sound. -/
theorem collect_eq_ok_iff (files : List Path) (report : Report) :
    a.collect (files.map (a.inspectFile fs)) = .ok report ↔
      (∀ p ∈ files, a.Passes fs p) ∧
        report = ⟨files.flatMap (a.fileViolations fs), files.countP fs.isSound⟩ := by
  induction files generalizing report with
  | nil => simp [collect, Report.empty, eq_comm]
  | cons p files ih =>
    rw [List.map_cons, collect_cons_eq_ok_iff, List.forall_mem_cons, List.flatMap_cons,
      List.countP_cons]
    constructor
    · rintro ⟨hp, r, hr, rfl⟩
      obtain ⟨hfiles, rfl⟩ := (ih r).mp hr
      exact ⟨⟨hp, hfiles⟩, rfl⟩
    · rintro ⟨⟨hp, hfiles⟩, rfl⟩
      exact ⟨hp, _, (ih _).mpr ⟨hfiles, rfl⟩, rfl⟩

end Analyzer

end ArityCheck
