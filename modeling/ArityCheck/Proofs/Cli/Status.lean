import ArityCheck.Cli.Run
import ArityCheck.Proofs.Analysis.Exclusion
import ArityCheck.Proofs.Analysis.Files
import ArityCheck.Proofs.Analysis.Selection

/-! What the status of a check tells.

The status comes from a test of every severity against a threshold, the summary from a count for
each severity, and both from severities that the configuration may have changed. They agree since
an error is the most serious there is (`hasErrors_iff`). Where the errors come from is told by
`countAt_pos_iff_of_analyze`, for any severity, and `Check.Stages` holds what the stages of a check
come to if none fails. -/
namespace ArityCheck

/-! ### The counts of a report -/

namespace Report

theorem countAt_pos_iff {r : Report} {s : Severity} :
    0 < r.countAt s ↔ ∃ v ∈ r.violations, v.severity = s := by
  simp only [countAt, List.countP_pos_iff, beq_iff_eq]

/-- Nothing is more serious than an error. -/
theorem hasErrors_iff {r : Report} : r.hasErrors = true ↔ 0 < r.countAt .error := by
  have hrank : ∀ s : Severity, s.isAtLeast .error = true ↔ s = .error := by
    intro s
    cases s <;> decide
  simp only [hasErrors, hasAtLeast, List.any_eq_true, countAt_pos_iff, hrank]

theorem countAt_add_countAt (r : Report) :
    r.countAt .error + r.countAt .warning + r.countAt .info = r.violations.length := by
  obtain ⟨violations, checked⟩ := r
  induction violations with
  | nil => rfl
  | cons v violations ih =>
    simp only [countAt, List.countP_cons, List.length_cons] at ih ⊢
    cases hv : v.severity <;> simp <;> omega

end Report

/-! ### Where violations come from -/

/-- The construct has more than the rule allows: the number that it is held to can be enforced, and
is below its count. -/
def Rule.IsOver (r : Rule) (x : Construct) : Prop :=
  ∃ s n, r.kind.subject? x = some s ∧ r.limits.select? s.key = some n ∧
    0 ≤ n ∧ n ≤ Limit.ceiling ∧ n < s.count

theorem Rule.isOver_iff {r : Rule} {x : Construct} : r.IsOver x ↔ ∃ f, r.finding? x = some f := by
  simp only [finding?_eq_some_iff, Limits.exceededBy_resolve, Option.bind_eq_some_iff]
  constructor
  · rintro ⟨s, n, hs, hn, hover⟩
    exact ⟨_, s, _, hs, ⟨n, hn, if_pos hover⟩, rfl⟩
  · rintro ⟨_, s, max, hs, ⟨n, hn, hmax⟩, _⟩
    by_cases hover : 0 ≤ n ∧ n ≤ 4294967295 ∧ n < s.count
    · exact ⟨s, n, hs, hn, hover⟩
    · rw [if_neg hover] at hmax
      cases hmax

namespace Analyzer

variable {a : Analyzer} {fs : FileSystem}

/-- A construct over its limit is reported by a rule that is enabled and active. -/
theorem exists_violation?_iff {file : Path} {r : Rule} {x : Construct} {severity : Severity} :
    (∃ v, a.violation? file r x = some v ∧ v.severity = severity) ↔
      a.config.isEnabled r.name = true ∧ r.isActive = true ∧ a.severity r = severity ∧
        r.IsOver x := by
  rw [violation?, Rule.isOver_iff]
  constructor
  · rintro ⟨v, hv, hseverity⟩
    split at hv
    next henabled =>
      obtain ⟨f, hf, rfl⟩ := Option.map_eq_some_iff.mp hv
      refine ⟨henabled, ?_, hseverity, f, hf⟩
      by_cases hactive : r.isActive = true
      · exact hactive
      · rw [Rule.finding?_of_not_isActive (Bool.eq_false_iff.mpr hactive)] at hf
        cases hf
    next => cases hv
  · rintro ⟨henabled, _, hseverity, f, hf⟩
    rw [if_pos henabled, hf]
    exact ⟨_, rfl, hseverity⟩

/-- **A severity is counted exactly if some rule of that severity has something to report**, in a
file that was found and that follows its grammar. -/
theorem countAt_pos_iff_of_analyze {report : Report} (h : a.analyze fs = .ok report)
    (severity : Severity) :
    0 < report.countAt severity ↔
      ∃ r ∈ a.rules, a.config.isEnabled r.name = true ∧ r.isActive = true ∧
        a.severity r = severity ∧ ∃ files, a.discover fs = .ok files ∧ ∃ p ∈ files,
          ∃ o, fs.outline? p = some o ∧ o.faults = [] ∧ ∃ x ∈ o.constructs, r.IsOver x := by
  obtain ⟨files, hdiscover, _, rfl⟩ := (analyze_eq_ok_iff report).mp h
  simp only [Report.countAt_pos_iff, Report.sort, List.mem_mergeSort, List.mem_flatMap]
  constructor
  · rintro ⟨v, ⟨p, hp, hv⟩, hseverity⟩
    obtain ⟨o, ho, hfaults, hv⟩ := outline_of_mem_fileViolations hv
    obtain ⟨r, hr, hv⟩ := List.mem_flatMap.mp hv
    obtain ⟨x, hx, hv⟩ := List.mem_filterMap.mp hv
    obtain ⟨henabled, hactive, hseverity, hover⟩ :=
      exists_violation?_iff.mp ⟨v, hv, hseverity⟩
    exact ⟨r, hr, henabled, hactive, hseverity, files, hdiscover, p, hp, o, ho, hfaults, x, hx,
      hover⟩
  · rintro ⟨r, hr, henabled, hactive, hseverity, files', hdiscover', p, hp, o, ho, hfaults, x, hx,
      hover⟩
    obtain rfl := Except.ok.inj (hdiscover.symm.trans hdiscover')
    obtain ⟨v, hv, hseverity⟩ := exists_violation?_iff.mpr ⟨henabled, hactive, hseverity, hover⟩
    refine ⟨v, ⟨p, hp, ?_⟩, hseverity⟩
    rw [fileViolations_eq_flatMap ho hfaults]
    exact List.mem_flatMap.mpr ⟨r, hr, List.mem_filterMap.mpr ⟨x, hx, hv⟩⟩

end Analyzer

/-! ### The stages of a check -/

namespace Cli

/-- What the stages of a check come to if none of them fails. -/
structure Check.Stages (c : Check) (fs : FileSystem) where
  config : Config
  /-- The rules with their limits. -/
  made : List Rule
  /-- Those of them that were chosen. -/
  chosen : List Rule
  analyzer : Analyzer
  report : Report
  loadConfig_eq : c.loadConfig fs = .ok config
  allOfConfig_eq : Rule.allOfConfig config = .ok made
  chooseRules_eq : c.chooseRules made = .ok chosen
  analyzer_eq : c.analyzer fs config chosen = .ok analyzer
  analyze_eq : analyzer.analyze fs = .ok report

namespace Check

variable {c : Check} {fs : FileSystem}

/-- An analyzer is built exactly if every pattern can be compiled. -/
theorem analyzer_eq_ok_iff {config : Config} {rules : List Rule} {a : Analyzer} :
    c.analyzer fs config rules = .ok a ↔
      ∃ excludes, (if (c.exclude ++ config.analyzer.exclude).isEmpty then Analyzer.defaultExcludes
          else c.exclude ++ config.analyzer.exclude).mapM Glob.parse = .ok excludes ∧
        a = ⟨fs.cwd.join c.path, rules, excludes, config, false⟩ := by
  rw [analyzer, mapError_eq_ok_iff, Analyzer.build_eq_ok_iff]
  rfl

/-- A check has a report exactly if no stage fails. -/
theorem report_eq_ok_iff {a : Analyzer} {r : Report} :
    c.report fs = .ok (a, r) ↔ ∃ s : c.Stages fs, s.analyzer = a ∧ s.report = r := by
  simp only [report, prepare, makeRules, bind_eq_ok_iff, mapError_eq_ok_iff, pure, Except.pure,
    Except.ok.injEq, Prod.mk.injEq]
  constructor
  · rintro ⟨a', ⟨config, hconfig, chosen, ⟨made, hmade, hchosen⟩, ha⟩, r', hr, haa, hrr⟩
    exact ⟨⟨config, made, chosen, a', r', hconfig, hmade, hchosen, ha, hr⟩, haa, hrr⟩
  · rintro ⟨s, ha, hr⟩
    exact ⟨s.analyzer, ⟨s.config, s.loadConfig_eq, s.chosen,
      ⟨s.made, s.allOfConfig_eq, s.chooseRules_eq⟩, s.analyzer_eq⟩, s.report, s.analyze_eq, ha, hr⟩

theorem status_of_isEmpty (h : IsEmpty (c.Stages fs)) (format : Format) :
    (c.outcome fs format).status = 1 := by
  unfold Check.outcome
  cases hreport : c.report fs with
  | error f => rfl
  | ok ar =>
    obtain ⟨s, _⟩ := report_eq_ok_iff.mp hreport
    exact (h.false s).elim

namespace Stages

theorem outcome_eq (s : c.Stages fs) (format : Format) :
    c.outcome fs format = .ofReport s.report fs s.analyzer.root format := by
  rw [Check.outcome, report_eq_ok_iff.mpr ⟨s, rfl, rfl⟩]

/-- The analyzer has the configuration that was loaded and the rules that were chosen. -/
theorem config_and_rules (s : c.Stages fs) :
    s.analyzer.config = s.config ∧ s.analyzer.rules = s.chosen := by
  obtain ⟨excludes, _, ha⟩ := analyzer_eq_ok_iff.mp s.analyzer_eq
  rw [ha]
  exact ⟨rfl, rfl⟩

/-- A rule that was made from a configuration reports errors, if its table does not say
otherwise. -/
theorem severity_of_mem (s : c.Stages fs) {r : Rule} (hr : r ∈ s.chosen) :
    r.severity = .error := by
  have hmade : r ∈ s.made := by
    have hchosen := s.chooseRules_eq
    unfold chooseRules at hchosen
    split at hchosen
    next => exact Except.ok.inj hchosen ▸ hr
    next =>
      obtain ⟨_, hfilter⟩ := Rule.select_eq_ok_iff.mp (mapError_eq_ok_iff.mp hchosen)
      rw [hfilter] at hr
      exact (List.mem_filter.mp hr).1
  obtain ⟨arguments, parameters, harguments, hparameters, hrules⟩ :=
    Rule.allOfConfig_eq_ok s.allOfConfig_eq
  obtain ⟨_, _, rfl⟩ := Rule.ofConfig_eq_ok harguments
  obtain ⟨_, _, rfl⟩ := Rule.ofConfig_eq_ok hparameters
  rw [hrules, List.mem_cons, List.mem_singleton] at hmade
  obtain rfl | rfl := hmade <;> rfl

/-- Some rule that was chosen, is enabled and active, and whose violations are errors, has a
construct over its limit in a file that was found and that has no syntax errors. -/
def FindsError (s : c.Stages fs) : Prop :=
  ∃ r ∈ s.chosen, s.config.isEnabled r.name = true ∧ r.isActive = true ∧
    (s.config.severity? r.name).getD .error = .error ∧
    ∃ files, s.analyzer.discover fs = .ok files ∧ ∃ p ∈ files, ∃ o, fs.outline? p = some o ∧
      o.faults = [] ∧ ∃ x ∈ o.constructs, r.IsOver x

theorem countAt_error_pos_iff (s : c.Stages fs) : 0 < s.report.countAt .error ↔ s.FindsError := by
  obtain ⟨hconfig, hrules⟩ := s.config_and_rules
  have hseverity : ∀ r ∈ s.chosen,
      s.analyzer.severity r = (s.config.severity? r.name).getD .error := by
    intro r hr
    rw [Analyzer.severity, hconfig, s.severity_of_mem hr]
  rw [Analyzer.countAt_pos_iff_of_analyze s.analyze_eq, hrules, hconfig]
  constructor
  · rintro ⟨r, hr, henabled, hactive, herror, hfound⟩
    exact ⟨r, hr, henabled, hactive, hseverity r hr ▸ herror, hfound⟩
  · rintro ⟨r, hr, henabled, hactive, herror, hfound⟩
    exact ⟨r, hr, henabled, hactive, (hseverity r hr).trans herror, hfound⟩

end Stages

end Check

/-! ### The status of a run -/

open Analyzer

variable {fs : FileSystem} {r : Report} {root : Path} {format : Format}

/-- A report that is printed to its end fails the run exactly if it counts errors. -/
theorem status_ofReport (h : (r.print fs root format).2 = none) :
    (Outcome.ofReport r fs root format).status = if 0 < r.countAt .error then 1 else 0 := by
  unfold Outcome.ofReport
  split
  next => simp only [Report.hasErrors_iff]
  next heq =>
    rw [heq] at h
    cases h

theorem status_ofReport_of_fault {fault : RereadFault}
    (h : (r.print fs root format).2 = some fault) :
    (Outcome.ofReport r fs root format).status = 1 := by
  unfold Outcome.ofReport
  split
  next heq =>
    rw [heq] at h
    cases h
  next => rfl

/-- The notes of a check change neither its status nor its output. -/
theorem run_of_check {env : Environment} {args : List String} {i : Invocation}
    (hread : Invocation.read args env.config = .ok i) {path : Path} {rules : Option String}
    {exclude : List String} (hcommand : i.command = .check path format rules exclude) :
    let c : Check := ⟨path, rules, exclude, .resolve fs path i.config env.globalDir?⟩
    (run fs env args).status = (c.outcome fs format).status ∧
      (run fs env args).output = (c.outcome fs format).output := by
  intro c
  have hrun : run fs env args = i.outcome fs env := by rw [run, hread]
  rw [hrun, Invocation.outcome, hcommand]
  exact ⟨rfl, rfl⟩

/-- **The status of a check tells whether there are errors.** It is 1 if a stage fails or the report
cannot be printed to its end. Otherwise, with the report as text, it is 1 if the summary counts
errors and 0 if it does not. The summary counts errors exactly if a rule that is to report them
finds one, and its three counts come to the violations that are listed. -/
theorem run_check_status (fs : FileSystem) (env : Environment) (args : List String)
    (i : Invocation) (path : Path) (format : Format) (rules : Option String)
    (exclude : List String) (hread : Invocation.read args env.config = .ok i)
    (hcommand : i.command = .check path format rules exclude) :
    let c : Check := ⟨path, rules, exclude, .resolve fs path i.config env.globalDir?⟩
    (IsEmpty (c.Stages fs) → (run fs env args).status = 1) ∧
    ∀ s : c.Stages fs,
      (∀ fault, (s.report.print fs s.analyzer.root format).2 = some fault →
        (run fs env args).status = 1) ∧
      (format = .text → ∃ errors warnings infos : Nat,
        (run fs env args).output = String.join (s.report.violations.map Violation.entry) ++
          (s.report.colour.paint ("Found " ++ toString errors ++ " error(s), " ++
            toString warnings ++ " warning(s), " ++ toString infos ++ " info(s) in " ++
            toString s.report.filesChecked ++ " file(s)") ++ "\n") ∧
        errors + warnings + infos = s.report.violations.length ∧
        ((run fs env args).status = 1 ↔ 0 < errors) ∧
        ((run fs env args).status = 0 ↔ errors = 0) ∧
        (0 < errors ↔ s.FindsError)) := by
  intro c
  obtain ⟨hstatus, houtput⟩ := run_of_check hread hcommand
  constructor
  · intro hempty
    rw [hstatus]
    exact Check.status_of_isEmpty hempty format
  intro s
  rw [hstatus, houtput, s.outcome_eq format]
  constructor
  · intro fault hfault
    exact status_ofReport_of_fault hfault
  · intro htext
    subst htext
    have hprinted : (Outcome.ofReport s.report fs s.analyzer.root .text).status =
        if 0 < s.report.countAt .error then 1 else 0 := status_ofReport rfl
    refine ⟨s.report.countAt .error, s.report.countAt .warning, s.report.countAt .info, rfl,
      s.report.countAt_add_countAt, ?_, ?_, s.countAt_error_pos_iff⟩
    · rw [hprinted]
      split <;> omega
    · rw [hprinted]
      split <;> omega

/-- A call over its limit is an error, a function over its own is not, since the configuration says
so, and a file with a syntax error does not count. -/
theorem run_check_status_of_mixed_severities :
    let toml := "[rules]\nfunc-args=\x7bf=0\x7d\nfunc-params=\x7bglobal=0,severity=\"info\"\x7d"
    let fs : FileSystem := ⟨.folder [("p", .folder [("arity-lint.toml", .file toml.toUTF8),
      ("a.js", .file "f(1);function g(a){}".toUTF8), ("b.js", .file "f(".toUTF8)])], ⟨"/"⟩⟩
    let args := ["check", "/p", "--format=text", "-ex"]
    let c : Check := ⟨⟨"/p"⟩, none, ["x"], .resolve fs ⟨"/p"⟩ none none⟩
    Invocation.read args none = .ok ⟨false, none, .check ⟨"/p"⟩ .text none ["x"]⟩ ∧
      ∃ s : c.Stages fs, s.report.violations.map (·.severity) = [.error, .info] ∧
        s.FindsError ∧ (run fs {} args).status = 1 := by
  intro toml fs args c
  have hread : Invocation.read args none = .ok ⟨false, none, .check ⟨"/p"⟩ .text none ["x"]⟩ :=
    eq_ok_of_toOption (by decide +kernel)
  let config : Config := (Config.parse? toml).get (by decide +kernel)
  have hparse : Config.parse? toml = some config := (Option.some_get _).symm
  let rules : List Rule := (Rule.allOfConfig config).toOption.get (by decide +kernel)
  have hrules : Rule.allOfConfig config = .ok rules := eq_ok_of_toOption (Option.some_get _).symm
  let a : Analyzer := ⟨fs.cwd.join c.path, rules, [⟨"x", [.char 'x']⟩], config, false⟩
  have hsource : c.source = .project ⟨"/p/arity-lint.toml"⟩ := by decide +kernel
  have htoml : fs.read ⟨"/p/arity-lint.toml"⟩ = .ok toml := eq_ok_of_toOption (by decide +kernel)
  have hconfig : c.loadConfig fs = .ok config := by
    simp only [Check.loadConfig, hsource, Config.Source.path?, Config.load, htoml, hparse,
      Except.mapError]
  have hanalyzer : c.analyzer fs config rules = .ok a :=
    Check.analyzer_eq_ok_iff.mpr ⟨_, eq_ok_of_toOption (by decide +kernel), rfl⟩
  have hdiscover : a.discover fs = .ok [⟨"/p/a.js"⟩, ⟨"/p/b.js"⟩] :=
    eq_ok_of_toOption (by rw [discover_toOption]; decide +kernel)
  have ha : fs.read ⟨"/p/a.js"⟩ = .ok "f(1);function g(a){}" :=
    eq_ok_of_toOption (by decide +kernel)
  have hb : fs.read ⟨"/p/b.js"⟩ = .ok "f(" := eq_ok_of_toOption (by decide +kernel)
  have hpasses : ∀ p ∈ [⟨"/p/a.js"⟩, ⟨"/p/b.js"⟩], a.Passes fs p := by
    rw [List.forall_mem_cons, List.forall_mem_singleton]
    exact ⟨passes_of_isSource (by decide +kernel) ha (.inr rfl),
      passes_of_isSource (by decide +kernel) hb (.inr rfl)⟩
  have hreport := (analyze_eq_ok_iff _).mpr ⟨_, hdiscover, hpasses, rfl⟩
  let s : c.Stages fs := ⟨config, rules, rules, a, _, hconfig, hrules, rfl, hanalyzer, hreport⟩
  have hseverities : s.report.violations.map (·.severity) = [.error, .info] := by
    show (Report.sort _).violations.map _ = _
    rw [Report.sort_eq_insertionSort]
    decide +kernel
  have hfinds : s.FindsError := by
    rw [← s.countAt_error_pos_iff, Report.countAt_pos_iff]
    exact List.mem_map.mp (hseverities ▸ List.mem_cons_self)
  obtain ⟨_, hstages⟩ := run_check_status fs {} args _ ⟨"/p"⟩ .text none ["x"] hread rfl
  obtain ⟨errors, _, _, _, _, hstatus, _, herrors⟩ := (hstages s).2 rfl
  exact ⟨hread, s, hseverities, hfinds, hstatus.mpr (herrors.mpr hfinds)⟩

end Cli

end ArityCheck
