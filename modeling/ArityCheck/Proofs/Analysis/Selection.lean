import ArityCheck.Proofs.Analysis.Files

/-! An analysis with some of the rules.

Rules do not look at each other, so leaving some out leaves out what they report and nothing else.
`Rule.select_eq_ok_iff` and `Rule.select_eq_error_iff` say what a list of selectors chooses.
`analyzeSource_select` says what becomes of one text, and `analyze_select` of an analysis: its
report is that of all rules, less the violations of those that were not chosen. -/
namespace ArityCheck

/-! ### Choosing rules -/

namespace Rule

variable {rules kept : List Rule} {selectors : List String}

theorem isNamed_iff {r : Rule} {s : String} : r.isNamed s = true ↔ r.name = s ∨ r.code = s := by
  simp [isNamed]

theorem any_isNamed (r : Rule) (selectors : List String) :
    selectors.any r.isNamed = decide (r.name ∈ selectors ∨ r.code ∈ selectors) := by
  rw [Bool.eq_iff_iff, List.any_eq_true, decide_eq_true_iff]
  simp only [isNamed_iff]
  constructor
  · rintro ⟨s, hs, rfl | rfl⟩
    · exact .inl hs
    · exact .inr hs
  · rintro (hs | hs)
    · exact ⟨_, hs, .inl rfl⟩
    · exact ⟨_, hs, .inr rfl⟩

theorem any_isNamed_eq_false_iff {s : String} :
    rules.any (·.isNamed s) = false ↔ ∀ r ∈ rules, r.name ≠ s ∧ r.code ≠ s := by
  rw [List.any_eq_false]
  refine forall₂_congr fun r _ => ?_
  rw [isNamed_iff, not_or]

theorem any_isNamed_eq_true_iff {s : String} :
    rules.any (·.isNamed s) = true ↔ ∃ r ∈ rules, r.name = s ∨ r.code = s := by
  simp only [List.any_eq_true, isNamed_iff]

/-- **Choosing fails with the first selector that chooses nothing.** -/
theorem select_eq_error_iff {s : String} :
    select rules selectors = .error s ↔ ∃ before after, selectors = before ++ s :: after ∧
      (∀ r ∈ rules, r.name ≠ s ∧ r.code ≠ s) ∧
      ∀ t ∈ before, ∃ r ∈ rules, r.name = t ∨ r.code = t := by
  have hfind : select rules selectors = .error s ↔
      selectors.find? (fun s => !rules.any (·.isNamed s)) = some s := by
    rw [select]
    cases selectors.find? fun s => !rules.any (·.isNamed s) <;> simp
  rw [hfind, List.find?_eq_some_iff_append]
  simp only [Bool.not_eq_true', any_isNamed_eq_false_iff, Bool.not_not, any_isNamed_eq_true_iff]
  constructor
  · rintro ⟨hnone, before, after, rfl, hbefore⟩
    exact ⟨before, after, rfl, hnone, hbefore⟩
  · rintro ⟨before, after, rfl, hnone, hbefore⟩
    exact ⟨hnone, before, after, rfl, hbefore⟩

/-- **Choosing keeps the rules that some selector names, in their own order.** -/
theorem select_eq_ok_iff :
    select rules selectors = .ok kept ↔
      (∀ s ∈ selectors, ∃ r ∈ rules, r.name = s ∨ r.code = s) ∧
        kept = rules.filter fun r => r.name ∈ selectors ∨ r.code ∈ selectors := by
  have hfind : selectors.find? (fun s => !rules.any (·.isNamed s)) = none ↔
      ∀ s ∈ selectors, ∃ r ∈ rules, r.name = s ∨ r.code = s := by
    simp only [List.find?_eq_none, Bool.not_eq_true', Bool.not_eq_false, any_isNamed_eq_true_iff]
  rw [select, ← hfind]
  simp only [any_isNamed]
  cases selectors.find? fun s => !rules.any (·.isNamed s) with
  | none => simp [eq_comm]
  | some s => simp

/-- Neither the order of selectors nor their repetition counts. -/
theorem select_congr {selectors' : List String} (h : ∀ s, s ∈ selectors' ↔ s ∈ selectors)
    (hselect : select rules selectors = .ok kept) : select rules selectors' = .ok kept := by
  obtain ⟨hall, hkept⟩ := select_eq_ok_iff.mp hselect
  refine select_eq_ok_iff.mpr ⟨fun s hs => hall s ((h s).mp hs), ?_⟩
  simp only [h]
  exact hkept

/-- The rules of a configuration have different names. -/
theorem nodup_name_allOfConfig {c : Config} (h : allOfConfig c = .ok rules) :
    (rules.map name).Nodup := by
  obtain ⟨arguments, parameters, harguments, hparameters, rfl⟩ := allOfConfig_eq_ok h
  obtain ⟨_, -, rfl⟩ := ofConfig_eq_ok harguments
  obtain ⟨_, -, rfl⟩ := ofConfig_eq_ok hparameters
  simp [name, RuleKind.name]

end Rule

/-! ### Reports -/

/-- The violation is one of a rule that some selector names. -/
def Violation.isChosen (selectors : List String) (v : Violation) : Bool :=
  v.rule ∈ selectors ∨ v.code ∈ selectors

namespace Report

/-- The report without the violations that are not kept. -/
def only (r : Report) (keep : Violation → Bool) : Report :=
  { r with violations := r.violations.filter keep }

theorem sort_only (r : Report) (keep : Violation → Bool) : (r.only keep).sort = r.sort.only keep := by
  have hkept := Sorting.filter_mergeSort (fun _ _ _ => Std.TransCmp.isLE_trans)
    (@isLE_or_isLE _ Violation.order _) keep r.violations
  simp only [sort, only, hkept]

end Report

namespace Analyzer

variable {fs : FileSystem}

/-- The analyzer with the rules that some selector names. -/
def choosing (a : Analyzer) (selectors : List String) : Analyzer :=
  { a with rules := a.rules.filter fun r => r.name ∈ selectors ∨ r.code ∈ selectors }

theorem isChosen_of_violation? {a : Analyzer} {file : Path} {r : Rule} {c : Construct}
    {v : Violation} (h : a.violation? file r c = some v) (selectors : List String) :
    v.isChosen selectors = decide (r.name ∈ selectors ∨ r.code ∈ selectors) := by
  obtain ⟨-, hrule, hcode⟩ := file_and_rule_of_violation? h
  rw [Violation.isChosen, hrule, hcode]

/-- **One text: the violations of the rules that were chosen.** -/
theorem analyzeSource_select (a : Analyzer) (selectors : List String) (p : Path) (text : String) :
    (a.choosing selectors).analyzeSource p text =
      (a.analyzeSource p text).map (List.filter (Violation.isChosen selectors)) := by
  cases hdialect : Dialect.ofPath p with
  | error ext => simp [analyzeSource, inspect_of_unsupported _ hdialect, violations, Except.map]
  | ok dialect =>
    rw [analyzeSource, analyzeSource, inspect_of_dialect _ hdialect, inspect_of_dialect _ hdialect]
    cases hfaults : (Outline.ofTree (Grammar.parse dialect text)).faults with
    | cons first rest => simp [outcome, hfaults, violations, Except.map]
    | nil =>
      rw [violations_outcome _ p hfaults, violations_outcome _ p hfaults, Except.map]
      refine congrArg Except.ok (Eq.symm ?_)
      refine filter_flatMap_of_forall fun r _ v hv => ?_
      obtain ⟨c, -, hc⟩ := List.mem_filterMap.mp hv
      exact isChosen_of_violation? hc selectors

theorem collect_select (a : Analyzer) (selectors : List String) (files : List Path) :
    (a.choosing selectors).collect (files.map ((a.choosing selectors).inspectFile fs)) =
      (a.collect (files.map (a.inspectFile fs))).map (·.only (Violation.isChosen selectors)) := by
  induction files with
  | nil => rfl
  | cons p files ih =>
    rw [List.map_cons, List.map_cons, collect_cons, collect_cons, ih]
    cases fs.read p with
    | error fault => rfl
    | ok text =>
      simp only [analyzeSource_select]
      cases a.analyzeSource p text with
      | ok violations =>
        cases a.collect (files.map (a.inspectFile fs)) <;> simp [Except.map, Report.only]
      | error e =>
        cases e with
        | malformed q m =>
          show (if a.failOnParseError = true then _ else _) = _
          cases a.failOnParseError <;> rfl
        | _ => rfl

/-- **An analysis with the rules that were chosen reports what they report among all of them.** -/
theorem analyze_choosing (a : Analyzer) (selectors : List String) (fs : FileSystem) :
    (a.choosing selectors).analyze fs =
      (a.analyze fs).map (·.only (Violation.isChosen selectors)) := by
  have hdiscover : (a.choosing selectors).discover fs = a.discover fs := rfl
  rw [analyze, analyze, hdiscover]
  cases a.discover fs with
  | error e => rfl
  | ok files =>
    simp only [bind, Except.bind, collect_select]
    cases a.collect (files.map (a.inspectFile fs)) with
    | error e => rfl
    | ok report => exact congrArg Except.ok (report.sort_only _)

/-- **Choosing rules leaves out what the other rules report and nothing else.** Selectors are
accepted exactly if each of them is the name or the code of a rule, and the first that is neither
is what choosing fails with. The rules that are chosen stay in their order, whatever that of the
selectors is and however often they are repeated, and those of a configuration are all different.
With them every analysis fails as it does with all rules, or it reports the violations of the
chosen rules in the same order, for as many files. -/
theorem analyze_select (a : Analyzer) (selectors : List String) :
    ((∃ kept, Rule.select a.rules selectors = .ok kept) ↔
      ∀ s ∈ selectors, ∃ r ∈ a.rules, r.name = s ∨ r.code = s) ∧
    (∀ s, Rule.select a.rules selectors = .error s ↔
      ∃ before after, selectors = before ++ s :: after ∧
        (∀ r ∈ a.rules, r.name ≠ s ∧ r.code ≠ s) ∧
        ∀ t ∈ before, ∃ r ∈ a.rules, r.name = t ∨ r.code = t) ∧
    ∀ kept, Rule.select a.rules selectors = .ok kept →
      (kept = a.rules.filter fun r => r.name ∈ selectors ∨ r.code ∈ selectors) ∧
      (Rule.allOfConfig a.config = .ok a.rules → (kept.map Rule.name).Nodup) ∧
      (∀ selectors', (∀ s, s ∈ selectors' ↔ s ∈ selectors) →
        Rule.select a.rules selectors' = .ok kept) ∧
      ∀ fs, { a with rules := kept }.analyze fs = (a.analyze fs).map fun report =>
        { report with
          violations := report.violations.filter fun v =>
            v.rule ∈ selectors ∨ v.code ∈ selectors } := by
  refine ⟨?_, fun s => Rule.select_eq_error_iff, fun kept hselect => ?_⟩
  · simp only [Rule.select_eq_ok_iff, exists_and_left, exists_eq, and_true]
  · have hkept := (Rule.select_eq_ok_iff.mp hselect).2
    refine ⟨hkept, fun hrules => ?_, fun selectors' h => Rule.select_congr h hselect, fun fs => ?_⟩
    · rw [hkept]
      exact (List.filter_sublist.map Rule.name).nodup (Rule.nodup_name_allOfConfig hrules)
    · rw [hkept]
      exact a.analyze_choosing selectors fs

/-- A rule is chosen by its code, by its name and by its code again. Of a call, a function and
another call the function goes unreported. -/
theorem analyze_select_of_code_and_name :
    let table : RuleTable := { options := [("global", .integer 0)] }
    let config : Config := { rules := [("func-args", table), ("func-params", table)] }
    let rules := [RuleKind.arguments, .parameters].map fun k => (Rule.ofKind k).withLimit "global" 0
    let a : Analyzer := ⟨⟨"/p"⟩, rules, [], config, false⟩
    let fs : FileSystem := ⟨.folder [("p", .folder
      [("a.js", .file "f(1);x=function(a){};f(2)".toUTF8)])], ⟨"/"⟩⟩
    let shown := fun report : Report =>
      (report.violations.map fun v => (v.rule, v.location.column), report.filesChecked)
    Rule.allOfConfig config = .ok rules ∧
      ∃ kept, Rule.select rules ["AR001", "func-args", "AR001"] = .ok kept ∧
        Rule.select rules ["func-args", "AR001"] = .ok kept ∧ (kept.map Rule.name).Nodup ∧
        (a.analyze fs).toOption.map shown =
          some ([("func-args", 1), ("func-params", 8), ("func-args", 22)], 1) ∧
        ({ a with rules := kept }.analyze fs).toOption.map shown =
          some ([("func-args", 1), ("func-args", 22)], 1) := by
  intro table config rules a fs shown
  have hrules : Rule.allOfConfig config = .ok rules := rfl
  have hdiscover : a.discover fs = .ok [⟨"/p/a.js"⟩] :=
    eq_ok_of_toOption (by rw [discover_toOption]; decide +kernel)
  have hread : fs.read ⟨"/p/a.js"⟩ = .ok "f(1);x=function(a){};f(2)" :=
    eq_ok_of_toOption (by decide +kernel)
  have hreport := (analyze_eq_ok_iff _).mpr ⟨_, hdiscover, List.forall_mem_singleton.mpr
    (passes_of_isSource (by decide +kernel) hread (.inr rfl)), rfl⟩
  obtain ⟨hok, -, hchosen⟩ := analyze_select a ["AR001", "func-args", "AR001"]
  obtain ⟨kept, hselect⟩ := hok.mpr (by decide +kernel)
  obtain ⟨-, hnodup, hselectors, hanalyze⟩ := hchosen kept hselect
  refine ⟨hrules, kept, hselect, hselectors _ (by simp), hnodup hrules, ?_⟩
  rw [hanalyze, hreport, Report.sort_eq_insertionSort]
  decide +kernel

end Analyzer

end ArityCheck
