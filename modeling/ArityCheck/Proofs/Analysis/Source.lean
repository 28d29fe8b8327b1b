import ArityCheck.Proofs.Limit.Options
import ArityCheck.Proofs.Outline.Document
import ArityCheck.Rule.Selection

/-! The violations of one source text, told from the tables of the configuration.

What a rule reports passes through limits, their resolution, the gates for rules that are off or
have nothing to check, and the override of the severity. `callViolation?` and `functionViolation?`
say what comes out at the end, for one construct, in terms of the raw numbers of the table alone;
`analyzeSource_eq_table` says that an analysis gives that and nothing else. -/
namespace ArityCheck

namespace Config

/-! ### The tables -/

/-- The options in the table of a rule. Without a table there are none. -/
def options (c : Config) (rule : String) : List (String × Toml.Value) :=
  ((c.rule? rule).map (·.options)).getD []

/-- The number at a key of the table of a rule. -/
def number? (c : Config) (rule key : String) : Option Int :=
  match Entries.get? key (c.options rule) with
  | some (.integer n) => some n
  | _ => none

/-- The number that applies to a key: its own if the key is not empty and stands in the table, or
else the one at `global`. -/
def selected? (c : Config) (rule key : String) : Option Int :=
  if key ≠ "" ∧ (Entries.get? key (c.options rule)).isSome then c.number? rule key
  else c.number? rule "global"

/-- The most that the table of a rule allows, if a count is above that and the rule is not turned
off. A number below zero or above the largest of 32 bits allows everything. -/
def exceeded? (c : Config) (rule key : String) (count : Nat) : Option Nat :=
  match c.selected? rule key with
  | none => none
  | some n =>
    if (c.rule? rule).bind (·.enabled) ≠ some false ∧ 0 ≤ n ∧ n ≤ 4294967295 ∧ n < count then
      some n.toNat
    else none

end Config

/-- What is reported about a call. -/
def callViolation? (c : Config) (file : Path) : Construct → Option Violation
  | .call callee count span => do
    let name := callee.name?.getD ""
    let max ← c.exceeded? "func-args" name count
    let shown := if name = "" then "anonymous function" else name
    return {
      code := "AR001"
      rule := "func-args"
      severity := ((c.rule? "func-args").bind (·.severity)).getD .error
      location := ⟨file, span.line, span.column, span.offset, span.length⟩
      message := Excess.render ⟨shown, count, max⟩ RuleKind.arguments.template
      messageId := some "exceed"
      data := some ⟨name, count, max⟩
      suggestion := none
      docsUrl := some "https://github.com/ynishi/arity-lint/blob/main/docs/rules/func-args.md" }
  | .function _ _ _ _ => none

/-- What is reported about a function. -/
def functionViolation? (c : Config) (file : Path) : Construct → Option Violation
  | .function shape count binding span => do
    let name := shape.label binding
    let max ← c.exceeded? "func-params" (Category.ofShape shape).key count
    return {
      code := "AR002"
      rule := "func-params"
      severity := ((c.rule? "func-params").bind (·.severity)).getD .error
      location := ⟨file, span.line, span.column, span.offset, span.length⟩
      message := Excess.render ⟨name, count, max⟩ RuleKind.parameters.template
      messageId := some "exceed"
      data := some ⟨name, count, max⟩
      suggestion := some ⟨"group related parameters into an options object"⟩
      docsUrl := some "https://github.com/ynishi/arity-lint/blob/main/docs/rules/func-params.md" }
  | .call _ _ _ => none

namespace Rule

/-! ### Rules that were read from the tables -/

theorem ofConfig_eq_ok {kind : RuleKind} {c : Config} {r : Rule} (h : ofConfig kind c = .ok r) :
    ∃ limits, Limits.ofOptions kind.name kind.allowedKeys (c.options kind.name) = .ok limits ∧
      r = { kind, limits } := by
  unfold ofConfig at h
  cases hl : Limits.ofOptions kind.name kind.allowedKeys (c.options kind.name) with
  | error e =>
    rw [Config.options] at hl
    simp only [hl] at h
    cases h
  | ok limits =>
    rw [Config.options] at hl
    simp only [hl] at h
    exact ⟨limits, rfl, (Except.ok.inj h).symm⟩

theorem allOfConfig_eq_ok {c : Config} {rules : List Rule} (h : allOfConfig c = .ok rules) :
    ∃ arguments parameters, ofConfig .arguments c = .ok arguments ∧
      ofConfig .parameters c = .ok parameters ∧ rules = [arguments, parameters] := by
  unfold allOfConfig at h
  cases ha : ofConfig .arguments c with
  | error e => rw [ha] at h; cases h
  | ok arguments =>
    cases hp : ofConfig .parameters c with
    | error e => rw [ha, hp] at h; cases h
    | ok parameters =>
      rw [ha, hp] at h
      exact ⟨arguments, parameters, rfl, rfl, (Except.ok.inj h).symm⟩

/-! ### What a rule finds -/

theorem finding?_eq_some_iff {r : Rule} {c : Construct} {f : Finding} :
    r.finding? c = some f ↔ ∃ s max, r.kind.subject? c = some s ∧
      (r.limits.resolve s.key).exceededBy s.count = some max ∧ f = ⟨r.kind, s, max⟩ := by
  unfold finding?
  simp only [Option.bind_eq_bind, Option.bind_eq_some_iff, Option.pure_def, Option.some.injEq,
    eq_comm (a := f), exists_and_left]

/-- Without limits there is nothing to find, so it makes no difference that the rule is passed
over. -/
theorem finding?_of_not_isActive {r : Rule} (h : r.isActive = false) (c : Construct) :
    r.finding? c = none := by
  obtain ⟨kind, limits, severity⟩ := r
  cases kind with
  | parameters => cases h
  | arguments =>
    have hempty : limits.isEmpty = true := by simpa [isActive] using h
    have hselect : ∀ key, limits.select? key = none := by
      intro key
      simp [Limits.select?, SortedMap.get?_of_isEmpty hempty]
    cases hs : RuleKind.arguments.subject? c with
    | none => simp [finding?, hs]
    | some subject => simp [finding?, hs, Limits.exceededBy_resolve, hselect]

theorem findings_eq_filterMap (r : Rule) (constructs : List Construct) :
    r.findings constructs = constructs.filterMap r.finding? := by
  rw [findings]
  split
  next => rfl
  next h =>
    symm
    apply List.filterMap_eq_nil_iff.mpr
    intro c _
    exact finding?_of_not_isActive (Bool.eq_false_iff.mpr h) c

theorem check_eq_filterMap (r : Rule) (file : Path) (constructs : List Construct) :
    r.check file constructs =
      constructs.filterMap fun c => (r.finding? c).map (·.violation file r.severity) := by
  rw [check, findings_eq_filterMap, List.map_filterMap]

end Rule

namespace Analyzer

/-- The violations of a rule: its findings, if it is enabled. -/
theorem runViolations_eq (a : Analyzer) (file : Path) (constructs : List Construct) (r : Rule) :
    a.runViolations file (r, a.runRule constructs r) =
      if a.config.isEnabled r.name then
        (constructs.filterMap r.finding?).map (·.violation file (a.severity r))
      else [] := by
  rw [← Rule.findings_eq_filterMap]
  cases henabled : a.config.isEnabled r.name with
  | false => simp [runRule, henabled, runViolations]
  | true =>
    cases hactive : r.isActive with
    | false => simp [runRule, henabled, hactive, runViolations, Rule.findings]
    | true => simp [runRule, henabled, hactive, runViolations]

end Analyzer

/-! ### The table decides -/

/-- The number that the limits select is the one that the table does. -/
theorem Config.selected?_eq_select? {c : Config} {rule key : String} {limits : Limits}
    (h : ∀ k, Entries.get? k (c.options rule) = (limits.get? k).map .integer) :
    c.selected? rule key = limits.select? key := by
  have hnumber : ∀ k, c.number? rule k = limits.get? k := by
    intro k
    rw [number?, h]
    cases limits.get? k <;> rfl
  rw [selected?, Limits.select?, hnumber, hnumber, h, Option.isSome_map]
  by_cases hk : key = ""
  · rw [if_neg (fun hc => hc.1 hk), if_pos hk]
    rfl
  · rw [if_neg hk]
    cases hget : limits.get? key with
    | none => rw [if_neg (by simp)]; rfl
    | some n => rw [if_pos (by simp [hk])]; rfl

theorem Config.isEnabled_iff (c : Config) (rule : String) :
    c.isEnabled rule = true ↔ (c.rule? rule).bind (·.enabled) ≠ some false := by
  rw [isEnabled]
  cases (c.rule? rule).bind (·.enabled) with
  | none => simp
  | some enabled => cases enabled <;> simp

/-- What a count exceeds by the limits of an enabled rule is what it exceeds by the table. -/
theorem Config.exceeded?_eq {c : Config} {rule : String} {limits : Limits}
    (h : ∀ k, Entries.get? k (c.options rule) = (limits.get? k).map .integer)
    (henabled : c.isEnabled rule = true) (key : String) (count : Nat) :
    c.exceeded? rule key count = (limits.resolve key).exceededBy count := by
  rw [Limits.exceededBy_resolve, exceeded?, selected?_eq_select? h]
  have hon := (c.isEnabled_iff rule).mp henabled
  cases limits.select? key with
  | none => rfl
  | some n => simp only [hon, ne_eq, not_false_eq_true, true_and, Option.bind_some]

theorem Config.exceeded?_of_not_isEnabled {c : Config} {rule : String}
    (h : c.isEnabled rule = false) (key : String) (count : Nat) :
    c.exceeded? rule key count = none := by
  have hoff : ¬(c.rule? rule).bind (·.enabled) ≠ some false := by
    rw [← c.isEnabled_iff rule, h]
    exact Bool.false_ne_true
  rw [exceeded?]
  split
  next => rfl
  next n _ => rw [if_neg fun hc => hoff hc.1]

namespace RuleKind

/-- What is reported about a construct, for either kind of rule. -/
def violation? (kind : RuleKind) (c : Config) (file : Path) (x : Construct) : Option Violation :=
  (kind.subject? x).bind fun subject =>
    (c.exceeded? kind.name subject.key subject.count).map fun max =>
      (Finding.mk kind subject max).violation file ((c.severity? kind.name).getD .error)

theorem violation?_arguments (c : Config) (file : Path) :
    arguments.violation? c file = callViolation? c file := by
  funext x
  rcases x with ⟨callee, count, span⟩ | ⟨shape, count, binding, span⟩
  · show (c.exceeded? "func-args" (callee.name?.getD "") count).map _ = _
    rw [callViolation?]
    cases c.exceeded? "func-args" (callee.name?.getD "") count <;> rfl
  · rfl

theorem violation?_parameters (c : Config) (file : Path) :
    parameters.violation? c file = functionViolation? c file := by
  funext x
  rcases x with ⟨callee, count, span⟩ | ⟨shape, count, binding, span⟩
  · rfl
  · show (c.exceeded? "func-params" (Category.ofShape shape).key count).map _ = _
    rw [functionViolation?]
    cases c.exceeded? "func-params" (Category.ofShape shape).key count <;> rfl

end RuleKind

namespace Analyzer

variable {a : Analyzer} {r : Rule}

/-- A rule gives the violations that `expected` tells for each construct, if that is what its
findings are while it is enabled, and nothing while it is not. -/
theorem runViolations_eq_filterMap {file : Path} {expected : Construct → Option Violation}
    (hon : a.config.isEnabled r.name = true → ∀ c,
      (r.finding? c).map (·.violation file (a.severity r)) = expected c)
    (hoff : a.config.isEnabled r.name = false → ∀ c, expected c = none)
    (constructs : List Construct) :
    a.runViolations file (r, a.runRule constructs r) = constructs.filterMap expected := by
  rw [runViolations_eq]
  split
  next henabled =>
    rw [List.map_filterMap]
    congr 1
    funext c
    exact hon henabled c
  next henabled =>
    symm
    apply List.filterMap_eq_nil_iff.mpr
    intro c _
    exact hoff (Bool.eq_false_iff.mpr henabled) c

/-- The violations of a rule that was read from the tables, told from its table. -/
theorem runViolations_ofConfig {kind : RuleKind} (h : Rule.ofConfig kind a.config = .ok r)
    (file : Path) (constructs : List Construct) :
    a.runViolations file (r, a.runRule constructs r) =
      constructs.filterMap (kind.violation? a.config file) := by
  obtain ⟨limits, hlimits, rfl⟩ := Rule.ofConfig_eq_ok h
  have hget := Limits.get?_ofOptions hlimits
  refine runViolations_eq_filterMap (fun henabled c => ?_) (fun henabled c => ?_) constructs
  · rw [RuleKind.violation?, Rule.finding?]
    cases kind.subject? c with
    | none => rfl
    | some subject =>
      have hmax := Config.exceeded?_eq hget henabled subject.key subject.count
      rw [Option.bind_some, hmax, Option.bind_eq_bind, Option.bind_some]
      cases (limits.resolve subject.key).exceededBy subject.count <;> rfl
  · rw [RuleKind.violation?]
    cases kind.subject? c with
    | none => rfl
    | some subject =>
      have hmax := Config.exceeded?_of_not_isEnabled henabled subject.key subject.count
      exact congrArg (Option.map _) hmax

/-- **An analysis reports what the tables ask for and nothing else**: first one violation for each
call that has more arguments than its table allows, in document order, then one for each function
that has more parameters. -/
theorem analyzeSource_eq_table (a : Analyzer) (hrules : Rule.allOfConfig a.config = .ok a.rules)
    (path : Path) (dialect : Dialect) (hdialect : Dialect.ofPath path = .ok dialect) (text : String)
    (hfaults : (Outline.ofTree (Grammar.parse dialect text)).faults = []) :
    a.analyzeSource path text =
      .ok ((Outline.ofTree (Grammar.parse dialect text)).constructs.filterMap
          (callViolation? a.config (path.relativeTo a.root)) ++
        (Outline.ofTree (Grammar.parse dialect text)).constructs.filterMap
          (functionViolation? a.config (path.relativeTo a.root))) := by
  obtain ⟨arguments, parameters, harguments, hparameters, hlist⟩ := Rule.allOfConfig_eq_ok hrules
  rw [analyzeSource, inspect_of_dialect a hdialect, outcome_of_faults_eq_nil a hfaults, hlist]
  simp only [violations, List.map_cons, List.map_nil, List.flatMap_cons, List.flatMap_nil,
    List.append_nil, runViolations_ofConfig harguments, runViolations_ofConfig hparameters,
    RuleKind.violation?_arguments, RuleKind.violation?_parameters]

/-- A call whose own number is negative is let through, one without a number of its own is held
to the global one, and an arrow function to that of its category. -/
theorem analyzeSource_eq_table_of_overrides :
    let config : Config := { rules := [
      ("func-args", { severity := some .warning, options :=
        [("f", .integer (-1)), ("global", .integer 1)] }),
      ("func-params", { options :=
        [("arrowFuncExpression", .integer 0), ("global", .integer 9)] })] }
    ∃ rules, Rule.allOfConfig config = .ok rules ∧
      (Analyzer.mk ⟨"/p"⟩ rules [] config false).analyzeSource ⟨"/p/a.js"⟩ "f(1,2);g(1,2);h=x=>x" =
        .ok [
          { code := "AR001", rule := "func-args", severity := .warning
            location := ⟨⟨"a.js"⟩, 1, 8, 7, 6⟩
            message := Excess.render ⟨"g", 2, 1⟩ RuleKind.arguments.template
            messageId := some "exceed", data := some ⟨"g", 2, 1⟩
            docsUrl := some RuleKind.arguments.docsUrl },
          { code := "AR002", rule := "func-params", severity := .error
            location := ⟨⟨"a.js"⟩, 1, 17, 16, 4⟩
            message := Excess.render ⟨"arrow function 'h'", 1, 0⟩ RuleKind.parameters.template
            messageId := some "exceed", data := some ⟨"arrow function 'h'", 1, 0⟩
            suggestion := some ⟨"group related parameters into an options object"⟩
            docsUrl := some RuleKind.parameters.docsUrl }] := by
  intro config
  have hok : (Rule.allOfConfig config).toBool = true := by decide +kernel
  have houtline : Outline.ofTree (Grammar.parse .javaScript "f(1,2);g(1,2);h=x=>x") =
      ⟨[.call (.identifier "f") 2 ⟨0, 6, 1, 1⟩, .call (.identifier "g") 2 ⟨7, 6, 1, 8⟩,
        .function (.arrow false) 1 (some (.variable "h")) ⟨16, 4, 1, 17⟩], []⟩ := by
    decide +kernel
  cases hrules : Rule.allOfConfig config with
  | error e => rw [hrules] at hok; cases hok
  | ok rules =>
    refine ⟨rules, rfl, ?_⟩
    rw [analyzeSource_eq_table ⟨⟨"/p"⟩, rules, [], config, false⟩ hrules ⟨"/p/a.js"⟩ .javaScript
      rfl _ (congrArg Outline.faults houtline), houtline]
    dsimp only
    rfl

end Analyzer

end ArityCheck
