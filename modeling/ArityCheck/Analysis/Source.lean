import ArityCheck.Analysis.Error
import ArityCheck.Config.Basic
import ArityCheck.Grammar.Program
import ArityCheck.Log.Basic
import ArityCheck.Outline.Basic
import ArityCheck.Report.Basic
import ArityCheck.Rule.Basic

/-! The analysis of one source text.

Rules that are disabled or inactive are passed over; every other one looks at the constructs of
the text, and its violations get the severity that the configuration asks for. A text that does
not follow its grammar is not checked at all. -/

namespace ArityCheck

/-- What an analysis is made with. -/
structure Analyzer where
  root : Path
  rules : List Rule
  excludes : List Glob
  config : Config
  failOnParseError : Bool

/-- What a rule did with a text. -/
inductive RuleRun where
  | disabled
  | inactive
  | ran (findings : List Finding)
deriving DecidableEq, Repr

/-- What became of a text. -/
inductive SourceOutcome where
  | unsupported (ext : String)
  | malformed (message : String)
  | checked (runs : List (Rule × RuleRun))

namespace Analyzer

/-- The severity of the violations of a rule. -/
def severity (a : Analyzer) (r : Rule) : Severity := (a.config.severity? r.name).getD r.severity

def runRule (a : Analyzer) (constructs : List Construct) (r : Rule) : RuleRun :=
  if !a.config.isEnabled r.name then .disabled
  else if !r.isActive then .inactive
  else .ran (r.findings constructs)

/-- The place of the first fault, and how many there are. A text that cannot be read is one fault
from its first character on, so of such a text the message is always about 1:1 and one fault: it
tells neither where the text departs from its grammar nor how often. -/
def faultMessage (first : Span) (count : Nat) : String :=
  "syntax error at " ++ toString first.line ++ ":" ++ toString first.column ++ " (" ++
    toString count ++ " total)"

/-- What becomes of an outline. -/
def outcome (a : Analyzer) (o : Outline) : SourceOutcome :=
  match o.faults with
  | first :: rest => .malformed (faultMessage first (rest.length + 1))
  | [] => .checked (a.rules.map fun r => (r, a.runRule o.constructs r))

/-- What becomes of a text that lies at a path. -/
def inspect (a : Analyzer) (path : Path) (text : String) : SourceOutcome :=
  match Dialect.ofPath path with
  | .error ext => .unsupported ext
  | .ok dialect => a.outcome (Outline.ofTree (Grammar.parse dialect text))

/-- The violations of one rule. -/
def runViolations (a : Analyzer) (file : Path) : Rule × RuleRun → List Violation
  | (r, .ran findings) => findings.map (·.violation file (a.severity r))
  | _ => []

/-- The violations that an outcome stands for, in the order of the rules. -/
def violations (a : Analyzer) (path : Path) : SourceOutcome → Except AnalysisError (List Violation)
  | .unsupported ext => .error (.unsupported ext)
  | .malformed message => .error (.malformed path message)
  | .checked runs => .ok (runs.flatMap (a.runViolations (path.relativeTo a.root)))

/-- The violations of a text as if it lay at a path. -/
def analyzeSource (a : Analyzer) (path : Path) (text : String) :
    Except AnalysisError (List Violation) :=
  a.violations path (a.inspect path text)

/-! ### Notes -/

def note (level : Log.Level) (message : String) : Log.Event :=
  ⟨level, "arity_lint_core::analyzer", message⟩

/-- The part of the program that a kind of rule reports from. -/
def ruleSource : RuleKind → String
  | .arguments => "arity_lint_rules::func_args"
  | .parameters => "arity_lint_rules::func_params"

def runNotes (file : Path) : Rule × RuleRun → List Log.Event
  | (r, .disabled) => [note .debug ("Skipping disabled rule: " ++ r.name)]
  | (r, .inactive) => [note .debug ("Skipping inactive rule: " ++ r.name)]
  | (r, .ran findings) => findings.map fun f => ⟨.trace, ruleSource r.kind, f.note file⟩

/-- The notes on the analysis of a text. -/
def sourceNotes (a : Analyzer) (path : Path) (outcome : SourceOutcome) : List Log.Event :=
  note .debug ("Analyzing: " ++ path.text) ::
    match outcome with
    | .checked runs => runs.flatMap (runNotes (path.relativeTo a.root))
    | _ => []

end Analyzer

end ArityCheck
