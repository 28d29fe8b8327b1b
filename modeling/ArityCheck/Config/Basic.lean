import ArityCheck.Path.Basic
import ArityCheck.Report.Severity
import ArityCheck.SortedMap
import ArityCheck.Toml.Value

/-! Configurations: what to analyze, and a table for each rule. -/

namespace ArityCheck

/-- Which files are analyzed. -/
structure AnalyzerSettings where
  root : Path := ⟨"."⟩
  exclude : List String := []
  respectGitignore : Bool := true
deriving DecidableEq, Repr

/-- The table of a rule. Every key but two is an option of the rule. -/
structure RuleTable where
  enabled : Option Bool := none
  severity : Option Severity := none
  /-- The options in the order of their keys. -/
  options : List (String × Toml.Value) := []

structure Config where
  analyzer : AnalyzerSettings := {}
  rules : List (String × RuleTable) := []

namespace Config

def rule? (c : Config) (name : String) : Option RuleTable := Entries.get? name c.rules

/-- A rule is enabled unless its table says otherwise. -/
def isEnabled (c : Config) (name : String) : Bool :=
  ((c.rule? name).bind (·.enabled)).getD true

/-- The severity that the table of a rule asks for. -/
def severity? (c : Config) (name : String) : Option Severity :=
  (c.rule? name).bind (·.severity)

end Config

end ArityCheck
