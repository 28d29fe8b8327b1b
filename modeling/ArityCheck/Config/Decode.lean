import ArityCheck.Config.Basic
import ArityCheck.Toml.Reader

/-! Reading configurations from TOML documents.

Keys that are not known are left aside, and known ones must have a value of the right type. The
settings of the analyzer may also be given as an array that holds them in order. -/

namespace ArityCheck

open Toml (Value)

namespace Config.Decode

def text? : Value → Option String
  | .string s => some s
  | _ => none

def bool? : Value → Option Bool
  | .boolean b => some b
  | _ => none

def texts? : Value → Option (List String)
  | .array items => items.mapM text?
  | _ => none

/-- A severity is its name, or a table with that name as its only key and nothing in it. -/
def severity? : Value → Option Severity
  | .string s => Severity.ofName? s
  | .table [(s, .table [])] | .table [(s, .array [])] => Severity.ofName? s
  | _ => none

/-- A value that may be missing. None if it is there but of the wrong type. -/
def optional? {α : Type} (read? : Value → Option α) : Option Value → Option (Option α)
  | none => some none
  | some v => (read? v).map some

def settings? (root exclude respect : Option Value) : Option AnalyzerSettings := do
  let defaults : AnalyzerSettings := {}
  return {
    root := ((← optional? text? root).map Path.mk).getD defaults.root
    exclude := (← optional? texts? exclude).getD defaults.exclude
    respectGitignore := (← optional? bool? respect).getD defaults.respectGitignore }

def analyzer? : Value → Option AnalyzerSettings
  | .table entries =>
    settings? (Entries.get? "root" entries) (Entries.get? "exclude" entries)
      (Entries.get? "respect_gitignore" entries)
  | .array items => settings? items[0]? items[1]? items[2]?
  | _ => none

def ruleTable? (entries : List (String × Value)) : Option RuleTable := do
  return {
    enabled := ← optional? bool? (Entries.get? "enabled" entries)
    severity := ← optional? severity? (Entries.get? "severity" entries)
    options := entries.filter fun (k, _) => k != "enabled" && k != "severity" }

def ruleEntry? : String × Value → Option (String × RuleTable)
  | (name, .table entries) => (ruleTable? entries).map (name, ·)
  | _ => none

def rules? : Value → Option (List (String × RuleTable))
  | .table entries => entries.mapM ruleEntry?
  | _ => none

end Config.Decode

open Config.Decode in
/-- The configuration that a document stands for. -/
def Config.parse? (text : String) : Option Config := do
  let entries ← Toml.parse? text
  return {
    analyzer := (← optional? analyzer? (Entries.get? "analyzer" entries)).getD {}
    rules := (← optional? rules? (Entries.get? "rules" entries)).getD [] }

/-- The rule table that a document stands for. -/
def RuleTable.parse? (text : String) : Option RuleTable :=
  (Toml.parse? text).bind Config.Decode.ruleTable?

end ArityCheck
