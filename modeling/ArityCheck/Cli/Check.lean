import ArityCheck.Analysis.Basic
import ArityCheck.Cli.Failure
import ArityCheck.Config.Load
import ArityCheck.Config.Source
import ArityCheck.Rule.Selection
import ArityCheck.Text.Blank

/-! The command that checks a directory or a file.

Each stage needs the one before it: the configuration is loaded, rules are made from it and
chosen among, an analyzer is built and run, and its report is printed. -/

namespace ArityCheck.Cli

/-- What is to be checked, and how. -/
structure Check where
  path : Path
  rules : Option String
  exclude : List String
  source : Config.Source

namespace Check

/-! ### Stages -/

def loadConfig (c : Check) (fs : FileSystem) : Except Failure Config :=
  match c.source.path? with
  | none => .ok {}
  | some path => (Config.load fs path).mapError (.config path)

/-- The names between commas, without the blanks around them. -/
def selectors (text : String) : List String := (text.splitOn ",").map Text.trim

def chooseRules (c : Check) (rules : List Rule) : Except Failure (List Rule) :=
  match c.rules with
  | none => .ok rules
  | some text => (Rule.select rules (selectors text)).mapError .unknownRule

def makeRules (c : Check) (config : Config) : Except Failure (List Rule) := do
  c.chooseRules (← (Rule.allOfConfig config).mapError .rules)

def analyzer (c : Check) (fs : FileSystem) (config : Config) (rules : List Rule) :
    Except Failure Analyzer :=
  (Analyzer.build fs.cwd (some c.path) (some config) c.exclude rules false).mapError .build

/-- The analyzer with the rules that were chosen. -/
def prepare (c : Check) (fs : FileSystem) : Except Failure Analyzer := do
  let config ← c.loadConfig fs
  c.analyzer fs config (← c.makeRules config)

/-- The analyzer and its report. -/
def report (c : Check) (fs : FileSystem) : Except Failure (Analyzer × Report) := do
  let a ← c.prepare fs
  return (a, ← (a.analyze fs).mapError .analysis)

/-! ### Notes -/

def sourceNote (c : Check) : Log.Event :=
  let origin := "arity_lint::config_resolver"
  match c.source with
  | .defaults => ⟨.debug, origin, "No config file found, using defaults"⟩
  | .global path => ⟨.info, origin, "Using global config: " ++ path.text⟩
  | .explicit path | .project path => ⟨.debug, origin, "Using config: " ++ path.text⟩

def note (level : Log.Level) (message : String) : Log.Event :=
  ⟨level, "arity_lint::commands::check", message⟩

def ruleNotes (rules : List Rule) : List Log.Event :=
  (rules.filter (!·.isActive)).map fun r =>
    note .debug ("Rule " ++ r.name ++ " has no limits configured")

/-- The notes on the stages, up to the first that fails. -/
def notes (c : Check) (fs : FileSystem) : List Log.Event :=
  c.sourceNote ::
    match c.loadConfig fs with
    | .error _ => []
    | .ok config =>
      match c.makeRules config with
      | .error _ => []
      | .ok rules =>
        ruleNotes rules ++
          match c.analyzer fs config rules with
          | .error _ => []
          | .ok a =>
            note .info ("Analyzing " ++ Text.quoted c.path.text ++ " with " ++
              toString a.rules.length ++ " rules") :: a.notes fs

end Check

end ArityCheck.Cli
