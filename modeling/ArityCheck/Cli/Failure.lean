import ArityCheck.Analysis.Error
import ArityCheck.Config.Error
import ArityCheck.Report.Format

/-! Why a run of the program failed. -/

namespace ArityCheck.Cli

inductive Failure where
  | config (path : Path) (e : ConfigError)
  | rules (e : ConfigError)
  | unknownRule (selector : String)
  | build (e : AnalysisError)
  | analysis (e : AnalysisError)
  | reread (e : RereadFault)
  /-- A file is there already. -/
  | present (path : Path)
  | write (path : Path) (fault : FileFault)
deriving DecidableEq, Repr

namespace Failure

/-- What was being done, or what is wrong if nothing lies behind that. -/
def context : Failure → String
  | .config path _ => "Failed to load config: " ++ path.text
  | .rules _ => "Invalid rule configuration"
  | .unknownRule selector => "Unknown rule: " ++ selector
  | .build _ => "Failed to build analyzer"
  | .analysis _ => "Analysis failed"
  | .reread e => "Failed to re-read " ++ e.path.text
  | .present path =>
    "Configuration file already exists at " ++ path.text ++ ". Use --force to overwrite."
  | .write path _ => "Failed to write " ++ path.text

def configCauses : ConfigError → List String
  | e@(.unreadable _ fault) => [e.message, fault.message]
  | e => [e.message]

/-- What lies behind the failure, the nearest first. -/
def causes : Failure → List String
  | .config _ e | .rules e => configCauses e
  | .build e | .analysis e => e.message :: e.cause?.toList
  | .reread e => [e.fault.message]
  | .write _ fault => [fault.message]
  | .unknownRule _ | .present _ => []

/-! ### Text -/

/-- A text with its first line after `first` and the others after as many blanks. -/
def indented (first text : String) : String :=
  first ++ ("\n" ++ String.ofList (List.replicate first.length ' ')).intercalate (text.splitOn "\n")

/-- Causes are numbered if there are several. -/
def causeLines : List String → List String
  | [cause] => [indented "    " cause]
  | causes => causes.mapIdx fun i cause =>
    let number := toString i
    indented (String.ofList (List.replicate (5 - number.length) ' ') ++ number ++ ": ") cause

def text (f : Failure) : String :=
  "Error: " ++ f.context ++ "\n" ++
    if f.causes.isEmpty then ""
    else "\nCaused by:\n" ++ String.join ((causeLines f.causes).map (· ++ "\n"))

end Failure

end ArityCheck.Cli
