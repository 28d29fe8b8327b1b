import ArityCheck.FileSystem.Fault
import ArityCheck.Glob.Basic
import ArityCheck.Path.Basic
import ArityCheck.Source.Dialect

/-! What can go wrong in an analysis. -/

namespace ArityCheck

inductive AnalysisError where
  /-- A pattern to leave out is malformed. -/
  | pattern (e : Glob.Error)
  /-- The root cannot be walked. -/
  | walk (root : Path) (fault : FileFault)
  | unreadable (fault : FileFault)
  | unsupported (ext : String)
  /-- A file does not follow the grammar of its language. -/
  | malformed (path : Path) (message : String)
deriving DecidableEq, Repr

namespace AnalysisError

/-- What lies behind an error, if that is something else. -/
def cause? : AnalysisError → Option String
  | .pattern e => some e.message
  | .walk root fault =>
    some (root.text ++ ": IO error for operation on " ++ root.text ++ ": " ++ fault.message)
  | .unreadable fault => some fault.message
  | .unsupported ext => some (Dialect.unsupported ext)
  | .malformed _ _ => none

def message (e : AnalysisError) : String :=
  let cause := e.cause?.getD ""
  match e with
  | .pattern _ => "Invalid glob pattern: " ++ cause
  | .walk _ _ => "Failed to walk directory: " ++ cause
  | .unreadable _ => "IO error: " ++ cause
  | .unsupported _ => "Syntax error: " ++ cause
  | .malformed path message => "Parse error in " ++ path.text ++ ": " ++ message

end AnalysisError

end ArityCheck
