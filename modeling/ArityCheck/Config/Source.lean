import ArityCheck.Config.Basic
import ArityCheck.FileSystem.Basic

/-! Where the configuration of a run comes from.

A path that is given outright is taken as it is. Otherwise the directories from the target upwards
are searched, then the directory of the user, and if there is nothing the defaults hold. -/

namespace ArityCheck.Config

inductive Source where
  | explicit (path : Path)
  /-- In the directory of the target or one above it. -/
  | project (path : Path)
  /-- In the directory of the user. -/
  | global (path : Path)
  | defaults
deriving DecidableEq, Repr

namespace Source

def path? : Source → Option Path
  | .explicit path | .project path | .global path => some path
  | .defaults => none

/-- The names of configuration files in a project, the preferred one first. -/
def projectNames : List String := ["arity-lint.toml", ".arity-lint.toml"]

def globalName : String := "config.toml"

/-- The configuration file in a directory. -/
def inDirectory? (fs : FileSystem) (dir : Path) : Option Path :=
  (projectNames.map fun name => dir.join ⟨name⟩).find? fs.isFile

/-- The configuration file in the nearest directory that has one, at or above the target. The
directories above are those of the path as it is written. -/
def findProject? (fs : FileSystem) (target : Path) : Option Path :=
  (fs.absolute target).ancestors.findSome? (inDirectory? fs)

def resolve (fs : FileSystem) (target : Path) (explicit? globalDir? : Option Path) : Source :=
  match explicit? with
  | some path => .explicit path
  | none =>
    match findProject? fs target with
    | some path => .project path
    | none =>
      match (globalDir?.map (·.join ⟨globalName⟩)).filter fs.isFile with
      | some path => .global path
      | none => .defaults

end Source

end ArityCheck.Config
