import ArityCheck.FileSystem.Basic
import ArityCheck.Ignore.File

/-! Walking through a folder.

Names that begin with a dot are hidden. Files that list what to ignore hold for their own folder
and all that is below, also if they lie above the folder where the walk begins; the nearer ones
come first, and `.ignore` comes before `.gitignore` and that before the list inside of `.git`. An
entry that is ignored is not entered, and one that is kept is shown even if it is hidden. -/

namespace ArityCheck

namespace Walk

/-- What the lists of one folder say. -/
structure Level where
  ignore : List Ignore.Entry
  gitignore : List Ignore.Entry
  exclude : List Ignore.Entry
  /-- The names that lead from that folder to the one being walked. -/
  names : List String

def entriesAt (folder : Node) (names : List String) : List Ignore.Entry :=
  match folder.content? names with
  | some content => Ignore.entries content
  | none => []

def Level.ofFolder (folder : Node) : Level where
  ignore := entriesAt folder [".ignore"]
  gitignore := entriesAt folder [".gitignore"]
  exclude := entriesAt folder [".git", "info", "exclude"]
  names := []

/-- The lists that hold in a folder, the nearest first, seen from a folder inside of it. -/
def enter (levels : List Level) (name : String) : List Level :=
  levels.map fun l => { l with names := l.names ++ [name] }

/-- The first verdict of one kind of list. -/
def verdictOf (levels : List Level) (kind : Level → List Ignore.Entry) (name : String)
    (isFolder : Bool) : Option Ignore.Verdict :=
  levels.findSome? fun l =>
    Ignore.verdict? (kind l) (Path.joinSegments (l.names ++ [name])) isFolder

/-- What is to be done with an entry of the folder being walked. -/
def verdict? (levels : List Level) (name : String) (isFolder : Bool) : Option Ignore.Verdict :=
  (verdictOf levels (·.ignore) name isFolder).or <|
    (verdictOf levels (·.gitignore) name isFolder).or <|
      verdictOf levels (·.exclude) name isFolder

def isHidden (name : String) : Bool := name.toList.head? == some '.'

def isSkipped (levels : List Level) (name : String) (isFolder : Bool) : Bool :=
  match verdict? levels name isFolder with
  | some .ignore => true
  | some .keep => false
  | none => isHidden name

mutual

/-- The files at or below a node that is reached by a path. Without `respect`, lists of what to
ignore do not count. -/
def files (respect : Bool) (levels : List Level) (path : Path) : Node → List Path
  | .file _ => [path]
  | .folder entries =>
    let levels := if respect then Level.ofFolder (.folder entries) :: levels else []
    entryFiles respect levels path entries

/-- The files among the entries of a folder, and below them. -/
def entryFiles (respect : Bool) (levels : List Level) (folder : Path) :
    List (String × Node) → List Path
  | [] => []
  | (name, node) :: rest =>
    (if isSkipped levels name node.isFolder then []
      else files respect (enter levels name) (folder.join ⟨name⟩) node) ++
    entryFiles respect levels folder rest

end

/-- The lists that hold above a place. -/
def levelsAbove (name : String) : List (String × Node) → List Level
  | [] => []
  | (holder, node) :: holders =>
    { Level.ofFolder node with names := [name] } ::
      (levelsAbove holder holders).map fun l => { l with names := l.names ++ [name] }

end Walk

namespace FileSystem

/-- Every file at or below a path, as long as it is not skipped. The path itself never is. -/
def walk (fs : FileSystem) (p : Path) (respect : Bool) : Except FileFault (List Path) := do
  let place ← fs.resolve p
  let levels := if respect then Walk.levelsAbove place.name place.holders else []
  return Walk.files respect levels p place.node

end FileSystem

end ArityCheck
