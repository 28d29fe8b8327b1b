import ArityCheck.FileSystem.Fault
import ArityCheck.Path.Basic

/-! A file system as a tree of folders and files.

A path is followed segment by segment from the root. Empty segments and `.` stay where they are
and `..` goes up, but all of them need a folder to start from. -/

namespace ArityCheck

inductive Node where
  | file (content : ByteArray)
  | folder (entries : List (String × Node))

namespace Node

def isFolder : Node → Bool
  | .file _ => false
  | .folder _ => true

def isFile (n : Node) : Bool := !n.isFolder

def find? (name : String) : List (String × Node) → Option Node
  | [] => none
  | (k, n) :: entries => if k = name then some n else find? name entries

def child? (n : Node) (name : String) : Option Node :=
  match n with
  | .file _ => none
  | .folder entries => find? name entries

/-- The content of a file that lies at some names below. -/
def content? : Node → List String → Option ByteArray
  | .file content, [] => some content
  | .folder _, [] => none
  | n, name :: names =>
    match n.child? name with
    | some c => c.content? names
    | none => none

/-- The entries of a folder. -/
def entries : Node → List (String × Node)
  | .file _ => []
  | .folder entries => entries

/-- Puts a node at some names below another one, with folders on the way to it. -/
def graft (node : Node) : List String → Node → Node
  | [], _ => node
  | name :: names, holder =>
    let child := graft node names ((find? name holder.entries).getD (.folder []))
    .folder (holder.entries.filter (·.1 != name) ++ [(name, child)])

end Node

/-- A place that was reached: a name and what lies there, and below it in the list the folders it
lies in, up to the root. -/
structure Place where
  name : String
  node : Node
  holders : List (String × Node)

namespace Place

def root (n : Node) : Place := ⟨"", n, []⟩

/-- The place that a segment leads to. -/
def follow (p : Place) (segment : String) : Except FileFault Place :=
  match p.node with
  | .file _ => .error .notDirectory
  | .folder entries =>
    if segment = "" ∨ segment = "." then .ok p
    else if segment = ".." then
      match p.holders with
      | [] => .ok p
      | (name, node) :: holders => .ok ⟨name, node, holders⟩
    else
      match Node.find? segment entries with
      | none => .error .notFound
      | some node => .ok ⟨segment, node, (p.name, p.node) :: p.holders⟩

end Place

/-- A file system and the directory that relative paths start from. -/
structure FileSystem where
  root : Node
  cwd : Path

namespace FileSystem

def absolute (fs : FileSystem) (p : Path) : Path := fs.cwd.join p

/-- The place that a path leads to. The empty path leads nowhere. -/
def resolve (fs : FileSystem) (p : Path) : Except FileFault Place :=
  if p.text.isEmpty then .error .notFound
  else (fs.absolute p).innerSegments.foldlM Place.follow (.root fs.root)

def exists? (fs : FileSystem) (p : Path) : Bool := (fs.resolve p).isOk

def isFile (fs : FileSystem) (p : Path) : Bool :=
  match fs.resolve p with
  | .ok place => place.node.isFile
  | .error _ => false

/-- The text of a file. -/
def read (fs : FileSystem) (p : Path) : Except FileFault String := do
  let place ← fs.resolve p
  match place.node with
  | .folder _ => .error .isDirectory
  | .file content =>
    match String.fromUTF8? content with
    | some text => .ok text
    | none => .error .invalidText

end FileSystem

end ArityCheck
