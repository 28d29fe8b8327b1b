import ArityCheck.Cli.Run

/-! The program: it copies the files that a run may look at, and carries out what the run leaves
behind. -/

namespace ArityCheck.Cli

/-- The names that a path leads through, when each `..` takes back the one before it. -/
def namesOf (p : Path) : List String :=
  p.components.foldl
    (fun names c =>
      match c with
      | .name text => names ++ [text]
      | .up => names.dropLast
      | .root | .here => names)
    []

/-- The files of a directory whose contents decide on what is analyzed, or how. -/
def decisiveNames : List String :=
  Config.Source.projectNames ++ [".ignore", ".gitignore", ".git/info/exclude"]

/-- The paths, besides the target, that a run may look at. -/
def Invocation.reads (i : Invocation) (cwd : Path) (env : Environment) : List Path :=
  let perDirectory :=
    match i.command with
    | .check path _ _ _ => (cwd.join path).ancestors.flatMap fun dir =>
        decisiveNames.map fun name => dir.join ⟨name⟩
    | .init _ => [cwd.join templatePath]
    | .listRules => []
  perDirectory ++ i.config.toList.map cwd.join ++
    (env.globalDir?.map fun dir => cwd.join (dir.join ⟨Config.Source.globalName⟩)).toList

def isDecisive (path : Path) : Bool :=
  Analyzer.isSource path || (path.fileName?.any fun name =>
    decisiveNames.any fun decisive => (Path.mk decisive).fileName? == some name)

/-- What lies at a path. Files that no run looks into are taken to be empty, and links are followed
at the target of the run only. -/
partial def loadTree (path : Path) (isTarget : Bool) : IO (Option Node) := do
  try
    let real ← IO.FS.realPath path.text
    if !isTarget && real.toString != path.text then return none
    if ← real.isDir then
      let dir : Path := ⟨real.toString⟩
      let found ← (← real.readDir).toList.mapM fun entry => do
        let node ← loadTree (dir.join ⟨entry.fileName⟩) false
        return node.map fun node => (entry.fileName, node)
      return some (.folder (found.filterMap id))
    else if isDecisive path then
      return some (.file (← IO.FS.readBinFile path.text))
    else
      return some (.file .empty)
  catch _ => return none

/-- What lies at a path, without what lies below it. -/
def loadEntry (path : Path) : IO (Option Node) := do
  try
    if ← (← IO.FS.realPath path.text).isDir then return some (.folder [])
    else return some (.file (← IO.FS.readBinFile path.text))
  catch _ => return none

/-- Adds what lies at a path, and at every path on the way there, unless it is known already. -/
def addEntry (fs : FileSystem) (path : Path) : IO FileSystem :=
  path.ancestors.reverse.foldlM
    (fun fs p => do
      if fs.exists? p then return fs
      match ← loadEntry p with
      | none => return fs
      | some node => return { fs with root := node.graft (namesOf p) fs.root })
    fs

/-- The files that a run may look at. -/
def snapshot (i : Invocation) (env : Environment) : IO FileSystem := do
  let cwd : Path := ⟨(← IO.currentDir).toString⟩
  let fs ← addEntry { root := .folder [], cwd } cwd
  let fs ←
    match i.command with
    | .check path _ _ _ => do
      let target := cwd.join path
      let fs ← addEntry fs target
      match ← loadTree target true with
      | some node => pure { fs with root := node.graft (namesOf target) fs.root }
      | none => pure fs
    | _ => pure fs
  (i.reads cwd env).foldlM addEntry fs

def readEnvironment : IO Environment := do
  return {
    config := ← IO.getEnv "ARITY_LINT_CONFIG"
    configDir := ← IO.getEnv "ARITY_LINT_CONFIG_DIR"
    home := ← IO.getEnv "HOME"
    log := ← IO.getEnv "RUST_LOG" }

end ArityCheck.Cli

open ArityCheck Cli in
def main (args : List String) : IO UInt32 := do
  let env ← readEnvironment
  let outcome ←
    match Invocation.read args env.config with
    | .error stop => pure stop.outcome
    | .ok invocation => do
      let fs ← snapshot invocation env
      pure (invocation.outcome fs env)
  (← IO.getStdout).putStr outcome.output
  (← IO.getStderr).putStr outcome.errors
  for (path, text) in outcome.writes do
    IO.FS.writeFile path.text text
  return outcome.status.toUInt32
