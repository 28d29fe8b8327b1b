import ArityCheck.Analysis.Source
import ArityCheck.FileSystem.Walk
import ArityCheck.Text.Quoted

/-! The analysis of all source files below a root.

Files are found by walking, taken in the order of their paths, and analyzed one by one. A file
that cannot be read ends the analysis; one that does not follow its grammar ends it only if that
is asked for. -/

namespace ArityCheck

namespace Analyzer

/-- What is left out when nothing is said about it. -/
def defaultExcludes : List String := ["**/node_modules/**", "**/dist/**", "**/build/**"]

/-- An analyzer for the given root, or else for that of the configuration. Patterns to leave out
are those given and those of the configuration together. -/
def build (cwd : Path) (root : Option Path) (config : Option Config) (exclude : List String)
    (rules : List Rule) (failOnParseError : Bool) : Except AnalysisError Analyzer := do
  let settings := (config.getD {}).analyzer
  let patterns := exclude ++ settings.exclude
  let excludes ← ((if patterns.isEmpty then defaultExcludes else patterns).mapM Glob.parse).mapError
    AnalysisError.pattern
  return {
    root := cwd.join (root.getD settings.root)
    rules
    excludes
    config := config.getD {}
    failOnParseError }

/-! ### Finding files -/

/-- What is left of a pattern without its recursive parts occurs in the path. -/
def occursIn (g : Glob) (path : Path) : Bool :=
  let rest := Text.replaceAll "**" "" g.text
  !rest.isEmpty && !rest.toList.contains '*' && Text.occursIn rest path.text

/-- A file is left out if a pattern matches its path, or if one occurs in it. -/
def isExcluded (a : Analyzer) (path : Path) : Bool :=
  a.excludes.any (·.isMatch path.text) || a.excludes.any (occursIn · path)

def isSource (path : Path) : Bool :=
  (path.extension?.bind Dialect.ofExtension?).isSome

/-- The files to analyze among those that were found, in the order of their paths. -/
def select (a : Analyzer) (found : List Path) : List Path :=
  ((found.filter isSource).filter (!a.isExcluded ·)).mergeSort fun p q => (p.order q).isLE

/-! ### Analyzing them -/

/-- A file and what became of it, or why it could not be read. -/
abbrev Inspection := Path × Except FileFault SourceOutcome

def inspectFile (a : Analyzer) (fs : FileSystem) (path : Path) : Inspection :=
  (path, (fs.read path).map (a.inspect path))

/-- The report on files that were inspected, up to the first that ends the analysis. -/
def collect (a : Analyzer) : List Inspection → Except AnalysisError Report
  | [] => .ok .empty
  | (_, .error fault) :: _ => .error (.unreadable fault)
  | (path, .ok outcome) :: rest =>
    match a.violations path outcome with
    | .ok violations => do
      let report ← a.collect rest
      return ⟨violations ++ report.violations, report.filesChecked + 1⟩
    | .error (.malformed path message) =>
      if a.failOnParseError then .error (.malformed path message) else a.collect rest
    | .error e => .error e

/-- The files to analyze below the root. -/
def discover (a : Analyzer) (fs : FileSystem) : Except AnalysisError (List Path) :=
  match fs.walk a.root a.config.analyzer.respectGitignore with
  | .error fault => .error (.walk a.root fault)
  | .ok found => .ok (a.select found)

def analyze (a : Analyzer) (fs : FileSystem) : Except AnalysisError Report := do
  let files ← a.discover fs
  let report ← a.collect (files.map (a.inspectFile fs))
  return report.sort

/-! ### Notes -/

/-- The notes on files that were inspected, up to the first that ends the analysis. -/
def fileNotes (a : Analyzer) : List Inspection → List Log.Event
  | [] => []
  | (_, .error _) :: _ => []
  | (path, .ok outcome) :: rest =>
    a.sourceNotes path outcome ++
      match outcome with
      | .checked _ => a.fileNotes rest
      | .malformed message =>
        note .warn ("Failed to parse " ++ path.text ++ ": " ++ message) ::
          if a.failOnParseError then [] else a.fileNotes rest
      | .unsupported _ => []

/-- The notes on an analysis. -/
def notes (a : Analyzer) (fs : FileSystem) : List Log.Event :=
  note .info ("Starting analysis at " ++ Text.quoted a.root.text) ::
    match fs.walk a.root a.config.analyzer.respectGitignore with
    | .error _ => []
    | .ok found =>
      let left := (found.filter isSource).filter a.isExcluded
      let inspections := (a.select found).map (a.inspectFile fs)
      left.map (fun p => note .debug ("Excluding: " ++ p.text)) ++
        [note .info ("Found " ++ toString inspections.length ++ " files to analyze")] ++
        a.fileNotes inspections ++
        match a.collect inspections with
        | .error _ => []
        | .ok report =>
          [note .info ("Analysis complete: " ++ toString report.violations.length ++
            " violations in " ++ toString report.filesChecked ++ " files")]

end Analyzer

end ArityCheck
