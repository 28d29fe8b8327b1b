import ArityCheck.FileSystem.Basic
import ArityCheck.Json.Printer
import ArityCheck.Report.Codec
import ArityCheck.Report.Snippet

/-! The forms in which a report is printed. -/

namespace ArityCheck

inductive Format where
  /-- A few lines for each violation. -/
  | text
  /-- Each violation with its lines of source. -/
  | pretty
  | json
  /-- One line for each violation. -/
  | compact
deriving DecidableEq, Repr

def Format.ofName? : String → Option Format
  | "text" => some .text
  | "pretty" => some .pretty
  | "json" => some .json
  | "compact" => some .compact
  | _ => none

/-! ### Colours -/

inductive Colour where
  | red
  | green
  | yellow
  | blue
deriving DecidableEq, Repr

def Colour.code : Colour → Nat
  | .red => 31
  | .green => 32
  | .yellow => 33
  | .blue => 34

/-- A text that a terminal shows in a colour. -/
def Colour.paint (c : Colour) (text : String) : String :=
  "\x1b[" ++ toString c.code ++ "m" ++ text ++ "\x1b[0m"

def Severity.colour : Severity → Colour
  | .error => .red
  | .warning => .yellow
  | .info => .blue

/-! ### Violations -/

/-- The violation on several lines, with a colour for its severity and an empty line at the end. -/
def Violation.entry (v : Violation) : String :=
  v.place ++ " " ++ v.code ++ " " ++ v.rule ++ "\n" ++
    "  " ++ v.severity.colour.paint v.severity.name ++ ": " ++ v.message ++ "\n" ++
    v.helpLine ++ "\n"

/-- Where the file of a violation lies, when `root` is what was analyzed. -/
def Violation.sourcePath (v : Violation) (root : Path) : Path := root.join v.location.file

/-- A file could not be read again. -/
structure RereadFault where
  path : Path
  fault : FileFault
deriving DecidableEq, Repr

/-- The snippets of violations, up to the first whose file cannot be read again. -/
def Violation.snippets (fs : FileSystem) (root : Path) :
    List Violation → String × Option RereadFault
  | [] => ("", none)
  | v :: vs =>
    match fs.read (v.sourcePath root) with
    | .error fault => ("", some ⟨v.sourcePath root, fault⟩)
    | .ok text =>
      let (rest, fault?) := snippets fs root vs
      (v.snippet text ++ "\n" ++ rest, fault?)

/-! ### Reports -/

namespace Report

/-- The most serious kind of violation decides on the colour of the summary. -/
def colour (r : Report) : Colour :=
  if 0 < r.countAt .error then .red
  else if 0 < r.countAt .warning then .yellow
  else .green

def summary (r : Report) : String :=
  r.colour.paint ("Found " ++ toString (r.countAt .error) ++ " error(s), " ++
    toString (r.countAt .warning) ++ " warning(s), " ++ toString (r.countAt .info) ++
    " info(s) in " ++ toString r.filesChecked ++ " file(s)") ++ "\n"

/-- What is printed, and the fault that ended it if there was one. -/
def print (r : Report) (fs : FileSystem) (root : Path) : Format → String × Option RereadFault
  | .text => (String.join (r.violations.map Violation.entry) ++ r.summary, none)
  | .json => (r.toJson.pretty ++ "\n", none)
  | .compact => (String.join (r.violations.map fun v => v.summary ++ "\n"), none)
  | .pretty =>
    match Violation.snippets fs root r.violations with
    | (snippets, none) => (snippets ++ r.summary, none)
    | stopped => stopped

end Report

end ArityCheck
