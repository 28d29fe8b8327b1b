import ArityCheck.Cli.Arguments
import ArityCheck.Cli.Catalogue
import ArityCheck.Cli.Check
import ArityCheck.Cli.Template

/-! A run of the program, as a function of its arguments and its surroundings.

The files are those at the start of the run. What the run leaves behind is an outcome: a status,
what it prints, and the files it writes. -/

namespace ArityCheck.Cli

/-- The settings that a run takes from its environment. -/
structure Environment where
  /-- A configuration to use unless the arguments name one. -/
  config : Option String := none
  /-- The directory of the user's configuration. -/
  configDir : Option String := none
  home : Option String := none
  /-- Which notes are shown. -/
  log : Option String := none

/-- The directory of the user's configuration, by default one in their home. -/
def Environment.globalDir? (env : Environment) : Option Path :=
  match env.configDir with
  | some dir => some ⟨dir⟩
  | none => env.home.map fun home => Path.join ⟨home⟩ ⟨".arity-lint"⟩

/-- Which notes are shown. More are with `verbose`, unless the environment decides. -/
def Environment.filter (env : Environment) (verbose : Bool) : Log.Filter :=
  (env.log.bind Log.Filter.parse?).getD (.upTo (if verbose then .debug else .info))

structure Outcome where
  status : Nat
  /-- What is printed as the result. -/
  output : String := ""
  /-- What is printed beside it. -/
  errors : String := ""
  /-- Files that are written, and what with. -/
  writes : List (Path × String) := []
deriving DecidableEq, Repr

namespace Outcome

def fail (f : Failure) : Outcome := { status := 1, errors := f.text }

/-- The outcome with the notes that are shown, before anything else that is printed beside. -/
def withNotes (o : Outcome) (filter : Log.Filter) (notes : List Log.Event) : Outcome :=
  { o with
    errors := String.join ((notes.filter filter.shows).map fun e => e.line ++ "\n") ++ o.errors }

end Outcome

/-! ### Commands -/

/-- The outcome of a report that is printed: it fails if there are errors, or if it could not be
printed to its end. -/
def Outcome.ofReport (r : Report) (fs : FileSystem) (root : Path) (format : Format) : Outcome :=
  match r.print fs root format with
  | (output, none) => { status := if r.hasErrors then 1 else 0, output }
  | (output, some fault) => { Outcome.fail (.reread fault) with output }

def Check.outcome (c : Check) (fs : FileSystem) (format : Format) : Outcome :=
  match c.report fs with
  | .error f => .fail f
  | .ok (a, r) => .ofReport r fs a.root format

def templateOutcome (fs : FileSystem) (force : Bool) : Outcome :=
  match mayWriteTemplate fs force with
  | .error f => .fail f
  | .ok () => { status := 0, output := templateHint, writes := [(templatePath, template)] }

def Invocation.outcome (i : Invocation) (fs : FileSystem) (env : Environment) : Outcome :=
  match i.command with
  | .listRules => { status := 0, output := catalogue }
  | .init force => templateOutcome fs force
  | .check path format rules exclude =>
    let check : Check := ⟨path, rules, exclude, .resolve fs path i.config env.globalDir?⟩
    (check.outcome fs format).withNotes (env.filter i.verbose) (check.notes fs)

/-! ### The program -/

def versionText : String := "arity-lint 0.1.0\n"

def helpText : String :=
  "Argument and parameter count linter for JavaScript and TypeScript\n\n" ++
    "Usage: arity-lint [OPTIONS] <COMMAND>\n\n" ++
    "Commands:\n" ++
    "  check [PATH]  Run lint checks\n" ++
    "  list-rules    List available rules\n" ++
    "  init          Initialize configuration file\n\n" ++
    "Options:\n" ++
    "  -v, --verbose           Enable verbose output\n" ++
    "  -c, --config <CONFIG>   Path to configuration file\n" ++
    "  -h, --help              Print help\n" ++
    "  -V, --version           Print version\n\n" ++
    "Options of check:\n" ++
    "  -f, --format <FORMAT>   Output format: text, pretty, json or compact\n" ++
    "      --rules <RULES>     Only run specific rules (comma-separated names or codes)\n" ++
    "  -e, --exclude <GLOB>    Exclude patterns (can be specified multiple times)\n\n" ++
    "Options of init:\n" ++
    "      --force             Overwrite existing config\n"

/-- The outcome of a command line that is not carried out. -/
def Stop.outcome : Stop → Outcome
  | .help => { status := 0, output := helpText }
  | .version => { status := 0, output := versionText }
  | .usage e =>
    { status := 2, errors := "error: " ++ e.message ++ "\n\nFor more information, try '--help'.\n" }

def run (fs : FileSystem) (env : Environment) (args : List String) : Outcome :=
  match Invocation.read args env.config with
  | .error stop => stop.outcome
  | .ok invocation => invocation.outcome fs env

end ArityCheck.Cli
