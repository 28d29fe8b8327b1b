import ArityCheck.Cli.Failure

/-! The command that writes a configuration to start from. -/

namespace ArityCheck.Cli

def templatePath : Path := ⟨"arity-lint.toml"⟩

/-- The lines of the configuration to start from. -/
def templateLines : List String := [
  "# arity-lint configuration",
  "",
  "[analyzer]",
  "# Root directory to analyze (default: current directory)",
  "# root = \"./src\"",
  "",
  "# Glob patterns to exclude from analysis",
  "exclude = [",
  "    \"**/node_modules/**\",",
  "    \"**/dist/**\",",
  "    \"**/build/**\",",
  "]",
  "",
  "# Respect .gitignore files",
  "respect_gitignore = true",
  "",
  "# Every key other than `enabled` and `severity` is a limit.",
  "# A limit of -1 disables the check for that key.",
  "",
  "# Arguments passed at call sites. Keys are called function names;",
  "# `global` applies to every other call. No keys means no checks.",
  "[rules.func-args]",
  "# severity = \"warning\"",
  "global = 4",
  "# setTimeout = 2",
  "",
  "# Declared parameters. Keys are construct categories.",
  "[rules.func-params]",
  "global = 3",
  "# funcDefinition = 4",
  "# funcExpression = 3",
  "# arrowFuncExpression = 3",
  "# funcTypeAnnotation = -1"]

/-- The configuration to start from. -/
def template : String := String.join (templateLines.map (· ++ "\n"))

/-- Whether the configuration can be written. With `force`, a file that is there is replaced. -/
def mayWriteTemplate (fs : FileSystem) (force : Bool) : Except Failure Unit :=
  if fs.exists? templatePath && !force then .error (.present templatePath)
  else
    match fs.resolve templatePath with
    | .ok place => if place.node.isFolder then .error (.write templatePath .isDirectory) else .ok ()
    | .error .notFound => .ok ()
    | .error fault => .error (.write templatePath fault)

/-- What the command prints when the configuration is written. -/
def templateHint : String :=
  "Created " ++ templatePath.text ++ "\n\nNext steps:\n  1. Edit " ++ templatePath.text ++
    " to set your limits\n  2. Run: arity-lint check\n"

end ArityCheck.Cli
