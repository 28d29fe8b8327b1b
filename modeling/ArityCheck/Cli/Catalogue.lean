import ArityCheck.Rule.Basic

/-! The command that lists the rules. -/

namespace ArityCheck.Cli

/-- A text with blanks after it, so that it takes at least `n` characters. -/
def padded (n : Nat) (text : String) : String :=
  text ++ String.ofList (List.replicate (n - text.length) ' ')

def catalogueRow (code name description : String) : String :=
  padded 8 code ++ " " ++ padded 14 name ++ " " ++ description ++ "\n"

def keysRow (kind : RuleKind) : String :=
  "  " ++ padded 14 kind.name ++ " " ++
    (match kind.allowedKeys with
      | some keys => ", ".intercalate keys
      | none => Limits.globalKey ++ ", or any called function name") ++ "\n"

/-- What the command prints. -/
def catalogue : String :=
  "Available rules:\n\n" ++
    catalogueRow "Code" "Name" "Description" ++
    String.ofList (List.replicate 80 '-') ++ "\n" ++
    String.join (Rule.all.map fun r => catalogueRow r.code r.name r.kind.description) ++
    "\nOptions ([rules.<name>] in arity-lint.toml):\n" ++
    String.join (Rule.all.map fun r => keysRow r.kind) ++
    "\nA limit of -1 disables the check for that key.\n" ++
    "func-args reports nothing until at least one limit is set.\n" ++
    "\nUse --rules to run a subset, e.g.:\n" ++
    "  arity-lint check --rules func-params\n" ++
    "  arity-lint check --rules AR001\n"

end ArityCheck.Cli
