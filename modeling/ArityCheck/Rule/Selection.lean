import ArityCheck.Config.Basic
import ArityCheck.Limit.Options
import ArityCheck.Rule.Basic

/-! The rules that a configuration asks for, and a choice among them. -/

namespace ArityCheck.Rule

/-- A rule with the limits of its table. Its options have to be valid even if the table turns the
rule off. -/
def ofConfig (kind : RuleKind) (config : Config) : Except ConfigError Rule := do
  let options := ((config.rule? kind.name).map (·.options)).getD []
  return { kind, limits := ← Limits.ofOptions kind.name kind.allowedKeys options }

/-- Every rule with the limits of its table, in the order in which they run. -/
def allOfConfig (config : Config) : Except ConfigError (List Rule) := do
  let arguments ← ofConfig .arguments config
  let parameters ← ofConfig .parameters config
  return [arguments, parameters]

/-- The rule is chosen by a selector that is its name or its code. -/
def isNamed (r : Rule) (selector : String) : Bool := r.name == selector || r.code == selector

/-- The rules that are chosen by some selector, in their own order. Fails with the first selector
that chooses none. -/
def select (rules : List Rule) (selectors : List String) : Except String (List Rule) :=
  match selectors.find? fun s => !rules.any (·.isNamed s) with
  | some s => .error s
  | none => .ok (rules.filter fun r => selectors.any r.isNamed)

end ArityCheck.Rule
