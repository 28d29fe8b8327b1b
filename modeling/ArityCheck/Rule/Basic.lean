import ArityCheck.Limit.Basic
import ArityCheck.Report.Violation
import ArityCheck.Rule.Category

/-! The rules: one limits the arguments of calls, the other the parameters of functions.

A rule sees each construct as a subject with a key and a count. It finds fault with the construct
if the limit of the key is below the count, and every finding is one violation. -/

namespace ArityCheck

inductive RuleKind where
  | arguments
  | parameters
deriving DecidableEq, Repr

/-- What a rule counts at a construct. -/
structure Subject where
  /-- The key that the limit is looked up by. -/
  key : String
  name : String
  /-- The name as it stands in a message. -/
  shown : String
  count : Nat
  span : Span
deriving DecidableEq, Repr

namespace RuleKind

def name : RuleKind → String
  | .arguments => "func-args"
  | .parameters => "func-params"

def code : RuleKind → String
  | .arguments => "AR001"
  | .parameters => "AR002"

def description : RuleKind → String
  | .arguments => "Enforces the number of arguments used in a function call"
  | .parameters =>
    "Enforces the number of parameters used in functions, arrows and function types"

def docsUrl (kind : RuleKind) : String :=
  "https://github.com/ynishi/arity-lint/blob/main/docs/rules/" ++ kind.name ++ ".md"

/-- The message of a violation, with fields to be filled in. -/
def template : RuleKind → String
  | .arguments => "\x7b\x7bname\x7d\x7d has been called with too many arguments " ++
      "(\x7b\x7bcount\x7d\x7d). Maximum allowed is (\x7b\x7bmax\x7d\x7d)."
  | .parameters => "\x7b\x7bname\x7d\x7d has too many params " ++
      "(\x7b\x7bcount\x7d\x7d). Maximum allowed is (\x7b\x7bmax\x7d\x7d)."

def suggestion : RuleKind → Option Suggestion
  | .arguments => none
  | .parameters => some ⟨"group related parameters into an options object"⟩

/-- The keys that limits may be given for. For calls that is any name. -/
def allowedKeys : RuleKind → Option (List String)
  | .arguments => none
  | .parameters => some (Limits.globalKey :: Category.all.map Category.key)

/-- What the rule counts at a construct, if it concerns it. A call without a name has the empty
one. -/
def subject? : RuleKind → Construct → Option Subject
  | .arguments, .call callee count span =>
    let name := callee.name?.getD ""
    some ⟨name, name, if name = "" then "anonymous function" else name, count, span⟩
  | .parameters, .function shape count binding span =>
    let label := shape.label binding
    some ⟨(Category.ofShape shape).key, label, label, count, span⟩
  | _, _ => none

end RuleKind

structure Rule where
  kind : RuleKind
  limits : Limits
  severity : Severity := .error

/-- A subject with more than the limit allows. -/
structure Finding where
  kind : RuleKind
  subject : Subject
  max : Nat
deriving DecidableEq, Repr

namespace Finding

def excess (f : Finding) : Excess := ⟨f.subject.name, f.subject.count, f.max⟩

def message (f : Finding) : String :=
  { f.excess with name := f.subject.shown }.render f.kind.template

def violation (f : Finding) (file : Path) (severity : Severity) : Violation where
  code := f.kind.code
  rule := f.kind.name
  severity := severity
  location := .ofSpan file f.subject.span
  message := f.message
  messageId := some "exceed"
  data := some f.excess
  suggestion := f.kind.suggestion
  docsUrl := some f.kind.docsUrl

/-- A note on the finding, for those who follow the rules at work. -/
def note (f : Finding) (file : Path) : String :=
  let place := file.text ++ ":" ++ toString f.subject.span.line ++ ": "
  let count := toString f.subject.count
  match f.kind with
  | .arguments => place ++ "\x60" ++ f.subject.name ++ "\x60 called with " ++ count ++
      " arguments, limit " ++ toString f.max
  | .parameters => place ++ f.subject.name ++ " (" ++ f.subject.key ++ ") has " ++ count ++
      " params, limit " ++ toString f.max

end Finding

namespace Rule

def name (r : Rule) : String := r.kind.name

def code (r : Rule) : String := r.kind.code

/-- A rule without limits. -/
def ofKind (kind : RuleKind) : Rule := { kind, limits := .empty }

/-- Every rule, without limits, in the order in which they run. -/
def all : List Rule := [ofKind .arguments, ofKind .parameters]

def withLimit (r : Rule) (key : String) (value : Int) : Rule :=
  { r with limits := r.limits.insert key value }

def withSeverity (r : Rule) (severity : Severity) : Rule := { r with severity }

/-- The rule on arguments does nothing until it has a limit. -/
def isActive (r : Rule) : Bool :=
  match r.kind with
  | .arguments => !r.limits.isEmpty
  | .parameters => true

/-- What the rule finds at one construct. -/
def finding? (r : Rule) (c : Construct) : Option Finding := do
  let subject ← r.kind.subject? c
  let max ← (r.limits.resolve subject.key).exceededBy subject.count
  return ⟨r.kind, subject, max⟩

def findings (r : Rule) (constructs : List Construct) : List Finding :=
  if r.isActive then constructs.filterMap r.finding? else []

/-- The violations of a rule, in the order of the constructs. -/
def check (r : Rule) (file : Path) (constructs : List Construct) : List Violation :=
  (r.findings constructs).map (·.violation file r.severity)

end Rule

end ArityCheck
