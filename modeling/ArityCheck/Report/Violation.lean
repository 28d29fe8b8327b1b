import ArityCheck.Path.Basic
import ArityCheck.Report.Severity
import ArityCheck.Source.Position
import ArityCheck.Text.Replace

/-! Violations and the texts that describe them. -/

namespace ArityCheck

/-- A place in a file. -/
structure Location where
  file : Path
  line : Nat
  column : Nat
  offset : Nat
  length : Nat
deriving DecidableEq, Repr

def Location.ofSpan (file : Path) (span : Span) : Location :=
  ⟨file, span.line, span.column, span.offset, span.length⟩

/-- How a violation could be mended. -/
structure Suggestion where
  message : String
deriving DecidableEq, Repr

/-- A count above its limit, and what was counted. The name is empty where there is none. -/
structure Excess where
  name : String
  count : Nat
  max : Nat
deriving DecidableEq, Repr

/-- A template with its fields filled in one after the other, so that a field which is brought in
by the name is filled in as well. -/
def Excess.render (e : Excess) (template : String) : String :=
  let named := Text.replaceAll "\x7b\x7bname\x7d\x7d" e.name template
  let counted := Text.replaceAll "\x7b\x7bcount\x7d\x7d" (toString e.count) named
  Text.replaceAll "\x7b\x7bmax\x7d\x7d" (toString e.max) counted

structure Violation where
  code : String
  rule : String
  severity : Severity
  location : Location
  message : String
  messageId : Option String := none
  data : Option Excess := none
  suggestion : Option Suggestion := none
  docsUrl : Option String := none
deriving DecidableEq, Repr

/-- A violation as it is shown next to its source: a message, advice, and a label on the text. -/
structure Diagnostic where
  message : String
  help : Option String
  label : String
  offset : Nat
  length : Nat
deriving DecidableEq, Repr

namespace Violation

/-- The place of a violation, written `file:line:column`. -/
def place (v : Violation) : String :=
  v.location.file.text ++ ":" ++ toString v.location.line ++ ":" ++ toString v.location.column

/-- The violation on one line. -/
def summary (v : Violation) : String :=
  v.place ++ ": " ++ v.severity.name ++ " [" ++ v.code ++ "] " ++ v.message

/-- The line that tells how to mend the violation, if that is known. -/
def helpLine (v : Violation) : String :=
  match v.suggestion with
  | some s => "  = help: " ++ s.message ++ "\n"
  | none => ""

/-- The violation on several lines, each of them ended. -/
def paragraph (v : Violation) : String :=
  v.code ++ " " ++ v.rule ++ " at " ++ v.place ++ "\n" ++
    "  " ++ v.severity.name ++ ": " ++ v.message ++ "\n" ++ v.helpLine ++
    (match v.docsUrl with
      | some url => "  = see: " ++ url ++ "\n"
      | none => "")

def diagnostic (v : Violation) : Diagnostic where
  message := "[" ++ v.code ++ "] " ++ v.message
  help := v.suggestion.map (·.message)
  label := v.rule
  offset := v.location.offset
  length := v.location.length

/-- Violations are ordered by file, then by line, then by column. -/
def order (a b : Violation) : Ordering :=
  (a.location.file.order b.location.file).then
    ((compare a.location.line b.location.line).then
      (compare a.location.column b.location.column))

end Violation

end ArityCheck
