import ArityCheck.Json.Basic
import ArityCheck.Report.Basic

/-! Reports as JSON.

A structure is written as an object with its fields in order, and may also be read from an array
that holds them in that order. Unknown fields are ignored and repeated ones refused. -/

namespace ArityCheck

/-! ### Reading the parts of a value -/

namespace Json

/-- The number of members with a given key. -/
def countKey (key : String) (members : List (String × Json)) : Nat :=
  members.countP (·.1 == key)

def lookup? (key : String) (members : List (String × Json)) : Option Json :=
  (members.find? (·.1 == key)).map (·.2)

/-- The values of the named fields, each if it is there. An array has to hold at least the first
`least` of them. -/
def fields? (names : List String) (least : Nat) : Json → Option (List (Option Json))
  | .object members =>
    if names.all (countKey · members ≤ 1) then some (names.map (lookup? · members)) else none
  | .array items =>
    if least ≤ items.length ∧ items.length ≤ names.length then
      some (items.map some ++ List.replicate (names.length - items.length) none)
    else none
  | _ => none

def text? : Json → Option String
  | .string s => some s
  | _ => none

/-- A natural number that is at most `max`. -/
def natUpTo? (max : Nat) : Json → Option Nat
  | .int (.ofNat n) => if n ≤ max then some n else none
  | _ => none

/-- A value that may be null or missing. -/
def optional? {α : Type} (read? : Json → Option α) : Option Json → Option (Option α)
  | none | some .null => some none
  | some j => (read? j).map some

end Json

/-- The largest count or offset that can be written. -/
def maxCount : Nat := 18446744073709551615

namespace Severity

def toJson (s : Severity) : Json := .string s.name

/-- A severity is its name, or an object with that name as its only key, and null. -/
def ofJson? : Json → Option Severity
  | .string s => ofName? s
  | .object [(s, .null)] => ofName? s
  | _ => none

end Severity

namespace Location

def toJson (l : Location) : Json :=
  .object [("file", .string l.file.text), ("line", .int l.line), ("column", .int l.column),
    ("offset", .int l.offset), ("length", .int l.length)]

def ofJson? (j : Json) : Option Location :=
  match j.fields? ["file", "line", "column", "offset", "length"] 5 with
  | some [some file, some line, some column, some offset, some length] => do
    return {
      file := ⟨← file.text?⟩
      line := ← line.natUpTo? maxCount
      column := ← column.natUpTo? maxCount
      offset := ← offset.natUpTo? maxCount
      length := ← length.natUpTo? maxCount }
  | _ => none

end Location

namespace Suggestion

def toJson (s : Suggestion) : Json := .object [("message", .string s.message)]

def ofJson? (j : Json) : Option Suggestion :=
  match j.fields? ["message"] 1 with
  | some [some message] => message.text?.map Suggestion.mk
  | _ => none

end Suggestion

namespace Excess

def toJson (e : Excess) : Json :=
  .object [("name", .string e.name), ("count", .int e.count), ("max", .int e.max)]

def ofJson? (j : Json) : Option Excess :=
  match j.fields? ["name", "count", "max"] 3 with
  | some [some name, some count, some max] => do
    return {
      name := ← name.text?
      count := ← count.natUpTo? maxCount
      max := ← max.natUpTo? 4294967295 }
  | _ => none

end Excess

namespace Violation

/-- A member that is left out when there is no value. -/
def member? {α : Type} (key : String) (write : α → Json) : Option α → List (String × Json)
  | none => []
  | some a => [(key, write a)]

/-- Only the suggestion is written when there is none. -/
def toJson (v : Violation) : Json :=
  .object ([("code", .string v.code), ("rule", .string v.rule), ("severity", v.severity.toJson),
      ("location", v.location.toJson), ("message", .string v.message)] ++
    member? "message_id" .string v.messageId ++ member? "data" Excess.toJson v.data ++
    [("suggestion", (v.suggestion.map Suggestion.toJson).getD .null)] ++
    member? "docs_url" .string v.docsUrl)

/-- In an array, only the last field may be left out. -/
def ofJson? (j : Json) : Option Violation :=
  match j.fields? ["code", "rule", "severity", "location", "message", "message_id", "data",
      "suggestion", "docs_url"] 8 with
  | some [some code, some rule, some severity, some location, some message, messageId, data,
      suggestion, docsUrl] => do
    return {
      code := ← code.text?
      rule := ← rule.text?
      severity := ← Severity.ofJson? severity
      location := ← Location.ofJson? location
      message := ← message.text?
      messageId := ← Json.optional? Json.text? messageId
      data := ← Json.optional? Excess.ofJson? data
      suggestion := ← Json.optional? Suggestion.ofJson? suggestion
      docsUrl := ← Json.optional? Json.text? docsUrl }
  | _ => none

end Violation

namespace Report

def toJson (r : Report) : Json :=
  .object [("violations", .array (r.violations.map Violation.toJson)),
    ("files_checked", .int r.filesChecked)]

def ofJson? (j : Json) : Option Report :=
  match j.fields? ["violations", "files_checked"] 2 with
  | some [some (.array violations), some filesChecked] => do
    return {
      violations := ← violations.mapM Violation.ofJson?
      filesChecked := ← filesChecked.natUpTo? maxCount }
  | _ => none

end Report

end ArityCheck
