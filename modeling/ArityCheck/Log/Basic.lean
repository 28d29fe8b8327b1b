/-! Notes on what the program does, and which of them are shown.

A note comes from a part of the program, named by a path such as `arity_lint_core::analyzer`. A
filter names parts by the beginnings of their paths, and the longest one that fits decides. -/

namespace ArityCheck.Log

inductive Level where
  | error
  | warn
  | info
  | debug
  | trace
deriving DecidableEq, Repr

namespace Level

/-- How much is shown at a level. -/
def rank : Level → Nat
  | .error => 1
  | .warn => 2
  | .info => 3
  | .debug => 4
  | .trace => 5

def name : Level → String
  | .error => "ERROR"
  | .warn => "WARN"
  | .info => "INFO"
  | .debug => "DEBUG"
  | .trace => "TRACE"

end Level

structure Event where
  level : Level
  source : String
  message : String
deriving DecidableEq, Repr

def Event.line (e : Event) : String := e.level.name ++ " " ++ e.message

/-! ### Filters -/

/-- The notes of the parts whose paths begin with `source` are shown up to a rank. -/
structure Directive where
  source : String
  rank : Nat
deriving DecidableEq, Repr

abbrev Filter := List Directive

/-- Shows the notes of all parts up to a level. -/
def Filter.upTo (level : Level) : Filter := [⟨"", level.rank⟩]

def rank? (text : String) : Option Nat :=
  match text.toLower with
  | "off" | "0" => some 0
  | "error" | "1" => some 1
  | "warn" | "2" => some 2
  | "info" | "3" => some 3
  | "debug" | "4" => some 4
  | "trace" | "5" => some 5
  | _ => none

def isSourceChar (c : Char) : Bool := c.isAlphanum || c == '_' || c == ':' || c == '-'

/-- A level, a part of the program with a level, or a part of which everything is shown. -/
def directive? (text : String) : Option Directive :=
  let isSource (s : String) : Bool := !s.isEmpty && s.toList.all isSourceChar
  match text.splitOn "=" with
  | [word] =>
    match rank? word with
    | some rank => some ⟨"", rank⟩
    | none => if isSource word then some ⟨word, Level.trace.rank⟩ else none
  | [source, level] =>
    if isSource source then (rank? level).map fun rank => ⟨source, rank⟩ else none
  | _ => none

/-- Reads a filter, of which the directives are parted by commas. -/
def Filter.parse? (text : String) : Option Filter :=
  ((text.splitOn ",").filter (!·.isEmpty)).mapM directive?

/-- The directive that decides about a part. Of two for the same part, the later one does. -/
def Filter.decisive? (filter : Filter) (source : String) : Option Directive :=
  (filter.filter fun d => d.source.toList.isPrefixOf source.toList).foldl
    (fun best d =>
      match best with
      | some b => if b.source.length ≤ d.source.length then some d else some b
      | none => some d)
    none

def Filter.shows (filter : Filter) (e : Event) : Bool :=
  match filter.decisive? e.source with
  | some d => e.level.rank ≤ d.rank
  | none => false

end ArityCheck.Log
