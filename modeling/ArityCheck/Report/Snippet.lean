import ArityCheck.Report.Violation
import ArityCheck.Text.Wrap

/-! A violation shown together with the lines of source it concerns.

A span on one line is underlined; a span over several lines is drawn at their left side. One line
before the span and one after it are shown as well. -/

namespace ArityCheck.Snippet

/-! ### Lines -/

/-- The offsets after the line ends of a text that begins at `offset`. A carriage return and a
line feed end one line together. -/
def breaks (offset : Nat) : List Char → List Nat
  | [] => []
  | '\r' :: '\n' :: cs => (offset + 2) :: breaks (offset + 2) cs
  | c :: cs =>
    let next := offset + c.utf8Size
    if c = '\n' ∨ c = '\r' then next :: breaks next cs else breaks next cs

/-- A line that is shown, with where it begins and how long it is, its end included. -/
structure Line where
  number : Nat
  offset : Nat
  length : Nat
  text : List Char
deriving DecidableEq, Repr

/-- Lines of a text that begins at `offset`, of which `text` has been read from the current one. -/
def lines (number offset length : Nat) (text : List Char) : List Char → List Line
  | [] => if length = 0 then [] else [⟨number, offset, length, text⟩]
  | '\r' :: '\n' :: cs =>
    ⟨number, offset, length + 2, text⟩ :: lines (number + 1) (offset + length + 2) 0 [] cs
  | '\n' :: cs =>
    ⟨number, offset, length + 1, text⟩ :: lines (number + 1) (offset + length + 1) 0 [] cs
  | c :: cs => lines number offset (length + c.utf8Size) (text ++ [c]) cs

/-- The characters of a text at `offset` that begin at byte `start` or later, and before byte
`stop?` if there is one. -/
def between (start : Nat) (stop? : Option Nat) (offset : Nat) : List Char → List Char
  | [] => []
  | c :: cs =>
    let rest := between start stop? (offset + c.utf8Size) cs
    if start ≤ offset && stop?.all (offset < ·) then c :: rest else rest

/-- The part of a text that is marked, in bytes. -/
structure Mark where
  start : Nat
  stop : Nat
deriving DecidableEq, Repr

/-- The line and the column that a mark begins at. -/
def Mark.place (m : Mark) (text : List Char) : Nat × Nat :=
  let before := (breaks 0 text).filter (· ≤ m.start)
  (before.length + 1, m.start - before.getLastD 0 + 1)

/-- The lines with some of the mark on them, the line before and the line after. -/
def shownLines (m : Mark) (text : List Char) : List Line :=
  let all := breaks 0 text
  let before := (all.filter (· ≤ m.start)).dropLast
  let start := before.getLastD 0
  let stop? := (all.filter (m.stop < ·))[1]?
  lines (before.length + 1) start 0 [] (between start stop? 0 text)

/-! ### Columns -/

def tabWidth : Nat := 4

/-- The columns that a character takes when it stands at a column. -/
def columns (column : Nat) (c : Char) : Nat :=
  if c = '\t' then tabWidth - column % tabWidth else Text.charWidth c

/-- The column after a text. -/
def columnAfter (cs : List Char) : Nat := cs.foldl (fun column c => column + columns column c) 0

/-- A text with blanks for its tabs. -/
def expandTabs (column : Nat) : List Char → List Char
  | [] => []
  | c :: cs =>
    let n := columns column c
    (if c = '\t' then List.replicate n ' ' else [c]) ++ expandTabs (column + n) cs

/-- The column at which a byte of the whole text stands on its line. -/
def Line.column (l : Line) (byte : Nat) : Nat :=
  columnAfter (between 0 (some (byte - l.offset)) 0 l.text)

/-! ### Drawing -/

def spaces (n : Nat) : String := String.ofList (List.replicate n ' ')

def dashes (n : Nat) : String := String.ofList (List.replicate n '─')

/-- The mark begins and ends on the line. -/
def Line.holds (l : Line) (m : Mark) : Bool :=
  l.offset ≤ m.start && m.stop ≤ l.offset + l.length

def Line.beginsOn (l : Line) (m : Mark) : Bool :=
  l.offset ≤ m.start && m.start < l.offset + l.length

def Line.endsOn (l : Line) (m : Mark) : Bool :=
  l.offset < m.stop && m.stop ≤ l.offset + l.length

/-- The part of a mark over several lines that is drawn before the text of one of them. -/
def Line.gutter (l : Line) (m : Mark) : String :=
  if l.beginsOn m then "╭─▶ "
  else if l.endsOn m then "├─▶ "
  else if m.start < l.offset && l.offset + l.length < m.stop then "│   "
  else "    "

/-- The rows under a line that hold the whole mark: an underline, and a label in its middle. -/
def Line.underline (l : Line) (m : Mark) (margin label : String) : String :=
  let start := l.column m.start
  let stop := max (l.column m.stop) (start + 1)
  let middle := (start + stop) / 2
  margin ++ spaces start ++ dashes (middle - start) ++ "┬" ++ dashes (stop - middle - 1) ++ "\n" ++
    margin ++ spaces middle ++ "╰── " ++ label ++ "\n"

/-- The rows for one line. -/
def Line.rows (l : Line) (m : Mark) (digits : Nat) (isWide : Bool) (label : String) : String :=
  let number := toString l.number
  let margin := " " ++ spaces digits ++ " · "
  " " ++ spaces (digits - number.length) ++ number ++ " │ " ++
    (if isWide then l.gutter m else "") ++ String.ofList (expandTabs 0 l.text) ++ "\n" ++
    (if isWide then
      if l.endsOn m then margin ++ "╰──── " ++ label ++ "\n" else ""
    else if l.holds m then l.underline m margin label
    else "")

/-- The lines around a mark, in a frame that names the place of the mark. -/
def frame (file : Path) (text : List Char) (m : Mark) (label : String) : String :=
  let shown := shownLines m text
  let digits := (toString ((shown.getLast?.map Line.number).getD 0)).length
  let (line, column) := m.place text
  let isWide := !shown.any (·.holds m)
  spaces (digits + 2) ++ "╭─[" ++ file.text ++ ":" ++ toString line ++ ":" ++ toString column ++
    "]\n" ++ String.join (shown.map fun l => l.rows m digits isWide label) ++
    spaces (digits + 2) ++ "╰────\n"

/-- The columns that the texts of a snippet may take. -/
def textWidth : Nat := 78

/-- A wrapped text with one string before its first line and another one before the others. -/
def paragraph (first rest text : String) : String :=
  match Text.wrap (textWidth - first.length) text with
  | [] => first ++ "\n"
  | line :: lines => first ++ line ++ "\n" ++ String.join (lines.map fun l => rest ++ l ++ "\n")

end ArityCheck.Snippet

namespace ArityCheck

/-- The violation with the lines of its file around it. -/
def Violation.snippet (v : Violation) (text : String) : String :=
  let d := v.diagnostic
  Snippet.paragraph "  × " "  │ " d.message ++
    Snippet.frame v.location.file text.toList ⟨d.offset, d.offset + d.length⟩ d.label ++
    (d.help.map (Snippet.paragraph "  help: " "        ")).getD ""

end ArityCheck
