import ArityCheck.Ignore.Pattern
import ArityCheck.Text.Blank

/-! Files that list what to ignore, one pattern on each line.

A line that begins with `!` takes back what lines before it ignore, and the last line that matches
decides. A pattern with a separator in it is anchored at the directory of the file, any other one
matches at every depth, and a pattern that ends in a separator only matches directories. -/

namespace ArityCheck.Ignore

/-- What is to be done with a path. -/
inductive Verdict where
  | ignore
  | keep
deriving DecidableEq, Repr

structure Entry where
  tokens : List Token
  verdict : Verdict
  onlyFolders : Bool

/-! ### Reading -/

/-- A blank that is escaped at the end of a line stays. -/
def trimLine (line : List Char) : List Char :=
  match line.reverse with
  | ' ' :: '\\' :: _ => line
  | _ => Text.trimEnd line

/-- Splits off the mark of a line that takes back, and the separator that anchors a pattern. -/
def splitMarks (line : List Char) : Verdict × Bool × List Char :=
  match line with
  | '\\' :: '!' :: cs => (.ignore, false, '!' :: cs)
  | '\\' :: '#' :: cs => (.ignore, false, '#' :: cs)
  | '!' :: '/' :: cs => (.keep, true, cs)
  | '!' :: cs => (.keep, false, cs)
  | '/' :: cs => (.ignore, true, cs)
  | cs => (.ignore, false, cs)

/-- Splits off a separator at the end, with the backslash that may stand before it. -/
def splitFolderMark (pattern : List Char) : Bool × List Char :=
  match pattern.reverse with
  | '/' :: '\\' :: cs => (true, cs.reverse)
  | '/' :: cs => (true, cs.reverse)
  | _ => (false, pattern)

/-- A pattern that is not anchored matches at every depth. -/
def atAnyDepth (pattern : List Char) : List Char :=
  if ['*', '*', '/'].isPrefixOf pattern || pattern = ['*', '*'] then pattern
  else '*' :: '*' :: '/' :: pattern

/-- What is below a directory does not include the directory itself. -/
def belowOnly (pattern : List Char) : List Char :=
  match pattern.reverse with
  | '*' :: '*' :: '/' :: _ => pattern ++ ['/', '*']
  | _ => pattern

/-- The entry of a line, if it has one. A malformed line has none. -/
def entry? (line : List Char) : Option Entry :=
  if line.head? = some '#' then none
  else
    let line := trimLine line
    if line.isEmpty then none
    else
      let (verdict, isAnchored, pattern) := splitMarks line
      let (onlyFolders, pattern) := splitFolderMark pattern
      let pattern := if isAnchored || pattern.contains '/' then pattern else atAnyDepth pattern
      (parse? (belowOnly pattern)).map fun tokens => { tokens, verdict, onlyFolders }

/-- The lines of a file. A carriage return before a line feed belongs to the end of the line. -/
def splitLines : Bytes → Bytes → List Bytes
  | line, [] => if line.isEmpty then [] else [line.reverse]
  | line, b :: bs =>
    if b = 0x0a then
      (match line with
        | 0x0d :: line => line.reverse
        | line => line.reverse) :: splitLines [] bs
    else splitLines (b :: line) bs

/-- The lines up to the first one that is not UTF-8. -/
def textLines : List Bytes → List (List Char)
  | [] => []
  | line :: lines =>
    match String.fromUTF8? line.toByteArray with
    | some text => text.toList :: textLines lines
    | none => []

def skipMark (lines : List (List Char)) : List (List Char) :=
  match lines with
  | line :: lines => line.dropWhile (· == '\uFEFF') :: lines
  | [] => []

/-- The entries of a file. -/
def entries (content : ByteArray) : List Entry :=
  (skipMark (textLines (splitLines [] content.toList))).filterMap entry?

/-! ### Deciding -/

/-- The verdict of the last entry that matches a path, which is given from the directory of the
file on. -/
def verdict? (entries : List Entry) (path : String) (isFolder : Bool) : Option Verdict :=
  let bytes := path.toUTF8.toList
  (entries.reverse.find? fun e => (isFolder || !e.onlyFolders) && accepts e.tokens bytes).map
    (·.verdict)

end ArityCheck.Ignore
