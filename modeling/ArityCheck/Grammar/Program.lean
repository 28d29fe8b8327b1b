import ArityCheck.Grammar.Statement

/-! Whole programs: the rules tied together, and the tree of a source text.

`parse` gives a tree of the whole text, however broken the text is: one that could not be read
is a single fault, which begins at its first character. -/

namespace ArityCheck.Grammar

open Parse

/-- The rule of each goal. -/
def rule (rec : Rec) : Goal → Rule
  | .statement => statement rec
  | .block => block rec
  | .expressions scope => expressions rec scope
  | .expression scope => expression rec scope
  | .operand scope => operand rec scope
  | .untypedOperand scope => untypedOperand rec scope
  | .chain scope => chain rec scope
  | .pattern => pattern rec
  | .parameters => parameters rec
  | .classBody => classBody rec
  | .element => element rec
  | .type => type rec
  | .unionType => unionType rec
  | .typeOperand => typeOperand rec
  | .typeArguments => typeArguments rec
  | .objectType => objectType rec

/-- Reads a goal, or takes it from the table. Goals refer to each other at most `depth` deep. -/
def reach : Nat → Rec
  | 0, _ => failure
  | depth + 1, goal => fun s i m =>
    match m.find? goal i with
    | some found => (found, m)
    | none =>
      let (found, m) := rule (reach depth) goal s i m
      (found, m.insert goal i found)

/-- A goal leads to others at the same index before something is read, but never to itself, so
this many levels suffice for a text of the given length. -/
def depthFor (length : Nat) : Nat := 24 * (length + 2)

def hashBang : Rule :=
  lexeme .hashBang fun cs i => if isAt cs i "#!" then some (skipWhile cs (· != '\n') i) else none

def program (rec : Rec) : Rule := seq [opt hashBang, repeated (rec .statement), htmlComments]

/-- The whole text as a program, if it is one. -/
def readProgram? (dialect : Dialect) (text : String) : Option Tree := do
  let source : Source := ⟨text.toList.toArray, dialect.typed, dialect.markup⟩
  let size := source.chars.size
  let (trees, stop) ← (program (reach (depthFor size)) source 0 (.empty size)).1
  guard (skipTrivia source.chars stop == size)
  let (comments, blanks) := commentsBefore source.chars stop
  let rest : Tree := .leaf none .token ⟨slice source.chars blanks size, "", false⟩
  return .node none .program (trees ++ comments ++ [rest])

/-- The tree of a source text. -/
def parse (dialect : Dialect) (text : String) : Tree :=
  (readProgram? dialect text).getD (.node none .program [.leaf none .error ⟨"", text, false⟩])

end ArityCheck.Grammar
