import ArityCheck.Grammar.Scan
import ArityCheck.Source.Dialect
import ArityCheck.Tree.Basic

/-! The means of the grammar: a backtracking reader with ordered choice.

A rule reads trees from the text at an index, where blanks and comments before a lexeme belong
to it. Rules refer to each other through a goal, and what a goal gave at an index is kept in a
table, so that a choice which reads the same text twice costs it once. -/

namespace ArityCheck.Grammar

/-- What surrounds an expression and decides how far it goes. -/
structure Scope where
  /-- The word `in` does not go on with the expression: the head of a loop. -/
  noIn : Bool := false
  /-- A colon after a parameter list does not begin a return type: between `?` and `:`. -/
  noReturnType : Bool := false
deriving DecidableEq, Repr

/-- The rules that others refer to. -/
inductive Goal where
  | statement
  | block
  | expressions (scope : Scope)
  | expression (scope : Scope)
  | operand (scope : Scope)
  | untypedOperand (scope : Scope)
  | chain (scope : Scope)
  | pattern
  | parameters
  | classBody
  | element
  | type
  | unionType
  | typeOperand
  | typeArguments
  | objectType
deriving DecidableEq, Repr

/-- The text, and the parts of the grammar that the dialect brings. -/
structure Source where
  chars : Chars
  typed : Bool
  markup : Bool

/-- What the goals gave so far, by the index at which they were read: trees and the index after
them, or nothing. -/
abbrev Memo := Array (List (Goal × Option (List Tree × Nat)))

namespace Memo

/-- Nothing was read of a text of the given length. -/
def empty (length : Nat) : Memo := .replicate (length + 1) []

/-- What a goal gave at an index, if it was read there. -/
def find? (m : Memo) (goal : Goal) (i : Nat) : Option (Option (List Tree × Nat)) :=
  (m.getD i []).lookup goal

def insert (m : Memo) (goal : Goal) (i : Nat) (found : Option (List Tree × Nat)) : Memo :=
  m.modify i ((goal, found) :: ·)

end Memo

def Parse (α : Type) : Type := Source → Nat → Memo → Option (α × Nat) × Memo

namespace Parse

@[inline] protected def pure {α : Type} (a : α) : Parse α := fun _ i m => (some (a, i), m)

@[inline] protected def bind {α β : Type} (x : Parse α) (f : α → Parse β) : Parse β :=
  fun s i m =>
    match x s i m with
    | (some (a, j), m) => f a s j m
    | (none, m) => (none, m)

instance : Monad Parse where
  pure := Parse.pure
  bind := Parse.bind

@[inline] protected def failure {α : Type} : Parse α := fun _ _ m => (none, m)

/-- The second rule is tried where the first one fails. -/
@[inline] protected def orElse {α : Type} (x : Parse α) (y : Unit → Parse α) : Parse α :=
  fun s i m =>
    match x s i m with
    | (none, m) => y () s i m
    | found => found

instance : Alternative Parse where
  failure := Parse.failure
  orElse := Parse.orElse

/-- Answers from the text at hand without reading any of it. -/
def look {α : Type} (f : Source → Nat → α) : Parse α := fun s i m => (some (f s i, i), m)

def check (f : Source → Nat → Bool) : Parse Unit := do guard (← look f)

/-- Succeeds where `x` would, and reads nothing. -/
def ahead {α : Type} (x : Parse α) : Parse Unit :=
  fun s i m =>
    match x s i m with
    | (some _, m) => (some ((), i), m)
    | (none, m) => (none, m)

def notAhead {α : Type} (x : Parse α) : Parse Unit :=
  fun s i m =>
    match x s i m with
    | (some _, m) => (none, m)
    | (none, m) => (some ((), i), m)

/-- Applies `step` until it fails or reads nothing, at most `n` times. -/
def iterateUpTo {α : Type} (step : α → Parse α) : Nat → α → Parse α
  | 0, a => pure a
  | n + 1, a => fun s i m =>
    match step a s i m with
    | (some (b, j), m) => if i < j then iterateUpTo step n b s j m else (some (a, i), m)
    | (none, m) => (some (a, i), m)

/-- Applies `step` as often as it succeeds. Each round reads something, so the rest of the text
bounds their number. -/
def iterate {α : Type} (step : α → Parse α) (a : α) : Parse α :=
  fun s i m => iterateUpTo step (s.chars.size - i + 1) a s i m

/-- As many of `x` as there are. -/
def many {α : Type} (x : Parse α) : Parse (List α) := do
  let found ← iterate (fun done => do return (← x) :: done) []
  return found.reverse

end Parse

open Parse

/-! ### Trees -/

abbrev Rule := Parse (List Tree)

/-- How a rule refers to others. -/
abbrev Rec := Goal → Rule

/-- Puts trees under a node. Comments before its first lexeme stay outside. -/
def group (kind : Kind) (trees : List Tree) : List Tree :=
  let (comments, rest) := trees.span (·.isComment)
  comments ++ [.node none kind rest]

/-- Gives the role `r` to the last tree, which is the one that was read after any comments. -/
def assign (r : Role) : List Tree → List Tree
  | [] => []
  | [t] => [t.withRole r]
  | t :: ts => t :: assign r ts

def lastKind? (trees : List Tree) : Option Kind := trees.getLast?.map Tree.kind

def under (kind : Kind) (x : Rule) : Rule := do return group kind (← x)

def field (r : Role) (x : Rule) : Rule := do return assign r (← x)

/-- One rule after the other. -/
def seq : List Rule → Rule
  | [] => pure []
  | [x] => x
  | x :: xs => do
    let first ← x
    let rest ← seq xs
    return first ++ rest

/-- The first of several rules that reads. -/
def choice : List Rule → Rule
  | [] => failure
  | [x] => x
  | x :: xs => x <|> choice xs

def opt (x : Rule) : Rule := x <|> pure []

/-- As many of `x` as there are, one after the other. -/
def repeated (x : Rule) : Rule := do return (← many x).flatten

/-- One or more of `x` with `sep` between them. -/
def sepBy1 (sep x : Rule) : Rule := do
  let first ← x
  let rest ← repeated (seq [sep, x])
  return first ++ rest

/-! ### Lexemes -/

/-- The comments between the last lexeme and the start of the next, each with its blanks, and
the index at which the blanks of the lexeme begin. -/
def commentsBefore (cs : Chars) (i : Nat) : List Tree × Nat := go (cs.size - i) i []
where
  go : Nat → Nat → List Tree → List Tree × Nat
    | 0, i, done => (done.reverse, i)
    | n + 1, i, done =>
      let j := skipBlanks cs i
      match commentEnd? cs j with
      | some k => go n k (.leaf none .comment ⟨slice cs i j, slice cs j k, false⟩ :: done)
      | none => (done.reverse, i)

/-- Reads the lexeme at the start of which `stop?` answers with its end. -/
def lexeme (kind : Kind) (stop? : Chars → Nat → Option Nat) : Rule := fun s i m =>
  let start := skipTrivia s.chars i
  match stop? s.chars start with
  | none => (none, m)
  | some stop =>
    let (comments, gap) := commentsBefore s.chars i
    let token : Token := ⟨slice s.chars gap start, slice s.chars start stop, false⟩
    (some (comments ++ [.leaf none kind token], stop), m)

/-- Reads text where blanks and comments mean nothing special. -/
def rawText (kind : Kind) (stop? : Chars → Nat → Option Nat) : Rule := fun s i m =>
  match stop? s.chars i with
  | none => (none, m)
  | some stop => (some ([.leaf none kind ⟨"", slice s.chars i stop, false⟩], stop), m)

/-- A mark that needs no look at what follows it, such as a bracket. -/
def mark (s : String) : Rule := lexeme .token fun cs i => literal? cs i s

/-- An operator, read only if it is not the start of a longer one. -/
def operator (op : String) : Rule :=
  lexeme .token fun cs i => if operator? cs i == some op then literal? cs i op else none

/-- The word at `i`, if there is one. -/
def wordAt? (cs : Chars) (i : Nat) : Option String := (wordEnd? cs i).map (slice cs i)

/-- A word that satisfies `p`. -/
def word (kind : Kind) (p : String → Bool) : Rule :=
  lexeme kind fun cs i =>
    match wordEnd? cs i with
    | some j => if p (slice cs i j) then some j else none
    | none => none

def keyword (w : String) : Rule := word .token (· == w)

/-- The character that the next lexeme begins with. -/
def nextChar : Parse (Option Char) := look fun s i => s.chars[skipTrivia s.chars i]?

/-- The word that comes next, if a word does. -/
def nextWord : Parse (Option String) := look fun s i => wordAt? s.chars (skipTrivia s.chars i)

def nextOperator : Parse (Option String) :=
  look fun s i => operator? s.chars (skipTrivia s.chars i)

def typed : Parse Bool := look fun s _ => s.typed

def markup : Parse Bool := look fun s _ => s.markup

/-- A rule of the typed dialects only. -/
def whenTyped (x : Rule) : Rule := do
  guard (← typed)
  x

/-- No line end stands between the last lexeme and the next. -/
def sameLine : Parse Unit :=
  check fun s i => !(s.chars.extract i (skipTrivia s.chars i)).any isLineEnd

/-- A statement may end here without a semicolon. -/
def ending (inExpression : Bool) (beforeBody : Bool := false) : Parse Unit :=
  check fun s i => endsStatement s.chars ⟨s.typed, inExpression, beforeBody⟩ i

def notEnding (inExpression : Bool) : Parse Unit :=
  check fun s i => !endsStatement s.chars ⟨s.typed, inExpression, false⟩ i

/-- The end of a statement, with or without its semicolon. -/
def semicolon (inExpression : Bool) : Rule :=
  mark ";" <|> (do ending inExpression; return [])

/-- The comments that begin with `<!--` or `-->`, which may stand where a statement or an
operand begins. -/
def htmlComments : Rule := repeated (lexeme .htmlComment htmlCommentEnd?)

/-! ### Words -/

/-- The words that name nothing. -/
def reservedWords : List String :=
  ["break", "case", "catch", "class", "const", "continue", "debugger", "default", "delete", "do",
    "else", "export", "extends", "false", "finally", "for", "function", "if", "import", "in",
    "instanceof", "new", "null", "return", "super", "switch", "this", "throw", "true", "try",
    "typeof", "var", "void", "while", "with"]

def isReserved (w : String) : Bool := reservedWords.contains w

/-- A name. -/
def identifier : Rule := word .identifier (!isReserved ·)

def typeName : Rule := word .typeIdentifier (!isReserved ·)

/-- A name after a dot, where no word is reserved. -/
def propertyWord : Rule := word .propertyIdentifier fun _ => true

/-- A private name, which begins with `#`. -/
def privateName : Rule :=
  lexeme .privatePropertyIdentifier fun cs i => if cs[i]? == some '#' then wordEnd? cs (i + 1) else none

def string : Rule := lexeme .string stringEnd?

def number : Rule := lexeme .number numberEnd?

/-! ### Lists -/

def openBrace : Rule := mark "\x7b"

def closeBrace : Rule := mark "\x7d"

def comma : Rule := mark ","

/-- Items with commas between them, any of which may be left out. -/
def sparseList (item : Rule) : Rule := seq [opt item, repeated (seq [comma, opt item])]

/-- Items with commas between them and perhaps one after the last. -/
def commaList (item : Rule) : Rule := opt (seq [sepBy1 comma item, opt comma])

end ArityCheck.Grammar
