/-! Patterns for paths that are left out.

A `?` stands for one character and a `*` for any text, separators included. A `**` is a whole
segment and stands for any number of segments. Classes such as `[a-z]` and `[!a-z]` stand for one
character; there are no escapes. -/

namespace ArityCheck

namespace Glob

inductive Token where
  | char (c : Char)
  | any
  | sequence
  | recursive
  /-- A character within some of the ranges, or within none of them. -/
  | oneOf (negated : Bool) (ranges : List (Char × Char))
deriving DecidableEq, Repr

/-! ### Matching -/

/-- Everything that is left after any number of characters. -/
def tails : List Char → List (List Char)
  | [] => [[]]
  | c :: cs => (c :: cs) :: tails cs

/-- Everything that is left after a separator, and the end. -/
def afterSeparators : List Char → List (List Char)
  | [] => [[]]
  | c :: cs => if c = '/' then cs :: afterSeparators cs else afterSeparators cs

def inRanges (ranges : List (Char × Char)) (c : Char) : Bool :=
  ranges.any fun (low, high) => low ≤ c && c ≤ high

/-- The whole of a text is matched. -/
def accepts : List Token → List Char → Bool
  | [], text => text.isEmpty
  | .sequence :: ts, text => (tails text).any (accepts ts)
  | .recursive :: ts, text => accepts ts text || (afterSeparators text).any (accepts ts)
  | _ :: _, [] => false
  | .char c :: ts, d :: text => c == d && accepts ts text
  | .any :: ts, _ :: text => accepts ts text
  | .oneOf negated ranges :: ts, d :: text => inRanges ranges d != negated && accepts ts text

/-! ### Reading -/

inductive Mistake where
  | tooManyStars
  | looseRecursive
  | openClass
deriving DecidableEq, Repr

/-- What is wrong with a pattern, and where, counted in characters. -/
structure Error where
  position : Nat
  mistake : Mistake
deriving DecidableEq, Repr

def Error.message (e : Error) : String :=
  "Pattern syntax error near position " ++ toString e.position ++ ": " ++
    match e.mistake with
    | .tooManyStars => "wildcards are either regular \x60*\x60 or recursive \x60**\x60"
    | .looseRecursive => "recursive wildcards must form a single path component"
    | .openClass => "invalid range pattern"

/-- The ranges of a class. A lone character is a range by itself. -/
def classRanges : List Char → List (Char × Char)
  | [] => []
  | low :: '-' :: high :: cs => (low, high) :: classRanges cs
  | c :: cs => (c, c) :: classRanges cs

/-- A class whose end has not been reached: where it began, and its characters, latest first. -/
structure OpenClass where
  start : Nat
  negated : Bool
  chars : List Char

/-- Reads the tokens from a position on, where `last` is the character before it. -/
def read (inside : Option OpenClass) (position : Nat) (last : Option Char) :
    List Char → Except Error (List Token)
  | [] =>
    match inside with
    | some c => .error ⟨c.start, .openClass⟩
    | none => .ok []
  | c :: cs =>
    match inside with
    | some k =>
      if c = ']' && !k.chars.isEmpty then do
        let ts ← read none (position + 1) (some c) cs
        return .oneOf k.negated (classRanges k.chars.reverse) :: ts
      else if c = '!' && k.chars.isEmpty && !k.negated && last = some '[' then
        read (some { k with negated := true }) (position + 1) (some c) cs
      else read (some { k with chars := c :: k.chars }) (position + 1) (some c) cs
    | none =>
      match c, cs with
      | '*', '*' :: '*' :: _ => .error ⟨position + 2, .tooManyStars⟩
      | '*', '*' :: cs =>
        if last.any (· != '/') then .error ⟨position - 1, .looseRecursive⟩
        else
          match cs with
          | [] => .ok [.recursive]
          | '/' :: cs => do
            let ts ← read none (position + 3) (some '/') cs
            return .recursive :: ts
          | _ => .error ⟨position + 2, .looseRecursive⟩
      | '*', cs => do
        let ts ← read none (position + 1) (some c) cs
        return .sequence :: ts
      | '?', cs => do
        let ts ← read none (position + 1) (some c) cs
        return .any :: ts
      | '[', cs => read (some ⟨position, false, []⟩) (position + 1) (some c) cs
      | c, cs => do
        let ts ← read none (position + 1) (some c) cs
        return .char c :: ts

end Glob

/-- A pattern together with the text it was read from. -/
structure Glob where
  text : String
  tokens : List Glob.Token
deriving DecidableEq, Repr

namespace Glob

def parse (text : String) : Except Error Glob := do
  return { text, tokens := ← read none 0 none text.toList }

def isMatch (g : Glob) (text : String) : Bool := accepts g.tokens text.toList

end Glob

end ArityCheck
