import ArityCheck.Toml.Value

/-! Writing TOML values on one line, or on several if a string has them.

A string is written in the plainest way that fits: in double quotes if nothing has to be escaped,
then in single quotes, then in tripled quotes, and with escapes only as the last resort. -/

namespace ArityCheck.Toml

/-! ### Strings -/

def isControl (c : Char) : Bool := (c.toNat < 0x20 || c.toNat == 0x7f) && c != '\t' && c != '\n'

/-- The longest run of a character. -/
def longestRun (c : Char) (text : List Char) : Nat :=
  let step := fun (best, current) d =>
    if d == c then (max best (current + 1), current + 1) else (best, 0)
  (text.foldl step (0, 0)).1

def upperHex (n : Nat) : Char :=
  Char.ofNat (if n < 10 then '0'.toNat + n else 'A'.toNat + (n - 10))

/-- A character as it stands between double quotes. -/
def escapeChar (c : Char) : List Char :=
  match c with
  | '\x08' => ['\\', 'b']
  | '\t' => ['\\', 't']
  | '\n' => ['\\', 'n']
  | '\x0c' => ['\\', 'f']
  | '\r' => ['\\', 'r']
  | '\x22' => ['\\', '\x22']
  | '\\' => ['\\', '\\']
  | c =>
    if isControl c then ['\\', 'u', '0', '0', upperHex (c.toNat / 16), upperHex (c.toNat % 16)]
    else [c]

/-- The text between tripled double quotes, where `quotes` of them came just before. Newlines
stand as they are, and of three quotes in a row the third is escaped. -/
def escapeLines (quotes : Nat) : List Char → List Char
  | [] => []
  | c :: cs =>
    if c == '\n' then c :: escapeLines 0 cs
    else if c == '\x22' && quotes < 2 then c :: escapeLines (quotes + 1) cs
    else escapeChar c ++ escapeLines 0 cs

/-- A text between quotes that may hold several lines. The first line begins below the quotes. -/
def triple (quote : Char) (isLong : Bool) (inner : List Char) : List Char :=
  let quotes := List.replicate 3 quote
  quotes ++ (if isLong then ['\n'] else []) ++ inner ++ quotes

def single (quote : Char) (inner : List Char) : List Char := quote :: inner ++ [quote]

def stringText (s : String) : String :=
  let cs := s.toList
  let hasControl := cs.any isControl
  let hasBackslash := cs.contains '\\'
  let isLong := cs.contains '\n'
  let doubles := longestRun '\x22' cs
  let singles := longestRun '\x27' cs
  String.ofList <|
    if !hasControl && !hasBackslash && doubles == 0 && !isLong then
      single '\x22' (cs.flatMap escapeChar)
    else if !hasControl && singles == 0 && !isLong then single '\x27' cs
    else if !hasControl && !hasBackslash && doubles ≤ 2 then
      triple '\x22' isLong (escapeLines 0 cs)
    else if !hasControl && singles ≤ 2 then triple '\x27' isLong cs
    else if isLong then triple '\x22' isLong (escapeLines 0 cs)
    else single '\x22' (cs.flatMap escapeChar)

/-! ### Keys -/

def isBareKeyChar (c : Char) : Bool := c.isAlphanum || c == '_' || c == '-'

/-- A key is written bare if it can be, and never on several lines. -/
def keyText (s : String) : String :=
  let cs := s.toList
  let hasControl := cs.any fun c => isControl c || c == '\n'
  if !cs.isEmpty && cs.all isBareKeyChar then s
  else String.ofList <|
    if !hasControl && !cs.contains '\\' && !cs.contains '\x22' then
      single '\x22' (cs.flatMap escapeChar)
    else if !hasControl && !cs.contains '\x27' then single '\x27' cs
    else single '\x22' (cs.flatMap escapeChar)

/-! ### Values -/

mutual

/-- A value inside another one. -/
def innerText : Value → String
  | .string s => stringText s
  | .integer n => toString n
  | .float x => x.text
  | .boolean b => if b then "true" else "false"
  | .datetime text => text
  | .array [] => "[]"
  | .array (x :: xs) => "[" ++ innerText x ++ itemsText xs ++ "]"
  | .table [] => "\x7b\x7d"
  | .table ((k, v) :: es) => "\x7b " ++ keyText k ++ " = " ++ innerText v ++ entriesText es ++ " \x7d"

def itemsText : List Value → String
  | [] => ""
  | x :: xs => ", " ++ innerText x ++ itemsText xs

def entriesText : List (String × Value) → String
  | [] => ""
  | (k, v) :: es => ", " ++ keyText k ++ " = " ++ innerText v ++ entriesText es

end

/-- A value as it is quoted in a message. A date that stands alone is shown as a table with the
date as its only entry. -/
def Value.text : Value → String
  | .datetime date =>
    innerText (.table [("$__toml_private_datetime", .string date)])
  | v => innerText v

end ArityCheck.Toml
