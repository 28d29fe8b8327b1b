import ArityCheck.Toml.Number

/-! Quoted text: in double quotes with escapes or in single quotes without, on one line or, between
tripled quotes, on several. -/

namespace ArityCheck.Toml

/-- Characters that may stand in a comment or in a text: all but control characters. -/
def isPlain (c : Char) : Bool := c == '\t' || (0x20 ≤ c.toNat && c.toNat != 0x7f)

def escaped? : Char → Option Char
  | 'b' => some '\x08'
  | 't' => some '\t'
  | 'n' => some '\n'
  | 'f' => some '\x0c'
  | 'r' => some '\r'
  | '\x22' => some '\x22'
  | '\\' => some '\\'
  | _ => none

/-- The character with a given number, written in hexadecimal. Halves of pairs stand for none. -/
def hexChar? (digits : List Char) : Option Char := do
  let values ← digits.mapM digitValue?
  let n := values.foldl (fun n d => n * 16 + d) 0
  if h : n.isValidChar then some (Char.ofNatAux n h) else none

/-- Appends a character that was read before the rest of a text. -/
def before (c : Char) : Option (List Char × List Char) → Option (List Char × List Char)
  | some (text, rest) => some (c :: text, rest)
  | none => none

/-- The text up to a double quote. -/
def basic : List Char → Option (List Char × List Char)
  | [] => none
  | '\x22' :: rest => some ([], rest)
  | '\\' :: 'u' :: a :: b :: c :: d :: rest =>
    match hexChar? [a, b, c, d] with
    | some x => before x (basic rest)
    | none => none
  | '\\' :: 'U' :: a :: b :: c :: d :: e :: f :: g :: h :: rest =>
    match hexChar? [a, b, c, d, e, f, g, h] with
    | some x => before x (basic rest)
    | none => none
  | '\\' :: c :: rest =>
    match escaped? c with
    | some x => before x (basic rest)
    | none => none
  | c :: rest => if isPlain c && c != '\\' then before c (basic rest) else none

/-- The text up to a single quote. -/
def literal : List Char → Option (List Char × List Char)
  | [] => none
  | '\x27' :: rest => some ([], rest)
  | c :: rest => if isPlain c then before c (literal rest) else none

/-- Only blanks come before the end of the line. -/
def endsLine (cs : List Char) : Bool :=
  match cs.dropWhile fun c => c == ' ' || c == '\t' with
  | '\n' :: _ => true
  | '\r' :: '\n' :: _ => true
  | _ => false

/-- After three quotes: two more of them still belong to the text. -/
def closing (quote : Char) (rest : List Char) : List Char × List Char :=
  match rest with
  | a :: b :: rest' =>
    if a == quote && b == quote then ([a, b], rest')
    else if a == quote then ([a], b :: rest')
    else ([], rest)
  | [a] => if a == quote then ([a], []) else ([], rest)
  | [] => ([], [])

/-- The text up to three double quotes. While `gap` holds, blanks and ends of lines are left out:
that is what a backslash at the end of a line is for. -/
def basicLines (gap : Bool) : List Char → Option (List Char × List Char)
  | [] => none
  | '\x22' :: '\x22' :: '\x22' :: rest => some (closing '\x22' rest)
  | '\r' :: '\n' :: rest => if gap then basicLines true rest else before '\n' (basicLines false rest)
  | '\\' :: 'u' :: a :: b :: c :: d :: rest =>
    match hexChar? [a, b, c, d] with
    | some x => before x (basicLines false rest)
    | none => none
  | '\\' :: 'U' :: a :: b :: c :: d :: e :: f :: g :: h :: rest =>
    match hexChar? [a, b, c, d, e, f, g, h] with
    | some x => before x (basicLines false rest)
    | none => none
  | '\\' :: c :: rest =>
    match escaped? c with
    | some x => before x (basicLines false rest)
    | none => if endsLine (c :: rest) then basicLines true (c :: rest) else none
  | c :: rest =>
    if gap && (c == ' ' || c == '\t' || c == '\n') then basicLines true rest
    else if c == '\n' || (isPlain c && c != '\\') then before c (basicLines false rest)
    else none

/-- The text up to three single quotes. -/
def literalLines : List Char → Option (List Char × List Char)
  | [] => none
  | '\x27' :: '\x27' :: '\x27' :: rest => some (closing '\x27' rest)
  | '\r' :: '\n' :: rest => before '\n' (literalLines rest)
  | c :: rest => if c == '\n' || isPlain c then before c (literalLines rest) else none

/-- An end of line right after the opening quotes is no part of the text. -/
def skipFirstNewline : List Char → List Char
  | '\n' :: rest => rest
  | '\r' :: '\n' :: rest => rest
  | cs => cs

/-- Reads a text on one line, such as a quoted key. -/
def readLine : List Char → Option (String × List Char)
  | '\x22' :: rest => (basic rest).map fun (text, rest) => (String.ofList text, rest)
  | '\x27' :: rest => (literal rest).map fun (text, rest) => (String.ofList text, rest)
  | _ => none

/-- Reads a quoted text. -/
def readQuoted (cs : List Char) : Option (String × List Char) :=
  match cs with
  | '\x22' :: '\x22' :: '\x22' :: rest =>
    (basicLines false (skipFirstNewline rest)).map fun (text, rest) => (String.ofList text, rest)
  | '\x27' :: '\x27' :: '\x27' :: rest =>
    (literalLines (skipFirstNewline rest)).map fun (text, rest) => (String.ofList text, rest)
  | cs => readLine cs

end ArityCheck.Toml
