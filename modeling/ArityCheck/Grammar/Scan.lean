/-! Reading characters: blanks, comments, words and literals, by index into the text.

Every function answers with the index after what it read. -/

namespace ArityCheck.Grammar

/-- The characters of a source text. -/
abbrev Chars := Array Char

/-! ### Classes of characters -/

/-- White space and the invisible characters that count as it between lexemes. -/
def isBlank (c : Char) : Bool :=
  let n := c.toNat
  (9 ≤ n && n ≤ 13) || n == 0x20 || n == 0x85 || n == 0xA0 || n == 0x1680 ||
    (0x2000 ≤ n && n ≤ 0x200B) || n == 0x2028 || n == 0x2029 || n == 0x202F || n == 0x205F ||
    n == 0x2060 || n == 0x3000 || n == 0xFEFF

/-- The blanks that may stand before the line end at which a statement ends. -/
def isPlainBlank (c : Char) : Bool :=
  let n := c.toNat
  (9 ≤ n && n ≤ 13) || n == 0x20

def isLineEnd (c : Char) : Bool := c == '\n' || c.toNat == 0x2028 || c.toNat == 0x2029

/-- The marks that no word can hold. -/
def isMark (c : Char) : Bool :=
  ":;\x60\x22\x27@#.,|^&<=>+-*/\\%?!~()[]\x7b\x7d".toList.contains c

/-- A word is made of all characters that are no blank, control character or mark. -/
def isWordPart (c : Char) : Bool := 0x1F < c.toNat && !isBlank c && !isMark c

def isWordStart (c : Char) : Bool := isWordPart c && !c.isDigit

def isHex (c : Char) : Bool :=
  c.isDigit || ('a' ≤ c && c ≤ 'f') || ('A' ≤ c && c ≤ 'F')

/-! ### Moving over characters -/

/-- The first index from `i` on whose character does not satisfy `p`. -/
def skipWhile (cs : Chars) (p : Char → Bool) (i : Nat) : Nat :=
  if h : i < cs.size then
    if p cs[i] then skipWhile cs p (i + 1) else i
  else i
termination_by cs.size - i

/-- The index after `s`, if it stands at `i`. -/
def literal? (cs : Chars) (i : Nat) (s : String) : Option Nat :=
  go i s.toList
where
  go (i : Nat) : List Char → Option Nat
    | [] => some i
    | c :: rest => if cs[i]? == some c then go (i + 1) rest else none

def isAt (cs : Chars) (i : Nat) (s : String) : Bool := (literal? cs i s).isSome

/-- The text between two indices. -/
def slice (cs : Chars) (i j : Nat) : String := String.ofList (cs.extract i j).toList

/-! ### Comments -/

/-- The end of a block comment whose text goes on at `i`. -/
def blockCommentEnd? (cs : Chars) (i : Nat) : Option Nat :=
  if h : i < cs.size then
    if cs[i] == '*' && cs[i + 1]? == some '/' then some (i + 2) else blockCommentEnd? cs (i + 1)
  else none
termination_by cs.size - i

/-- The end of the comment that begins at `i`. -/
def commentEnd? (cs : Chars) (i : Nat) : Option Nat :=
  if isAt cs i "//" then some (skipWhile cs (fun c => !isLineEnd c && c != '\r') (i + 2))
  else if isAt cs i "/*" then blockCommentEnd? cs (i + 2)
  else none

/-- The end of the line comment that begins with `<!--` or `-->` at `i`. -/
def htmlCommentEnd? (cs : Chars) (i : Nat) : Option Nat :=
  if isAt cs i "<!--" || isAt cs i "-->" then some (skipWhile cs (!isLineEnd ·) i) else none

def skipBlanks (cs : Chars) (i : Nat) : Nat := skipWhile cs isBlank i

/-- The start of the next lexeme: blanks and comments are passed over. The comments take at
most `n` rounds, which the length of the text bounds. -/
def skipTrivia (cs : Chars) (i : Nat) : Nat := go (cs.size - i) i
where
  go : Nat → Nat → Nat
    | 0, i => skipBlanks cs i
    | n + 1, i =>
      let j := skipBlanks cs i
      match commentEnd? cs j with
      | some k => go n k
      | none => j

/-! ### Words -/

/-- The end of a Unicode escape at `i`, which has four digits or any number in braces. -/
def unicodeEscapeEnd? (cs : Chars) (i : Nat) : Option Nat :=
  if !isAt cs i "\\u" then none
  else if cs[i + 2]? == some '\x7b' then
    let j := skipWhile cs isHex (i + 3)
    if i + 3 < j && cs[j]? == some '\x7d' then some (j + 1) else none
  else
    let digits := cs.extract (i + 2) (i + 6)
    if digits.size == 4 && digits.all isHex then some (i + 6) else none

/-- The end of the part of a word that goes on at `i`. -/
def wordRest (cs : Chars) (i : Nat) : Nat := go (cs.size - i) i
where
  go : Nat → Nat → Nat
    | 0, i => i
    | n + 1, i =>
      let j := skipWhile cs isWordPart i
      match unicodeEscapeEnd? cs j with
      | some k => go n k
      | none => j

/-- The end of the word that begins at `i`. -/
def wordEnd? (cs : Chars) (i : Nat) : Option Nat :=
  match cs[i]? with
  | none => none
  | some c =>
    if isWordStart c then some (wordRest cs (i + 1))
    else (unicodeEscapeEnd? cs i).map (wordRest cs)

/-! ### Numbers -/

/-- Digits of a class, where single underscores may stand between two of them. -/
def digitsEnd? (cs : Chars) (p : Char → Bool) (i : Nat) : Option Nat :=
  match cs[i]? with
  | some c => if p c then some (go (cs.size - i) (i + 1)) else none
  | none => none
where
  go : Nat → Nat → Nat
    | 0, i => i
    | n + 1, i =>
      match cs[i]?, cs[i + 1]? with
      | some '_', some d => if p d then go n (i + 2) else i
      | some c, _ => if p c then go n (i + 1) else i
      | none, _ => i

def exponentEnd? (cs : Chars) (i : Nat) : Option Nat :=
  match cs[i]? with
  | some 'e' | some 'E' =>
    match cs[i + 1]? with
    | some '+' | some '-' => digitsEnd? cs Char.isDigit (i + 2)
    | _ => digitsEnd? cs Char.isDigit (i + 1)
  | _ => none

def decimalEnd? (cs : Chars) (i : Nat) : Option Nat :=
  let withExponent (j : Nat) : Nat := (exponentEnd? cs j).getD j
  match digitsEnd? cs Char.isDigit i with
  | some j =>
    match cs[j]? with
    | some 'n' => some (j + 1)
    | some '.' => some (withExponent ((digitsEnd? cs Char.isDigit (j + 1)).getD (j + 1)))
    | _ => some (withExponent j)
  | none =>
    if cs[i]? == some '.' then (digitsEnd? cs Char.isDigit (i + 1)).map withExponent else none

/-- The end of the number at `i`: decimal, or with one of the bases that a letter after the
zero names. -/
def numberEnd? (cs : Chars) (i : Nat) : Option Nat :=
  let based (p : Char → Bool) : Option Nat :=
    (digitsEnd? cs p (i + 2)).map fun j => if cs[j]? == some 'n' then j + 1 else j
  let marked : Option Nat :=
    if cs[i]? != some '0' then none
    else
      match cs[i + 1]? with
      | some 'x' | some 'X' => based isHex
      | some 'o' | some 'O' => based fun c => '0' ≤ c && c ≤ '7'
      | some 'b' | some 'B' => based fun c => c == '0' || c == '1'
      | _ => none
  marked.or (decimalEnd? cs i)

/-! ### Strings, templates and regular expressions -/

/-- The end of the escape whose backslash stands at `i`. -/
def escapeEnd? (cs : Chars) (i : Nat) : Option Nat :=
  match cs[i + 1]? with
  | none => none
  | some 'u' => unicodeEscapeEnd? cs i
  | some 'x' =>
    let digits := cs.extract (i + 2) (i + 4)
    if digits.size == 2 && digits.all isHex then some (i + 4) else none
  | some '\r' => if cs[i + 2]? == some '\n' then some (i + 3) else some (i + 2)
  | some _ => some (i + 2)

/-- The end of the string whose opening quote `q` stands at `i`. -/
def stringEnd? (cs : Chars) (i : Nat) : Option Nat :=
  match cs[i]? with
  | some q => if q == '\x22' || q == '\x27' then go q (cs.size - i) (i + 1) else none
  | none => none
where
  go (q : Char) : Nat → Nat → Option Nat
    | 0, _ => none
    | n + 1, i =>
      match cs[i]? with
      | none => none
      | some c =>
        if c == q then some (i + 1)
        else if c == '\n' || c == '\r' then none
        else if c == '\\' then (escapeEnd? cs i).bind (go q n)
        else go q n (i + 1)

/-- The end of the literal part of a template from `i` on: up to a substitution or the closing
mark, neither of which is included. -/
def templateCharsEnd? (cs : Chars) (i : Nat) : Option Nat := go (cs.size - i + 1) i
where
  go : Nat → Nat → Option Nat
    | 0, _ => none
    | n + 1, i =>
      match cs[i]? with
      | none => none
      | some '\x60' => some i
      | some '\\' => if i + 1 < cs.size then go n (i + 2) else none
      | some '$' => if cs[i + 1]? == some '\x7b' then some i else go n (i + 1)
      | some _ => go n (i + 1)

/-- The end of the regular expression, flags included, whose first slash stands at `i`. -/
def regexEnd? (cs : Chars) (i : Nat) : Option Nat :=
  if cs[i]? == some '/' then go false (cs.size - i) (i + 1) else none
where
  go (inClass : Bool) : Nat → Nat → Option Nat
    | 0, _ => none
    | n + 1, j =>
      match cs[j]? with
      | none => none
      | some '\n' => none
      | some '\\' => if j + 1 < cs.size && cs[j + 1]? != some '\n' then go inClass n (j + 2) else none
      | some '[' => go true n (j + 1)
      | some ']' => go false n (j + 1)
      | some '/' =>
        if inClass then go inClass n (j + 1)
        else if j == i + 1 then none
        else some (skipWhile cs (fun c => 'a' ≤ c && c ≤ 'z') (j + 1))
      | some _ => go inClass n (j + 1)

/-! ### Operators -/

/-- All operators, so that the longest one at a place can be found. -/
def operators : List String :=
  [">>>=", "...", "===", "!==", "**=", "<<=", ">>=", ">>>", "&&=", "||=", "??=",
    "=>", "==", "!=", "<=", ">=", "&&", "||", "??", "?.", "++", "--", "+=", "-=", "*=", "/=", "%=",
    "&=", "|=", "^=", "<<", ">>", "**",
    "+", "-", "*", "/", "%", "<", ">", "&", "|", "^", "!", "~", "=", "?", ":", ".", ","]

/-- The longest operator at `i`. A question mark before a decimal point is an operator by
itself. -/
def operator? (cs : Chars) (i : Nat) : Option String :=
  match operators.find? (isAt cs i) with
  | some "?." => if (cs[i + 2]?).any Char.isDigit then some "?" else some "?."
  | found => found

/-! ### Where a statement may end without a semicolon -/

/-- What the reader is after when it asks whether a statement ends here. -/
structure Ending where
  /-- Types may be written in the text. -/
  typed : Bool
  /-- An expression was just read, so a binary operator could go on. -/
  inExpression : Bool
  /-- A signature was just read, which a body would make a definition. -/
  beforeBody : Bool := false

/-- The lexeme at `i`, the first of its line, goes on with what stands before the line end. -/
def continuesLine (cs : Chars) (e : Ending) (i : Nat) : Bool :=
  match cs[i]? with
  | none => false
  | some c =>
    if "\x60,;:*%><=?^|&/".toList.contains c then true
    else
      match c with
      | '.' => e.typed || !(cs[i + 1]?).any Char.isDigit
      | '(' | '[' => !e.typed || e.inExpression
      | '\x7b' => e.beforeBody
      | '+' => cs[i + 1]? != some '+'
      | '-' => cs[i + 1]? != some '-'
      | '!' => cs[i + 1]? == some '='
      | 'i' =>
        match wordEnd? cs i with
        | some j => slice cs i j == "in" || slice cs i j == "instanceof"
        | none => false
      | _ => false

/-- A statement whose last lexeme ends at `i` may end there: the text ends, a closing brace
follows, or a line end does and the next line does not go on with it. A line end inside a
comment counts only where no expression was read. -/
def endsStatement (cs : Chars) (e : Ending) (i : Nat) : Bool := go (cs.size - i + 1) i
where
  go : Nat → Nat → Bool
    | 0, _ => false
    | n + 1, i =>
      let j := skipWhile cs (fun c => isPlainBlank c && !isLineEnd c) i
      match cs[j]? with
      | none => true
      | some '\x7d' => true
      | some c =>
        if isLineEnd c then !continuesLine cs e (skipTrivia cs (j + 1))
        else
          match commentEnd? cs j with
          | some k =>
            if !e.inExpression && (cs.extract j k).any isLineEnd then
              let next := skipTrivia cs k
              !(cs[next]? == some ',' || cs[next]? == some '=')
            else go n k
          | none => false

end ArityCheck.Grammar
