/-! The lexemes of JSON text, read one character at a time.

`Lexer.step` takes one character to the next state together with the lexemes that it completes,
so reading a text is one pass over it. -/

namespace ArityCheck.Json

inductive Token where
  | openArray
  | closeArray
  | openObject
  | closeObject
  | comma
  | colon
  | word (text : String)
  | number (literal : String)
  /-- The characters of a string, or none if an escape in it stands for no character. -/
  | string (text : Option String)
deriving DecidableEq, Repr

namespace Lexer

/-- The characters of a string so far, the latest first; none once one of them was broken. -/
abbrev Chars := Option (List Char)

inductive State where
  | blank
  | word (chars : List Char)
  | number (chars : List Char)
  | string (chars : Chars)
  | escape (chars : Chars)
  /-- Inside a hexadecimal escape: its digits so far, and the first half of a pair before it. -/
  | hex (chars : Chars) (high : Option Nat) (digits : Nat) (value : Nat)
  /-- After the first half of a pair, the second half of which has to follow. -/
  | high (chars : Chars) (unit : Nat)
  | highEscape (chars : Chars) (unit : Nat)

def isBlank (c : Char) : Bool := c == ' ' || c == '\n' || c == '\r' || c == '\t'

def isNumberChar (c : Char) : Bool :=
  c.isDigit || c == '-' || c == '+' || c == '.' || c == 'e' || c == 'E'

def hexDigit? (c : Char) : Option Nat :=
  if c.isDigit then some (c.toNat - '0'.toNat)
  else if 'a' ≤ c && c ≤ 'f' then some (c.toNat - 'a'.toNat + 10)
  else if 'A' ≤ c && c ≤ 'F' then some (c.toNat - 'A'.toNat + 10)
  else none

def push (chars : Chars) (c : Char) : Chars := chars.map (c :: ·)

/-- The state that a character begins outside of any lexeme. -/
def start (c : Char) : Option (List Token × State) :=
  if isBlank c then some ([], .blank)
  else
    match c with
    | '[' => some ([.openArray], .blank)
    | ']' => some ([.closeArray], .blank)
    | '\x7b' => some ([.openObject], .blank)
    | '\x7d' => some ([.closeObject], .blank)
    | ',' => some ([.comma], .blank)
    | ':' => some ([.colon], .blank)
    | '\x22' => some ([], .string (some []))
    | _ =>
      if c.isDigit || c == '-' then some ([], .number [c])
      else if c.isAlpha then some ([], .word [c])
      else none

def escaped? : Char → Option Char
  | '\x22' => some '\x22'
  | '\\' => some '\\'
  | '/' => some '/'
  | 'b' => some '\x08'
  | 'f' => some '\x0c'
  | 'n' => some '\n'
  | 'r' => some '\r'
  | 't' => some '\t'
  | _ => none

/-- The end of a hexadecimal escape whose digits are `unit`. -/
def closeHex (chars : Chars) (high : Option Nat) (unit : Nat) : State :=
  match high with
  | some h =>
    if 0xDC00 ≤ unit && unit ≤ 0xDFFF then
      .string (push chars (Char.ofNat (0x10000 + (h - 0xD800) * 0x400 + (unit - 0xDC00))))
    else .string none
  | none =>
    if 0xD800 ≤ unit && unit ≤ 0xDBFF then .high chars unit
    else if 0xDC00 ≤ unit && unit ≤ 0xDFFF then .string none
    else .string (push chars (Char.ofNat unit))

def stepString (chars : Chars) (c : Char) : Option (List Token × State) :=
  if c == '\x22' then some ([.string (chars.map fun cs => String.ofList cs.reverse)], .blank)
  else if c == '\\' then some ([], .escape chars)
  else if c.toNat < 0x20 then none
  else some ([], .string (push chars c))

def stepEscape (chars : Chars) (c : Char) : Option (List Token × State) :=
  if c == 'u' then some ([], .hex chars none 0 0)
  else (escaped? c).map fun d => ([], .string (push chars d))

/-- One character. None if no lexeme goes on with it. -/
def step (s : State) (c : Char) : Option (List Token × State) :=
  match s with
  | .blank => start c
  | .word cs =>
    if c.isAlpha then some ([], .word (c :: cs))
    else (start c).map fun (ts, s) => (.word (String.ofList cs.reverse) :: ts, s)
  | .number cs =>
    if isNumberChar c then some ([], .number (c :: cs))
    else (start c).map fun (ts, s) => (.number (String.ofList cs.reverse) :: ts, s)
  | .string chars => stepString chars c
  | .escape chars => stepEscape chars c
  | .hex chars high digits value =>
    (hexDigit? c).map fun d =>
      let value := value * 16 + d
      ([], if digits == 3 then closeHex chars high value else .hex chars high (digits + 1) value)
  | .high chars unit =>
    if c == '\\' then some ([], .highEscape chars unit) else stepString none c
  | .highEscape chars unit =>
    if c == 'u' then some ([], .hex chars (some unit) 0 0) else stepEscape none c

/-- The lexeme that the end of the text completes. -/
def finish : State → Option (List Token)
  | .blank => some []
  | .word cs => some [.word (String.ofList cs.reverse)]
  | .number cs => some [.number (String.ofList cs.reverse)]
  | _ => none

/-- The lexemes from a state on, after those in `done`, which come latest first. -/
def run (s : State) (done : List Token) : List Char → Option (List Token)
  | [] => (finish s).map fun ts => (ts.reverse ++ done).reverse
  | c :: cs =>
    match step s c with
    | none => none
    | some (ts, s) => run s (ts.reverse ++ done) cs

end Lexer

/-- The lexemes of a text. -/
def tokens? (text : String) : Option (List Token) := Lexer.run .blank [] text.toList

end ArityCheck.Json
