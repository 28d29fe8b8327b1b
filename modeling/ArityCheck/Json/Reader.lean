import ArityCheck.Json.Basic
import ArityCheck.Json.Token

/-! Reading JSON text.

The containers that are open at a place are kept in a list, so values are read in one pass over
the lexemes and may be nested as deeply as they like. -/

namespace ArityCheck.Json

/-! ### Numbers -/

/-- Splits off the digits at the front. -/
def splitDigits (cs : List Char) : List Char × List Char := cs.span Char.isDigit

/-- The digits before a fraction: a zero, or digits that do not begin with one. -/
def isWhole (digits : List Char) : Bool :=
  match digits with
  | [] => false
  | ['0'] => true
  | d :: _ => d != '0'

def isFraction : List Char → Bool
  | [] => true
  | '.' :: cs =>
    let (digits, rest) := splitDigits cs
    !digits.isEmpty && isExponent rest
  | cs => isExponent cs
where
  isExponent : List Char → Bool
    | [] => true
    | e :: cs =>
      let digits := match cs with
        | '+' :: ds | '-' :: ds => ds
        | ds => ds
      (e == 'e' || e == 'E') && !digits.isEmpty && digits.all Char.isDigit

/-- The value of decimal digits. -/
def digitsValue (digits : List Char) : Nat :=
  digits.foldl (fun n d => n * 10 + (d.toNat - '0'.toNat)) 0

/-- The number that a literal stands for, if it is written as one. -/
def number? (literal : String) : Option Json :=
  let (negative, cs) := match literal.toList with
    | '-' :: cs => (true, cs)
    | cs => (false, cs)
  let (digits, rest) := splitDigits cs
  if !isWhole digits || !isFraction rest then none
  else if rest.isEmpty && !(negative && digits == ['0']) then
    let value : Int := digitsValue digits
    some (.int (if negative then -value else value))
  else some (.real literal)

def word? : String → Option Json
  | "null" => some .null
  | "true" => some (.bool true)
  | "false" => some (.bool false)
  | _ => none

/-! ### Values -/

/-- A container that is being read: what it holds so far, the latest first. -/
inductive Frame where
  | array (items : List Json)
  | object (members : List (String × Json)) (key : String)

/-- What may come next. -/
inductive Expect where
  /-- A value, or the end of an array that has none. -/
  | first
  | value
  /-- A key, or the end of an object that has none. -/
  | firstKey
  | key (members : List (String × Json))
  | colon (members : List (String × Json)) (key : String)
  /-- A value was completed. -/
  | complete (value : Json)

/-- The value that a lexeme is by itself. -/
def scalar? : Token → Option Json
  | .word text => word? text
  | .number literal => number? literal
  | .string (some text) => some (.string text)
  | .string none => some .brokenString
  | _ => none

def readValue (open? : List Frame) (t : Token) : Option (List Frame × Expect) :=
  match t with
  | .openArray => some (.array [] :: open?, .first)
  | .openObject => some (open?, .firstKey)
  | t => (scalar? t).map fun v => (open?, .complete v)

def readKey (frames : List Frame) (members : List (String × Json)) (t : Token) :
    Option (List Frame × Expect) :=
  match t with
  | .string (some key) => some (frames, .colon members key)
  | _ => none

/-- One lexeme. None if it cannot come next. -/
def step (frames : List Frame) (e : Expect) (t : Token) : Option (List Frame × Expect) :=
  match e with
  | .value => readValue frames t
  | .first =>
    match t, frames with
    | .closeArray, .array _ :: outer => some (outer, .complete (.array []))
    | t, frames => readValue frames t
  | .firstKey =>
    match t with
    | .closeObject => some (frames, .complete (.object []))
    | t => readKey frames [] t
  | .key members => readKey frames members t
  | .colon members key =>
    match t with
    | .colon => some (.object members key :: frames, .value)
    | _ => none
  | .complete v =>
    match t, frames with
    | .comma, .array items :: outer => some (.array (v :: items) :: outer, .value)
    | .closeArray, .array items :: outer => some (outer, .complete (.array (v :: items).reverse))
    | .comma, .object members key :: outer => some (outer, .key ((key, v) :: members))
    | .closeObject, .object members key :: outer =>
      some (outer, .complete (.object ((key, v) :: members).reverse))
    | _, _ => none

def run (frames : List Frame) (e : Expect) : List Token → Option Json
  | [] =>
    match frames, e with
    | [], .complete v => some v
    | _, _ => none
  | t :: ts =>
    match step frames e t with
    | none => none
    | some (frames, e) => run frames e ts

/-- The value of a JSON text, which holds nothing else but blanks. -/
def parse? (text : String) : Option Json := (tokens? text).bind (run [] .value)

end ArityCheck.Json
