import ArityCheck.Toml.Value

/-! Numbers, dates and the few words among TOML values.

Such a value is a run of letters, digits and signs, which has to be one of these as a whole. A
date may also be parted from its time by a blank. -/

namespace ArityCheck.Toml

/-! ### Digits -/

def digitValue? (c : Char) : Option Nat :=
  if c.isDigit then some (c.toNat - '0'.toNat)
  else if 'a' ≤ c && c ≤ 'f' then some (c.toNat - 'a'.toNat + 10)
  else if 'A' ≤ c && c ≤ 'F' then some (c.toNat - 'A'.toNat + 10)
  else none

/-- A digit of a base. -/
def digit? (base : Nat) (c : Char) : Option Nat := (digitValue? c).filter (· < base)

/-- The digits of a number, the latest first. An underscore may stand between two of them. -/
def digits? (base : Nat) (seen : List Nat) : List Char → Option (List Nat)
  | [] => if seen.isEmpty then none else some seen
  | '_' :: c :: cs =>
    if seen.isEmpty then none else (digit? base c).bind fun d => digits? base (d :: seen) cs
  | c :: cs => (digit? base c).bind fun d => digits? base (d :: seen) cs

def valueOf (base : Nat) (digits : List Nat) : Nat := digits.foldr (fun d n => n * base + d) 0

/-- The value of a run of digits, and how many they are. -/
def digitRun? (base : Nat) (cs : List Char) : Option (Nat × Nat) :=
  (digits? base [] cs).map fun ds => (valueOf base ds, ds.length)

/-- Decimal digits without a leading zero. -/
def plainRun? (cs : List Char) : Option (Nat × Nat) :=
  match cs with
  | '0' :: _ :: _ => none
  | cs => digitRun? 10 cs

/-- Splits off a sign. -/
def sign (cs : List Char) : Bool × List Char :=
  match cs with
  | '-' :: cs => (true, cs)
  | '+' :: cs => (false, cs)
  | cs => (false, cs)

/-! ### Integers -/

def leastInteger : Int := -9223372036854775808

def greatestInteger : Int := 9223372036854775807

def integer? (cs : List Char) : Option Int :=
  let value? : Option Int :=
    match cs with
    | '0' :: 'x' :: cs => (digitRun? 16 cs).map (·.1)
    | '0' :: 'o' :: cs => (digitRun? 8 cs).map (·.1)
    | '0' :: 'b' :: cs => (digitRun? 2 cs).map (·.1)
    | cs =>
      let (negative, cs) := sign cs
      (plainRun? cs).map fun (n, _) => if negative then -(n : Int) else n
  value?.filter fun n => leastInteger ≤ n && n ≤ greatestInteger

/-! ### Floating-point numbers -/

/-- The digits before and after the point, and the exponent. -/
def float? (cs : List Char) : Option Double := do
  let (negative, cs) := sign cs
  let isMark (c : Char) : Bool := c == 'e' || c == 'E'
  let (body, mark) := cs.span (!isMark ·)
  let (whole, point) := body.span (· != '.')
  if mark.isEmpty && point.isEmpty then none
  let (n, _) ← plainRun? whole
  let (fraction, places) ← match point with
    | [] => some (0, 0)
    | _ :: ds => digitRun? 10 ds
  let exponent : Int ← match mark with
    | [] => some 0
    | _ :: ds =>
      let (down, ds) := sign ds
      (digitRun? 10 ds).map fun (e, _) => if down then -(e : Int) else e
  let digits := n * Nat.pow 10 places + fraction
  let value := Double.ofDecimal negative digits (toString digits).length (exponent - places)
  -- A number that is too large is refused; one too far below zero is not.
  if value = .infinite false then none else some value

def special? (cs : List Char) : Option Double :=
  let (negative, word) := sign cs
  if word = ['i', 'n', 'f'] then some (.infinite negative)
  else if word = ['n', 'a', 'n'] then some .nan
  else none

/-! ### Dates and times -/

/-- A number of exactly two digits within bounds. -/
def twoDigits? (least greatest : Nat) (a b : Char) : Option Nat :=
  if a.isDigit && b.isDigit then
    let n := (a.toNat - '0'.toNat) * 10 + (b.toNat - '0'.toNat)
    if least ≤ n && n ≤ greatest then some n else none
  else none

def daysIn (year month : Nat) : Nat :=
  let isLeap := year % 4 == 0 && (year % 100 != 0 || year % 400 == 0)
  match month with
  | 2 => if isLeap then 29 else 28
  | 4 | 6 | 9 | 11 => 30
  | _ => 31

/-- Splits off a date. -/
def date? : List Char → Option (String × List Char)
  | y₁ :: y₂ :: y₃ :: y₄ :: '-' :: m₁ :: m₂ :: '-' :: d₁ :: d₂ :: rest => do
    let century ← twoDigits? 0 99 y₁ y₂
    let year ← twoDigits? 0 99 y₃ y₄
    let month ← twoDigits? 1 12 m₁ m₂
    let _ ← twoDigits? 1 (daysIn (century * 100 + year) month) d₁ d₂
    return (String.ofList [y₁, y₂, y₃, y₄, '-', m₁, m₂, '-', d₁, d₂], rest)
  | _ => none

/-- The fraction of a second, of which nine digits are kept and no trailing zeros. -/
def fractionText (digits : List Char) : String :=
  let kept := ((digits.take 9).reverse.dropWhile (· == '0')).reverse
  if kept.isEmpty then "" else "." ++ String.ofList kept

/-- Splits off a time. -/
def time? : List Char → Option (String × List Char)
  | h₁ :: h₂ :: ':' :: m₁ :: m₂ :: ':' :: s₁ :: s₂ :: rest => do
    let _ ← twoDigits? 0 23 h₁ h₂
    let _ ← twoDigits? 0 59 m₁ m₂
    let _ ← twoDigits? 0 60 s₁ s₂
    let clock := String.ofList [h₁, h₂, ':', m₁, m₂, ':', s₁, s₂]
    match rest with
    | '.' :: cs =>
      let (digits, rest) := cs.span Char.isDigit
      if digits.isEmpty then none else some (clock ++ fractionText digits, rest)
    | rest => some (clock, rest)
  | _ => none

/-- How far the time is from that of the prime meridian. Nothing at all is east. -/
def offset? : List Char → Option String
  | ['Z'] | ['z'] => some "Z"
  | [way, h₁, h₂, ':', m₁, m₂] => do
    if way != '+' && way != '-' then none
    let hours ← twoDigits? 0 23 h₁ h₂
    let minutes ← twoDigits? 0 59 m₁ m₂
    let way := if hours == 0 && minutes == 0 then '+' else way
    return String.ofList [way, h₁, h₂, ':', m₁, m₂]
  | _ => none

/-- A time that follows a date, with its offset if there is one. -/
def timeAfterDate? (date : String) (cs : List Char) : Option String := do
  let (time, rest) ← time? cs
  let offset ← if rest.isEmpty then some "" else offset? rest
  return date ++ "T" ++ time ++ offset

def datetime? (cs : List Char) : Option String :=
  match date? cs with
  | some (date, []) => some date
  | some (date, mark :: rest) =>
    if mark == 'T' || mark == 't' || mark == ' ' then timeAfterDate? date rest else none
  | none =>
    match time? cs with
    | some (time, []) => some time
    | _ => none

/-! ### All of them -/

/-- The value of a run of letters, digits and signs. -/
def scalar? (cs : List Char) : Option Value :=
  if cs = ['t', 'r', 'u', 'e'] then some (.boolean true)
  else if cs = ['f', 'a', 'l', 's', 'e'] then some (.boolean false)
  else
    ((datetime? cs).map Value.datetime).or <| ((integer? cs).map Value.integer).or <|
      ((float? cs).or (special? cs)).map Value.float

def isScalarChar (c : Char) : Bool :=
  c.isAlphanum || c == '+' || c == '-' || c == '_' || c == '.' || c == ':'

/-- Reads a value that is neither quoted nor in brackets. -/
def readScalar (cs : List Char) : Option (Value × List Char) :=
  let (run, rest) := cs.span isScalarChar
  match rest with
  | ' ' :: c :: after =>
    -- Only a time can begin with a digit here.
    if c.isDigit then
      let (time, rest) := (c :: after).span isScalarChar
      (scalar? (run ++ ' ' :: time)).map (·, rest)
    else (scalar? run).map (·, rest)
  | rest => (scalar? run).map (·, rest)

end ArityCheck.Toml
