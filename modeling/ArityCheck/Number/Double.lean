/-! Binary floating-point numbers of double precision, read from decimals and written with the
fewest digits that read back.

Everything is done in whole numbers. A finite number is a mantissa times a power of two, and the
decimals that round to it are those between the halfway points to its neighbours, these included
if the mantissa is even. -/

namespace ArityCheck

inductive Double where
  | nan
  | infinite (negative : Bool)
  /-- The number `mantissa * 2 ^ exponent`. -/
  | finite (negative : Bool) (mantissa : Nat) (exponent : Int)
deriving DecidableEq, Repr

namespace Double

/-- The exponent of the smallest numbers. -/
def leastExponent : Int := -1074

/-- The exponent of the largest numbers. -/
def greatestExponent : Int := 971

/-- A quotient of natural numbers. -/
structure Ratio where
  num : Nat
  den : Nat

namespace Ratio

/-- The ratio times a power of `base`. -/
def scale (r : Ratio) (base : Nat) (exponent : Int) : Ratio :=
  match exponent with
  | .ofNat n => ⟨r.num * base.pow n, r.den⟩
  | .negSucc n => ⟨r.num, r.den * base.pow (n + 1)⟩

def lt (a b : Ratio) : Bool := a.num * b.den < b.num * a.den

def le (a b : Ratio) : Bool := a.num * b.den ≤ b.num * a.den

/-- The nearest whole number. A half goes to the even one. -/
def round (r : Ratio) : Nat :=
  let quotient := r.num / r.den
  let rest := r.num % r.den
  if 2 * rest < r.den || (2 * rest == r.den && quotient % 2 == 0) then quotient else quotient + 1

end Ratio

/-! ### Reading -/

/-- The number nearest to a ratio. -/
def ofRatio (negative : Bool) (r : Ratio) : Double :=
  if r.num = 0 then .finite negative 0 leastExponent
  else
    let guess : Int := (r.num.log2 : Int) - r.den.log2 - 53
    let fitting := if (r.scale 2 (-guess)).lt ⟨Nat.pow 2 53, 1⟩ then guess else guess + 1
    let exponent := max fitting leastExponent
    let mantissa := (r.scale 2 (-exponent)).round
    let (mantissa, exponent) :=
      if mantissa = Nat.pow 2 53 then (Nat.pow 2 52, exponent + 1) else (mantissa, exponent)
    if greatestExponent < exponent then .infinite negative else .finite negative mantissa exponent

/-- The number nearest to `digits * 10 ^ exponent`, where `digits` has `count` digits. Exponents
far out of range are not worked out. -/
def ofDecimal (negative : Bool) (digits count : Nat) (exponent : Int) : Double :=
  if digits = 0 || exponent + count < -400 then .finite negative 0 leastExponent
  else if 400 < exponent then .infinite negative
  else ofRatio negative (Ratio.scale ⟨digits, 1⟩ 10 exponent)

/-! ### Writing -/

/-- The digits of a decimal and the power of ten of the last one. -/
structure Decimal where
  digits : Nat
  exponent : Int

def Decimal.ratio (d : Decimal) : Ratio := Ratio.scale ⟨d.digits, 1⟩ 10 d.exponent

/-- A decimal between the halfway points rounds to `mantissa * 2 ^ exponent`. -/
def readsBack (mantissa : Nat) (exponent : Int) (d : Decimal) : Bool :=
  let quarter (n : Nat) : Ratio := Ratio.scale ⟨n, 1⟩ 2 (exponent - 2)
  let low := quarter
    (if mantissa = Nat.pow 2 52 ∧ leastExponent < exponent then 4 * mantissa - 1 else 4 * mantissa - 2)
  let high := quarter (4 * mantissa + 2)
  if mantissa % 2 = 0 then low.le d.ratio && d.ratio.le high
  else low.lt d.ratio && d.ratio.lt high

/-- The least power of ten above a number. -/
def magnitude (r : Ratio) : Int :=
  let guess : Int := (((r.num.log2 : Int) - r.den.log2) * 30103) / 100000
  match [guess - 1, guess, guess + 1].find? fun k => r.lt (Ratio.scale ⟨1, 1⟩ 10 k) with
  | some k => k
  | none => guess + 2

/-- Of the two decimals with `count` digits next to the number, the nearer one that reads back,
the upper one if both are as near. -/
def withDigits? (mantissa : Nat) (exponent : Int) (count : Nat) : Option Decimal :=
  let value := Ratio.scale ⟨mantissa, 1⟩ 2 exponent
  let unit := magnitude value - count
  let grid := value.scale 10 (-unit)
  let below := grid.num / grid.den
  let down := readsBack mantissa exponent ⟨below, unit⟩
  let up := readsBack mantissa exponent ⟨below + 1, unit⟩
  let upNearer := grid.den ≤ 2 * (grid.num % grid.den)
  if up && (!down || upNearer) then some ⟨below + 1, unit⟩
  else if down then some ⟨below, unit⟩
  else none

/-- The shortest decimal that reads back, which never needs more than 17 digits. -/
def shortest (mantissa : Nat) (exponent : Int) : Decimal :=
  ((List.range 17).findSome? fun n => withDigits? mantissa exponent (n + 1)).getD
    ⟨mantissa, exponent⟩

/-- A decimal without an exponent, and with `.0` if it is whole. -/
def Decimal.positional (d : Decimal) : String :=
  let digits := (toString d.digits).toList
  match d.exponent with
  | .ofNat n => String.ofList (digits ++ List.replicate n '0') ++ ".0"
  | .negSucc n =>
    let places := n + 1
    let padded := List.replicate (places + 1 - digits.length) '0' ++ digits
    let whole := padded.take (padded.length - places)
    let fraction := ((padded.drop (padded.length - places)).reverse.dropWhile (· == '0')).reverse
    String.ofList whole ++ "." ++ (if fraction.isEmpty then "0" else String.ofList fraction)

def text : Double → String
  | .nan => "nan"
  | .infinite negative => if negative then "-inf" else "inf"
  | .finite negative mantissa exponent =>
    (if negative then "-" else "") ++
      (if mantissa = 0 then "0.0" else (shortest mantissa exponent).positional)

end Double

end ArityCheck
