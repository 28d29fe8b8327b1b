import ArityCheck.Config.Error
import ArityCheck.Limit.Basic
import ArityCheck.Toml.Printer

/-! The limits that the options of a rule give.

Every option has to be a limit: an integer that is at least minus one. Options are looked at in
the order of their keys, and the first that is wrong is reported. -/

namespace ArityCheck

open Toml (Value)

namespace Limits

/-- The least number that can be configured as a limit. -/
def least : Int := -1

/-- The limit that a value stands for. -/
def ofValue? : Value → Option Int
  | .integer n => if least ≤ n then some n else none
  | _ => none

/-- The key may be used; any key may if there is no list. -/
def isAllowed (allowed : Option (List String)) (key : String) : Bool :=
  match allowed with
  | none => true
  | some keys => keys.contains key

/-- The limit that one option gives. A key that is not allowed is reported before its value. -/
def ofOption (rule : String) (allowed : Option (List String)) (key : String) (v : Value) :
    Except ConfigError Int :=
  if isAllowed allowed key then
    match ofValue? v with
    | some n => .ok n
    | none => .error (.invalidLimit rule key v.text)
  else .error (.unknownOption rule key)

def ofOptions (rule : String) (allowed : Option (List String)) :
    List (String × Value) → Except ConfigError Limits
  | [] => .ok .empty
  | (key, v) :: options => do
    let n ← ofOption rule allowed key v
    let limits ← ofOptions rule allowed options
    return limits.insert key n

end Limits

end ArityCheck
