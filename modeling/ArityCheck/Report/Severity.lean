/-! How serious a violation is. -/

namespace ArityCheck

inductive Severity where
  | info
  | warning
  | error
deriving DecidableEq, Repr

namespace Severity

def rank : Severity → Nat
  | .info => 0
  | .warning => 1
  | .error => 2

/-- The order in which an error is the highest. -/
def order (a b : Severity) : Ordering := compare a.rank b.rank

def isAtLeast (s threshold : Severity) : Bool := threshold.rank ≤ s.rank

def name : Severity → String
  | .info => "info"
  | .warning => "warning"
  | .error => "error"

def ofName? : String → Option Severity
  | "info" => some .info
  | "warning" => some .warning
  | "error" => some .error
  | _ => none

end Severity

end ArityCheck
