import ArityCheck.Report.Violation

/-! The report of a check: the violations found, and how many files were looked at. -/

namespace ArityCheck

structure Report where
  violations : List Violation
  filesChecked : Nat
deriving DecidableEq, Repr

namespace Report

def empty : Report := ⟨[], 0⟩

def push (r : Report) (v : Violation) : Report := { r with violations := r.violations ++ [v] }

/-- The violations in their order. Those at the same place stay as they were. -/
def sort (r : Report) : Report :=
  { r with violations := r.violations.mergeSort fun a b => (a.order b).isLE }

def countAt (r : Report) (s : Severity) : Nat := r.violations.countP (·.severity == s)

/-- Some violation is at least as serious as `threshold`. -/
def hasAtLeast (r : Report) (threshold : Severity) : Bool :=
  r.violations.any (·.severity.isAtLeast threshold)

def hasErrors (r : Report) : Bool := r.hasAtLeast .error

end Report

end ArityCheck
