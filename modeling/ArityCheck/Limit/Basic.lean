import ArityCheck.SortedMap

/-! Limits on counts, and how they are looked up.

The limits of a rule are given by key. The key `global` is the limit of everything that has none
of its own, and a negative limit turns the check off. A key counts as configured when it is
present, so a limit of zero is enforced. -/

namespace ArityCheck

/-- The largest limit that can be enforced. -/
def Limit.ceiling : Nat := 4294967295

inductive Limit where
  | unbounded
  | max (value : Nat)
deriving DecidableEq, Repr

namespace Limit

/-- The limit that a configured number stands for. A number below zero or above what can be
enforced stands for none. -/
def ofInt (n : Int) : Limit :=
  match n with
  | .ofNat v => if v ≤ ceiling then .max v else .unbounded
  | .negSucc _ => .unbounded

/-- The limit, if the count is above it. -/
def exceededBy (limit : Limit) (count : Nat) : Option Nat :=
  match limit with
  | .unbounded => none
  | .max v => if v < count then some v else none

end Limit

/-- Configured limits by key. -/
abbrev Limits := SortedMap Int

namespace Limits

def globalKey : String := "global"

/-- The number that applies to a key: its own, or else the global one. An empty key never has
one of its own. -/
def select? (limits : Limits) (key : String) : Option Int :=
  (if key = "" then none else limits.get? key).or (limits.get? globalKey)

/-- The limit that applies to a key. -/
def resolve (limits : Limits) (key : String) : Limit :=
  match limits.select? key with
  | none => .unbounded
  | some n => .ofInt n

end Limits

end ArityCheck
