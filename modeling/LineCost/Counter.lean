import LineCost.Text.Number

/-!
Counters with a limit. Where two of them are added, there must be a counter for the sum, or else
the program comes to nothing: it stops there, or goes on with a counter that has begun anew.
-/

namespace LineCost

/-- An addition whose sum is beyond the largest counter. -/
structure Overflow where
  left : Nat
  right : Nat
  deriving DecidableEq, Repr

/-- Adds two counters, unless there is no counter for the sum. -/
def checkedAdd (a b : Nat) : Except Overflow Nat :=
  if a + b ≤ Text.counterLimit then .ok (a + b) else .error ⟨a, b⟩

end LineCost
