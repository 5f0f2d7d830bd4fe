import Mathlib.Tactic

/-- A wait that doubles after every failure, up to a limit. -/
structure Backoff where
  first : Nat
  limit : Nat

namespace Backoff

variable (policy : Backoff)

/-- The wait after a failure with so many failures before it. -/
def wait (failures : Nat) : Nat := min (policy.first * 2 ^ failures) policy.limit

def grown (delay : Nat) : Nat := min (delay * 2) policy.limit

theorem wait_zero (within : policy.first ≤ policy.limit) : policy.wait 0 = policy.first := by
  rw [wait, pow_zero, mul_one]
  exact min_eq_left within

theorem wait_le (failures : Nat) : policy.wait failures ≤ policy.limit := min_le_right _ _

/-- A wait that is let grow is the wait after one more failure. -/
theorem grown_wait (failures : Nat) : policy.grown (policy.wait failures) = policy.wait (failures + 1) := by
  unfold grown wait
  rw [pow_succ, ← mul_assoc]
  rcases le_total (policy.first * 2 ^ failures) policy.limit with below | above
  · rw [min_eq_left below]
  · rw [min_eq_right above, min_eq_right (by omega), min_eq_right (by omega)]

end Backoff
