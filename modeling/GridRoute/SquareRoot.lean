/-!
Integer square roots, rounded down and up.
-/

namespace GridRoute

/-- The largest number whose square is at most `n`: twice the root of a quarter, or one more. -/
def floorSqrt (n : Nat) : Nat :=
  if n = 0 then 0
  else
    let root := 2 * floorSqrt (n / 4)
    if (root + 1) * (root + 1) ≤ n then root + 1 else root
termination_by n

theorem floorSqrt_bounds (n : Nat) :
    floorSqrt n * floorSqrt n ≤ n ∧ n < (floorSqrt n + 1) * (floorSqrt n + 1) := by
  induction n using Nat.strongRecOn with
  | ind n ih =>
    rw [floorSqrt]
    split
    · omega
    · have quarter := ih (n / 4) (by omega)
      generalize floorSqrt (n / 4) = root at quarter
      have upper : (2 * root + 1 + 1) * (2 * root + 1 + 1) = 4 * ((root + 1) * (root + 1)) := by grind
      have lower : 2 * root * (2 * root) = 4 * (root * root) := by grind
      dsimp only
      split <;> omega

def ceilSqrt (n : Nat) : Nat :=
  let root := floorSqrt n
  if root * root < n then root + 1 else root

theorem le_ceilSqrt_sq (n : Nat) : n ≤ ceilSqrt n * ceilSqrt n := by
  have := floorSqrt_bounds n
  unfold ceilSqrt
  dsimp only
  split <;> omega

theorem le_ceilSqrt_of_sq_le {n k : Nat} (h : k * k ≤ n) : k ≤ ceilSqrt n := by
  have := le_ceilSqrt_sq n
  by_cases hk : k ≤ ceilSqrt n
  · exact hk
  · have : (ceilSqrt n + 1) * (ceilSqrt n + 1) ≤ k * k :=
      Nat.mul_le_mul (by omega) (by omega)
    have : (ceilSqrt n + 1) * (ceilSqrt n + 1) = ceilSqrt n * ceilSqrt n + 2 * ceilSqrt n + 1 := by
      grind
    omega

end GridRoute
