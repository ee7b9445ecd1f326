import GridRoute.CompileError
import GridRoute.SquareRoot

/-!
Squared vision radii that can be compiled. `ofNat_eq_ok_iff`: a radius is read from its own number alone.
-/

namespace GridRoute

/-- A squared vision radius that can be compiled. At the minimum the window holds all eight
neighbours of the origin, so that a target pulled towards the agent never misses it. -/
structure Radius where
  value : Nat
  minimum_le : Offset.seedDistance ≤ value
  le_maximum : value ≤ 4096
deriving DecidableEq

namespace Radius

abbrev minimum : Nat := Offset.seedDistance
abbrev maximum : Nat := 4096

def ofNat (n : Nat) : Except CompileError Radius :=
  if n = 0 then .error (.emptyWindow n)
  else if low : n < minimum then .error (.radiusTooSmall n minimum)
  else if high : maximum < n then .error (.radiusTooLarge n maximum)
  else .ok ⟨n, Nat.le_of_not_lt low, Nat.le_of_not_lt high⟩

theorem ofNat_value (r : Radius) : ofNat r.value = .ok r := by
  unfold ofNat
  rw [if_neg (Nat.ne_of_gt (Nat.lt_of_lt_of_le (by decide) r.minimum_le)),
    dif_neg (Nat.not_lt.mpr r.minimum_le), dif_neg (Nat.not_lt.mpr r.le_maximum)]

theorem ofNat_eq_ok_iff {n : Nat} {r : Radius} : ofNat n = .ok r ↔ r.value = n := by
  constructor
  · unfold ofNat
    grind
  · rintro rfl
    exact ofNat_value r

def text (r : Radius) : String := toString r.value ++ " r^2"

def contains (r : Radius) (o : Offset) : Except Fault Bool := do
  return (← o.squaredDistance) ≤ r.value

/-- Moves enough to walk out of the window: each move towards a target lengthens `|x| + |y|`, which
in the window is at most the root of twice the radius. -/
def clampSteps (r : Radius) : Nat := floorSqrt (2 * r.value) + 1

end Radius

end GridRoute
