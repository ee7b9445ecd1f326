import GridRoute.Fault

/-!
Bounded arithmetic. Coordinates are signed numbers of 32 bits and squared distances unsigned ones; a
result that does not fit is a fault and never a wrong number. Costs and counts alone stop at the ends
of their range.
-/

namespace GridRoute.Bounded

def lowest : Int := -2147483648
def highest : Int := 2147483647

def Fits (n : Int) : Prop := lowest ≤ n ∧ n ≤ highest

instance (n : Int) : Decidable (Fits n) := inferInstanceAs (Decidable (_ ∧ _))

theorem fits_iff {n : Int} : Fits n ↔ -2147483648 ≤ n ∧ n ≤ 2147483647 := Iff.rfl

def add (a b : Int) : Except Fault Int :=
  if Fits (a + b) then .ok (a + b) else .error .addOverflow

def sub (a b : Int) : Except Fault Int :=
  if Fits (a - b) then .ok (a - b) else .error .subOverflow

theorem add_of_fits {a b : Int} (h : Fits (a + b)) : add a b = .ok (a + b) := if_pos h

theorem sub_of_fits {a b : Int} (h : Fits (a - b)) : sub a b = .ok (a - b) := if_pos h

theorem sub_eq_ok_iff {a b c : Int} : sub a b = .ok c ↔ Fits c ∧ c = a - b := by
  unfold sub
  split <;> simp only [Except.ok.injEq, reduceCtorEq, false_iff] <;> grind

def saturatingAdd (a b : Int) : Int := max lowest (min highest (a + b))

theorem saturatingAdd_of_fits {a b : Int} (h : Fits (a + b)) : saturatingAdd a b = a + b := by
  unfold saturatingAdd
  have := fits_iff.mp h
  simp only [lowest, highest]
  omega

theorem fits_saturatingAdd (a b : Int) : Fits (saturatingAdd a b) := by
  unfold saturatingAdd Fits lowest highest
  omega

def countLimit : Nat := 18446744073709551615

def countAdd (a b : Nat) : Nat := min countLimit (a + b)

def countMul (a b : Nat) : Nat := min countLimit (a * b)

/-- Sum of two squares in unsigned numbers below `limit`: both squares are taken before their sum. -/
def squareSum (limit x y : Nat) : Except Fault Nat :=
  if limit ≤ x * x ∨ limit ≤ y * y then .error .mulOverflow
  else if limit ≤ x * x + y * y then .error .addOverflow
  else .ok (x * x + y * y)

theorem squareSum_eq_ok_iff {limit x y n : Nat} :
    squareSum limit x y = .ok n ↔ n < limit ∧ n = x * x + y * y := by
  unfold squareSum
  split
  · simp only [reduceCtorEq, false_iff]
    omega
  · split
    · simp only [reduceCtorEq, false_iff]
      omega
    · simp only [Except.ok.injEq]
      omega

end GridRoute.Bounded
