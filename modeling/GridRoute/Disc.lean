import GridRoute.Window

/-!
Discs: all cells within a squared distance, nearest first.
-/

namespace GridRoute

namespace Offset

/-- Nearer to the origin, or as near and farther west, or as near in the same column and no farther
north. -/
def NoLater (a b : Offset) : Prop :=
  a.norm < b.norm ∨ a.norm = b.norm ∧ (a.x < b.x ∨ a.x = b.x ∧ a.y ≤ b.y)

instance (a b : Offset) : Decidable (NoLater a b) := inferInstanceAs (Decidable (_ ∨ _))

theorem NoLater.trans {a b c : Offset} (hab : a.NoLater b) (hbc : b.NoLater c) : a.NoLater c := by
  unfold NoLater at *
  omega

theorem NoLater.total (a b : Offset) : a.NoLater b ∨ b.NoLater a := by
  unfold NoLater
  omega

theorem NoLater.antisymm {a b : Offset} (hab : a.NoLater b) (hba : b.NoLater a) : a = b := by
  cases a
  cases b
  simp only [NoLater, Offset.mk.injEq] at *
  omega

def square (reach : Nat) : List Offset :=
  (List.range (2 * reach + 1)).flatMap fun (column : Nat) =>
    (List.range (2 * reach + 1)).map fun (row : Nat) => ⟨column - reach, row - reach⟩

theorem mem_square {reach : Nat} {o : Offset} :
    o ∈ square reach ↔ o.x.natAbs ≤ reach ∧ o.y.natAbs ≤ reach := by
  cases o with
  | mk x y =>
    simp only [square, List.mem_flatMap, List.mem_map, List.mem_range, Offset.mk.injEq]
    constructor
    · rintro ⟨column, hcolumn, row, hrow, rfl, rfl⟩
      omega
    · intro h
      exact ⟨(x + reach).toNat, by omega, (y + reach).toNat, by omega, by omega, by omega⟩

/-- The offsets with a squared distance from 1 to `radius`. The corner of the square they are picked
from is farther out than all of it, so its squared distance is the one that has to fit. -/
def disc (radius : Nat) : Except Fault (List Offset) := do
  let reach := ceilSqrt radius
  let _ ← squaredDistance ⟨reach, reach⟩
  let inside := (square reach).filter fun o => 1 ≤ o.norm ∧ o.norm ≤ radius
  return inside.mergeSort fun a b => a.NoLater b

end Offset

def Window.ofRadius (radius : Nat) : Except CompileError Window := do
  Window.ofOffsets radius (← Offset.disc radius)

end GridRoute
