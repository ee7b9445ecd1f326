import GridRoute.Bounded
import GridRoute.Direction

/-!
Offsets from the agent: their distance from it, their neighbours and the steps between them.
-/

namespace GridRoute

structure Offset where
  x : Int
  y : Int
deriving DecidableEq, Hashable, Repr

namespace Offset

def origin : Offset := ⟨0, 0⟩

/-- Seeds are the cells up to this squared distance: those that touch the origin. -/
abbrev seedDistance : Nat := 2

def text (o : Offset) : String := "(" ++ toString o.x ++ "," ++ toString o.y ++ ")"

/-- By column, in a column by row. -/
instance : Ord Offset := ⟨fun a b => (compare a.x b.x).then (compare a.y b.y)⟩

def norm (o : Offset) : Nat := o.x.natAbs * o.x.natAbs + o.y.natAbs * o.y.natAbs

/-- The squared distance to the origin, as far as it has 32 bits. -/
def squaredDistance (o : Offset) : Except Fault Nat :=
  Bounded.squareSum 4294967296 o.x.natAbs o.y.natAbs

theorem squaredDistance_eq_ok_iff {o : Offset} {n : Nat} :
    o.squaredDistance = .ok n ↔ n < 4294967296 ∧ n = o.norm :=
  Bounded.squareSum_eq_ok_iff

theorem squaredDistance_eq (o : Offset) (h : o.norm < 4294967296) :
    o.squaredDistance = .ok o.norm :=
  squaredDistance_eq_ok_iff.mpr ⟨h, rfl⟩

def chebyshev (o : Offset) : Nat := max o.x.natAbs o.y.natAbs

def isOrigin (o : Offset) : Bool := o == origin

def isSeed (o : Offset) : Except Fault Bool := do
  return (← o.squaredDistance) ≤ seedDistance

def step (o : Offset) (d : Direction) : Except Fault Offset := do
  let x ← Bounded.add o.x d.delta.1
  let y ← Bounded.add o.y d.delta.2
  return ⟨x, y⟩

def directionTo (o other : Offset) : Except Fault (Option Direction) := do
  let dx ← Bounded.sub other.x o.x
  let dy ← Bounded.sub other.y o.y
  return Direction.ofDelta? dx dy

def neighbors (o : Offset) : Except Fault (List Offset) :=
  Direction.scanOrder.mapM o.step

/-- The first neighbour, among those in the given directions, with a squared distance below `limit`.
Later neighbours are not looked at. -/
def firstCloser (o : Offset) (limit : Nat) : List Direction → Except Fault (Option Offset)
  | [] => .ok none
  | d :: rest => do
    let neighbor ← o.step d
    if (← neighbor.squaredDistance) < limit then return some neighbor
    o.firstCloser limit rest

end Offset

end GridRoute
