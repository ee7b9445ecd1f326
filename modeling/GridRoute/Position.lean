import GridRoute.Offset

/-!
Positions on the map, and the compass heading from one to another.
-/

namespace GridRoute

structure Position where
  x : Int
  y : Int
deriving DecidableEq, Repr

namespace Position

def text (p : Position) : String := "[" ++ toString p.x ++ ", " ++ toString p.y ++ "]"

instance : Ord Position := ⟨fun a b => (compare a.x b.x).then (compare a.y b.y)⟩

def step (p : Position) (d : Direction) : Except Fault Position := do
  let x ← Bounded.add p.x d.delta.1
  let y ← Bounded.add p.y d.delta.2
  return ⟨x, y⟩

def shift (p : Position) (o : Offset) : Except Fault Position := do
  let x ← Bounded.add p.x o.x
  let y ← Bounded.add p.y o.y
  return ⟨x, y⟩

/-- The displacement from `origin` to the position. -/
def offsetFrom (p origin : Position) : Except Fault Offset := do
  let x ← Bounded.sub p.x origin.x
  let y ← Bounded.sub p.y origin.y
  return ⟨x, y⟩

def distanceSquared (p q : Position) : Except Fault Nat :=
  Bounded.squareSum 18446744073709551616 (q.x - p.x).natAbs (q.y - p.y).natAbs

/-- The sign of `along`, unless `across` is so much larger that the heading lies within an eighth of a
right turn of the other axis; 414214 millionths stand for the tangent of 22.5 degrees. -/
def axisStep (along across : Int) : Int :=
  if along.natAbs * 1000000 ≤ across.natAbs * 414214 then 0 else along.sign

/-- The compass direction towards the other position, rounded to the nearest; never away from it. -/
def headingTo (p q : Position) : Direction :=
  let dx := q.x - p.x
  let dy := q.y - p.y
  (Direction.ofDelta? (axisStep dx dy) (axisStep dy dx)).getD .center

end Position

end GridRoute
