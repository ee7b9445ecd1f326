import GridRoute.Window
import GridRoute.Schedule

/-!
The schedule of a window. Every cell is placed from, and first relaxed against, cells nearer to the
origin, which come before it.
-/

namespace GridRoute

/-- The offset that the offset is placed from: the origin for a seed, and otherwise the first neighbour
nearer to the origin. -/
def Offset.anchor (o : Offset) : Except CompileError Offset := do
  if ← o.isSeed then return Offset.origin
  match ← o.firstCloser (← o.squaredDistance) Direction.scanOrder with
  | some neighbor => return neighbor
  | none => throw (.noCloserNeighbor o)

namespace Window

def placement (w : Window) (o : Offset) (cell : Nat) : Except CompileError Placement := do
  let anchor ← o.anchor
  match ← anchor.directionTo o with
  | none => throw (.noCloserNeighbor o)
  | some step =>
    if anchor.isOrigin then return ⟨cell, .origin, step⟩
    let anchorCell ← w.require anchor
    if cell ≤ anchorCell then throw (.anchorNotPlaced o anchor)
    return ⟨cell, .cell anchorCell, step⟩

def placements (w : Window) : Except CompileError (List Placement) :=
  w.cells.mapM fun (o, cell) => w.placement o cell

/-- The cells of those neighbours, in the given directions, that are accepted. Each of them has to be
in the window. -/
def sources (w : Window) (o : Offset) (accept : Offset → Except Fault Bool) :
    List Direction → Except CompileError (List Nat)
  | [] => .ok []
  | d :: rest => do
    let neighbor ← o.step d
    if ← accept neighbor then
      let source ← w.require neighbor
      return source :: (← w.sources o accept rest)
    else
      w.sources o accept rest

def initialStep (w : Window) (o : Offset) (cell : Nat) : Except CompileError InitialStep := do
  if ← o.isSeed then
    match ← o.directionTo Offset.origin with
    | some towardOrigin => return .seed cell towardOrigin
    | none => throw (.noCloserNeighbor o)
  else
    let distance ← o.squaredDistance
    let nearer (neighbor : Offset) : Except Fault Bool := do
      return (← neighbor.squaredDistance) < distance
    let sources ← w.sources o nearer Direction.scanOrder
    if sources.isEmpty then throw (.noCloserNeighbor o)
    return .relax ⟨cell, sources⟩

def initialSteps (w : Window) : Except CompileError (List InitialStep) :=
  w.cells.mapM fun (o, cell) => w.initialStep o cell

/-- A round leaves seeds out on both sides: their routes are final, and the first pass has offered
them to every cell that touches them. A cell without sources has no relaxation. -/
def extraRelaxation? (w : Window) (o : Offset) (cell : Nat) :
    Except CompileError (Option Relaxation) := do
  if ← o.isSeed then return none
  let inReach (neighbor : Offset) : Except Fault Bool := do
    if ← neighbor.isSeed then return false
    return (← neighbor.squaredDistance) ≤ w.radius
  let sources ← w.sources o inReach Direction.scanOrder
  return if sources.isEmpty then none else some ⟨cell, sources⟩

def extraRound (w : Window) : Except CompileError (List Relaxation) := do
  return (← w.cells.mapM fun (o, cell) => w.extraRelaxation? o cell).filterMap id

def schedule (w : Window) : Except CompileError Schedule := do
  let placements ← w.placements
  let initialSteps ← w.initialSteps
  let extraRound ← w.extraRound
  return ⟨placements, initialSteps, extraRound⟩

end Window

end GridRoute
