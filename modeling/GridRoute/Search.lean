import GridRoute.Pathfinder
import GridRoute.Estimate
import GridRoute.Board

/-!
Running a route program: place the cells around the agent, sense them, relax them, and look the target
up. A target out of sight is first pulled into the window.
-/

namespace GridRoute

inductive SearchError where
  | targetOutsideWindow (dx dy : Int)
  | fault (cause : Fault)
deriving DecidableEq, Repr

def SearchError.message : SearchError → String
  | .targetOutsideWindow dx dy =>
    "target offset (" ++ toString dx ++ "," ++ toString dy ++ ") lies outside the visibility window"
  | .fault cause => cause.message

instance : MonadLift (Except Fault) (Except SearchError) := ⟨Except.mapError .fault⟩

@[simp] theorem SearchError.lift_ok {α : Type} (a : α) :
    (liftM (Except.ok a : Except Fault α) : Except SearchError α) = .ok a := rfl

/-- Puts a cell one step from its anchor, among cells that start out at the origin. -/
def Placement.place (origin : Position) (positions : Array Position) (p : Placement) :
    Except Fault (Array Position) := do
  let anchor ← match p.anchor with
    | .origin => pure origin
    | .cell index =>
      match positions[index]? with
      | some position => pure position
      | none => throw (.indexOutOfBounds positions.size index)
  let position ← anchor.step p.step
  if p.cell < positions.size then return positions.setIfInBounds p.cell position
  throw (.indexOutOfBounds positions.size p.cell)

namespace Pathfinder

def positions (p : Pathfinder) (origin : Position) : Except Fault (Array Position) :=
  p.schedule.placements.foldlM (Placement.place origin) (Array.replicate p.window.size origin)

/-- The estimates before the first extra round. -/
def firstPass (p : Pathfinder) (terrain : Terrain) : Except Fault Estimates := do
  let positions ← p.positions terrain.agent
  p.schedule.initialSteps.foldlM Estimates.initialStep ⟨positions.map terrain.sense⟩

def estimates (p : Pathfinder) (terrain : Terrain) (rounds : Nat) : Except Fault Estimates := do
  Estimates.rounds p.schedule.extraRound rounds (← p.firstPass terrain)

/-- Walks on from `next` towards a target, for a number of steps, and returns the last place in sight
of the origin, or `safe` if none is. -/
def pull (p : Pathfinder) (origin target : Position) :
    Nat → Position → Position → Except Fault Position
  | 0, safe, _ => .ok safe
  | steps + 1, safe, next => do
    if (← origin.distanceSquared next) ≤ p.radius.value then
      p.pull origin target steps next (← next.step (next.headingTo target))
    else
      return safe

def clampTarget (p : Pathfinder) (origin target : Position) : Except Fault Position := do
  if (← origin.distanceSquared target) ≤ p.radius.value then return target
  let next ← origin.step (origin.headingTo target)
  p.pull origin target p.clampSteps next next

/-- The move that brings the agent nearer to a target: none on the target itself, and none if no route
is known. -/
def moveTowards (p : Pathfinder) (terrain : Terrain) (target : Position) (rounds : Nat) :
    Except SearchError Direction := do
  let origin := terrain.agent
  if origin = target then return .center
  let target ← p.clampTarget origin target
  let estimates ← p.estimates terrain rounds
  let offset ← target.offsetFrom origin
  match p.table.lookup offset.x offset.y with
  | some cell => return (estimates.best cell).opposite
  | none => throw (.targetOutsideWindow offset.x offset.y)

end Pathfinder

end GridRoute
