import GridRoute.Bounded
import GridRoute.Direction

/-!
Route programs. A schedule has three phases: it places every cell, makes a first pass over the cells
from the origin outwards, and repeats an extra round as often as the caller asks. Cells are named by
their place in a window.
-/

namespace GridRoute

/-- Where the unit step that places a cell starts. -/
inductive Anchor where
  | origin
  | cell (index : Nat)
deriving DecidableEq, Repr

structure Placement where
  cell : Nat
  anchor : Anchor
  step : Direction
deriving DecidableEq, Repr

/-- Offers a cell the routes of its sources, one after the other. A route is taken only when it is
strictly cheaper, and with it its first move: that move belongs to the whole route. -/
structure Relaxation where
  cell : Nat
  sources : List Nat
deriving DecidableEq, Repr

inductive InitialStep where
  /-- The cell touches the origin; its route is the one step between them. -/
  | seed (cell : Nat) (towardOrigin : Direction)
  | relax (relaxation : Relaxation)
deriving DecidableEq, Repr

namespace InitialStep

def cell : InitialStep → Nat
  | seed cell _ => cell
  | relax relaxation => relaxation.cell

def isSeed : InitialStep → Bool
  | seed .. => true
  | relax _ => false

def sources : InitialStep → List Nat
  | seed .. => []
  | relax relaxation => relaxation.sources

end InitialStep

structure Schedule where
  placements : List Placement
  initialSteps : List InitialStep
  extraRound : List Relaxation
deriving DecidableEq, Repr

structure ScheduleSize where
  cells : Nat
  seeds : Nat
  initialChecks : Nat
  roundChecks : Nat
deriving DecidableEq, Repr

def Schedule.measure (s : Schedule) : ScheduleSize where
  cells := s.placements.length
  seeds := s.initialSteps.countP InitialStep.isSeed
  initialChecks := (s.initialSteps.flatMap InitialStep.sources).length
  roundChecks := (s.extraRound.flatMap Relaxation.sources).length

/-- The routes offered by a run with the given number of extra rounds. -/
def ScheduleSize.checksFor (size : ScheduleSize) (rounds : Nat) : Nat :=
  Bounded.countAdd size.initialChecks (Bounded.countMul size.roundChecks rounds)

end GridRoute
