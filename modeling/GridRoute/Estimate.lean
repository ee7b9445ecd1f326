import GridRoute.Cost
import GridRoute.Schedule
import GridRoute.Terrain
import GridRoute.Window

/-!
Route estimates. Every cell of a window has the best route found so far: its length, the move that
leads from its first cell back to the origin, and the cell before it. Relaxing a cell compares the
routes of its sources with its own.
-/

namespace GridRoute

inductive Predecessor where
  | origin
  | cell (index : Nat)
deriving DecidableEq, Repr

structure Estimate where
  /-- The place of the cell; none when it cannot be entered. -/
  position : Option Position
  length : Int
  cost : Int
  best : Direction
  predecessor : Option Predecessor
deriving DecidableEq, Repr

namespace Estimate

def closed : Estimate := ⟨none, Cost.unreached, Cost.unsensed, .center, none⟩

def isReached (e : Estimate) : Bool := e.length < Cost.unreached

def seeded (e : Estimate) (towardOrigin : Direction) : Estimate :=
  { e with length := Cost.add e.cost Cost.step, best := towardOrigin, predecessor := some .origin }

/-- The cheaper of the own route and the one by way of a source; the own route if they are equal. -/
def improve (e : Estimate) (source : Nat) (via : Estimate) : Estimate :=
  let length := Cost.add via.length e.cost
  if length < e.length then
    { e with length := length, best := via.best, predecessor := some (.cell source) }
  else e

end Estimate

def Terrain.sense (t : Terrain) (p : Position) : Estimate :=
  if t.traversable p then
    { Estimate.closed with position := some p, cost := Cost.add (t.rubble p) Cost.step }
  else Estimate.closed

structure Estimates where
  cells : Array Estimate
deriving DecidableEq, Repr

namespace Estimates

def size (es : Estimates) : Nat := es.cells.size

def get (es : Estimates) (cell : Nat) : Except Fault Estimate :=
  match es.cells[cell]? with
  | some e => .ok e
  | none => .error (.indexOutOfBounds es.size cell)

def set (es : Estimates) (cell : Nat) (e : Estimate) : Estimates :=
  ⟨es.cells.setIfInBounds cell e⟩

def seed (es : Estimates) (cell : Nat) (towardOrigin : Direction) : Except Fault Estimates := do
  let e ← es.get cell
  if e.position.isNone then return es
  return es.set cell (e.seeded towardOrigin)

def offer (cell : Nat) (es : Estimates) (source : Nat) : Except Fault Estimates := do
  let via ← es.get source
  let e ← es.get cell
  return es.set cell (e.improve source via)

/-- Offers a cell the routes of its sources in their order. A cell that cannot be entered takes none. -/
def relax (es : Estimates) (relaxation : Relaxation) : Except Fault Estimates := do
  let e ← es.get relaxation.cell
  if e.position.isNone then return es
  relaxation.sources.foldlM (offer relaxation.cell) es

def initialStep (es : Estimates) : InitialStep → Except Fault Estimates
  | .seed cell towardOrigin => es.seed cell towardOrigin
  | .relax relaxation => es.relax relaxation

def round (relaxations : List Relaxation) (es : Estimates) : Except Fault Estimates :=
  relaxations.foldlM relax es

def rounds (relaxations : List Relaxation) : Nat → Estimates → Except Fault Estimates
  | 0, es => .ok es
  | n + 1, es => do rounds relaxations n (← es.round relaxations)

/-- The move from the first cell of a cell's route to the origin, or none at all. -/
def best (es : Estimates) (cell : Nat) : Direction :=
  match es.cells[cell]? with
  | some e => e.best
  | none => .center

/-- The cells from the given one back to the seed of its route, at most `steps` of them. -/
def trace (es : Estimates) : Nat → Nat → Option (List Nat)
  | 0, _ => none
  | steps + 1, cell =>
    match es.cells[cell]?.bind Estimate.predecessor with
    | none => none
    | some .origin => some [cell]
    | some (.cell previous) => (es.trace steps previous).map (cell :: ·)

/-- The route of a cell, from the cell back to a seed. -/
def route (es : Estimates) (cell : Nat) : Option (List Nat) := es.trace (es.size + 1) cell

def at? (es : Estimates) (w : Window) (o : Offset) : Option Estimate :=
  (w.index? o).bind fun cell => es.cells[cell]?

end Estimates

end GridRoute
