/-!
The eight compass directions and standing still. A neighbour is always named by the direction towards
it, so the order in which neighbours are looked at is an order of directions.
-/

namespace GridRoute

/-- A unit move: `x` grows to the east and `y` to the north. -/
inductive Direction where
  | north
  | northEast
  | east
  | southEast
  | south
  | southWest
  | west
  | northWest
  | center
deriving DecidableEq, Repr

namespace Direction

def all : List Direction :=
  [north, northEast, east, southEast, south, southWest, west, northWest, center]

theorem mem_all (d : Direction) : d ∈ all := by cases d <;> decide

def delta : Direction → Int × Int
  | north => (0, 1)
  | northEast => (1, 1)
  | east => (1, 0)
  | southEast => (1, -1)
  | south => (0, -1)
  | southWest => (-1, -1)
  | west => (-1, 0)
  | northWest => (-1, 1)
  | center => (0, 0)

theorem delta_injective {a b : Direction} (h : a.delta = b.delta) : a = b := by
  revert h
  cases a <;> cases b <;> decide

def ofDelta? (dx dy : Int) : Option Direction :=
  all.find? fun d => decide (d.delta = (dx, dy))

theorem ofDelta?_eq_some_iff {dx dy : Int} {d : Direction} :
    ofDelta? dx dy = some d ↔ d.delta = (dx, dy) := by
  constructor
  · intro h
    simpa using List.find?_some h
  · intro h
    cases hfound : ofDelta? dx dy with
    | none =>
      have := List.find?_eq_none.mp hfound d d.mem_all
      simp [h] at this
    | some e =>
      have he : e.delta = (dx, dy) := by simpa using List.find?_some hfound
      rw [delta_injective (he.trans h.symm)]

@[simp] theorem ofDelta?_delta (d : Direction) : ofDelta? d.delta.1 d.delta.2 = some d :=
  ofDelta?_eq_some_iff.mpr rfl

def opposite : Direction → Direction
  | north => south
  | northEast => southWest
  | east => west
  | southEast => northWest
  | south => north
  | southWest => northEast
  | west => east
  | northWest => southEast
  | center => center

@[simp] theorem opposite_opposite (d : Direction) : d.opposite.opposite = d := by cases d <;> rfl

theorem delta_opposite (d : Direction) : d.opposite.delta = (-d.delta.1, -d.delta.2) := by
  cases d <;> rfl

/-- The order in which neighbours are tried: by column from the west, in a column from the south. The
first that qualifies wins every tie. -/
def scanOrder : List Direction :=
  [southWest, west, northWest, south, north, southEast, east, northEast]

theorem mem_scanOrder {d : Direction} : d ∈ scanOrder ↔ d ≠ center := by cases d <;> decide

def name : Direction → String
  | north => "North"
  | northEast => "NorthEast"
  | east => "East"
  | southEast => "SouthEast"
  | south => "South"
  | southWest => "SouthWest"
  | west => "West"
  | northWest => "NorthWest"
  | center => "Center"

def ofName? (s : String) : Option Direction := all.find? fun d => d.name == s

@[simp] theorem ofName?_name (d : Direction) : ofName? d.name = some d := by cases d <;> decide

end Direction

end GridRoute
