import GridRoute.Search

/-!
Walks: the search repeated, with a move on the board after each.
-/

namespace GridRoute

structure Tick where
  direction : Direction
  moved : Bool
  agent : Position
deriving DecidableEq, Repr

namespace Board

def tick (b : Board) (p : Pathfinder) (target : Position) (rounds : Nat) :
    Except SearchError (Tick × Board) := do
  let direction ← p.moveTowards b.terrain target rounds
  let (moved, b) ← b.step direction
  return (⟨direction, moved, b.agent⟩, b)

/-- Walks to a target, for at most `limit` ticks and until the agent fails to move. -/
def walk (p : Pathfinder) (target : Position) (rounds : Nat) :
    Nat → Board → List (Except SearchError Tick) × Board
  | 0, b => ([], b)
  | limit + 1, b =>
    if b.agent = target then ([], b)
    else
      match b.tick p target rounds with
      | .error error => ([.error error], b)
      | .ok (tick, b) =>
        if tick.moved then
          let (trail, b) := walk p target rounds limit b
          (.ok tick :: trail, b)
        else ([.ok tick], b)

end Board

end GridRoute
