import GridRoute.Bounded

/-!
Path costs, which stop at the ends of the signed range of 32 bits.
-/

namespace GridRoute.Cost

/-- The length of a path that nothing has found yet: longer than any path in a window, and far enough
below the end of the range that a cost can be added to it. -/
def unreached : Int := 1147483647

/-- The cost of a cell that cannot be entered or has not been looked at. -/
def unsensed : Int := 110

def step : Int := 10

def add (a b : Int) : Int := Bounded.saturatingAdd a b

end GridRoute.Cost
