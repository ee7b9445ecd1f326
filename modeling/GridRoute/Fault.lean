/-!
Faults: a computation on bounded numbers stops where its result would not fit.
-/

namespace GridRoute

inductive Fault where
  | addOverflow
  | subOverflow
  | mulOverflow
  | indexOutOfBounds (size index : Nat)
deriving DecidableEq, Repr

def Fault.message : Fault → String
  | .addOverflow => "attempt to add with overflow"
  | .subOverflow => "attempt to subtract with overflow"
  | .mulOverflow => "attempt to multiply with overflow"
  | .indexOutOfBounds size index =>
    "index out of bounds: the len is " ++ toString size ++ " but the index is " ++ toString index

end GridRoute
