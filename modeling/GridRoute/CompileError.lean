import GridRoute.Offset

/-!
What can keep a window from being compiled, with the words for it.
-/

namespace GridRoute

inductive CompileError where
  | emptyWindow (radius : Nat)
  | radiusTooSmall (radius minimum : Nat)
  | radiusTooLarge (radius maximum : Nat)
  | noCloserNeighbor (cell : Offset)
  | anchorNotPlaced (cell anchor : Offset)
  | missingCell (cell : Offset)
  | outOfOrder (previous next : Offset)
  | originInWindow
  | outsideRadius (cell : Offset) (radius : Nat)
  | repeatedCell (cell : Offset)
  | fault (cause : Fault)
deriving DecidableEq, Repr

def CompileError.message : CompileError → String
  | .emptyWindow radius => "radius " ++ toString radius ++ " produces an empty topology"
  | .radiusTooSmall radius minimum =>
    "radius " ++ toString radius ++ " is below the supported minimum of " ++ toString minimum
  | .radiusTooLarge radius maximum =>
    "radius " ++ toString radius ++ " exceeds the supported maximum of " ++ toString maximum
  | .noCloserNeighbor cell => "no neighbour of " ++ cell.text ++ " is closer to the origin"
  | .anchorNotPlaced cell anchor =>
    cell.text ++ " is anchored on " ++ anchor.text ++ ", which is resolved later"
  | .missingCell cell => cell.text ++ " is not part of the topology"
  | .outOfOrder previous next =>
    next.text ++ " follows " ++ previous.text ++ " but is closer to the origin"
  | .originInWindow => "the origin cannot be part of the topology"
  | .outsideRadius cell radius => cell.text ++ " lies outside radius " ++ toString radius
  | .repeatedCell cell => cell.text ++ " appears more than once"
  | .fault cause => cause.message

instance : MonadLift (Except Fault) (Except CompileError) := ⟨Except.mapError .fault⟩

end GridRoute
