import GridRoute.Program.Route
import GridRoute.Search
import GridRoute.Proofs.Sequencing

/-!
What a printed program does. Its numbers have 32 bits and wrap around, its arrays begin with null entries
and zeros, a switch goes on from the case it enters until something leaves it, and looking at a null entry
ends the program. The map answers as positions do.
-/

namespace GridRoute

/-- What a running program can ask: where it is, and how the map looks. -/
structure Robot where
  location : Position
  onTheMap : Position → Bool
  occupied : Position → Bool
  rubble : Position → Int32

def Robot.terrain (r : Robot) : Terrain where
  agent := r.location
  traversable q := r.onTheMap q && !r.occupied q
  rubble q := (r.rubble q).toInt

namespace Program

inductive Crash where
  | nullPointer
  | indexOutOfBounds (size index : Nat)
  | illegalState (dx dy : Int32)
  /-- The program names what its method does not know, or comes to the end of the method. -/
  | malformed
  | fault (cause : Fault)
deriving DecidableEq, Repr

instance : MonadLift (Except Fault) (Except Crash) := ⟨Except.mapError .fault⟩

/-- What a method is called with, and the number of cells in its class. -/
structure Scope where
  robot : Robot
  cells : Nat
  extraRounds : Option Int32
  axis : Axis → Option Int32

structure Memory where
  place : Variable → Option Position
  loc : Array (Option Position)
  length : Array Int32
  cost : Array Int32
  best : Array (Option Direction)

def Memory.empty : Memory := ⟨fun _ => none, #[], #[], #[], #[]⟩

def Memory.assign (m : Memory) (v : Variable) (q : Position) : Memory :=
  { m with place := fun other => if other = v then some q else m.place other }

/-- How a statement ends: the next one follows, the switch or loop around it is left, or the method
returns. -/
inductive Flow where
  | next
  | left
  | answered (heading : Option Direction)
deriving DecidableEq, Repr

abbrev Result := Except Crash (Flow × Memory)

def known (x : Option α) : Except Crash α :=
  match x with
  | some a => .ok a
  | none => .error .malformed

def nonnull (x : Option α) : Except Crash α :=
  match x with
  | some a => .ok a
  | none => .error .nullPointer

def read (xs : Array α) (i : Nat) : Except Crash α :=
  match xs[i]? with
  | some x => .ok x
  | none => .error (.indexOutOfBounds xs.size i)

def write (xs : Array α) (i : Nat) (x : α) : Except Crash (Array α) :=
  if i < xs.size then .ok (xs.setIfInBounds i x) else .error (.indexOutOfBounds xs.size i)

section Expressions

variable (s : Scope) (m : Memory)

def Place.eval : Place → Except Crash Position
  | agent => .ok s.robot.location
  | var v => known (m.place v)
  | cell index => do nonnull (← read m.loc index)
  | step start d => do (← start.eval).step d
  | stepTowards start goal => do
    let q ← start.eval
    q.step (q.headingTo (← goal.eval))

def Number.eval : Number → Except Crash Int32
  | unreached => .ok (Int32.ofInt Cost.unreached)
  | unsensedCost => .ok (Int32.ofInt Cost.unsensed)
  | stepCost => .ok (Int32.ofInt Cost.step)
  | length cell => read m.length cell
  | cost cell => read m.cost cell
  | rubble place => do return s.robot.rubble (← place.eval s m)
  | sum left right => do return (← left.eval) + (← right.eval)

def Heading.eval : Heading → Except Crash (Option Direction)
  | fixed d => .ok (some d)
  | best cell => read m.best cell

def Condition.eval : Condition → Except Crash Bool
  | same left right => do return (← left.eval s m) = (← right.eval s m)
  | beyond left right radius => do
    let q ← left.eval s m
    return radius < (← q.distanceSquared (← right.eval s m))
  | within left right radius => do
    let q ← left.eval s m
    return (← q.distanceSquared (← right.eval s m)) ≤ radius
  | enterable place => do
    let q ← place.eval s m
    return s.robot.onTheMap q && !s.robot.occupied q
  | present cell => do return (← read m.loc cell).isSome
  | less left right => do return (← left.eval s m) < (← right.eval s m)

end Expressions

theorem toInt_add_one_of_lt {a b : Int32} (h : a < b) : (a + 1).toInt = a.toInt + 1 := by
  have hlt := Int32.lt_iff_toInt_lt.mp h
  have hlow := a.le_toInt
  have hhigh := b.toInt_lt
  rw [Int32.toInt_add, Int32.toInt_one, Int.bmod_eq_of_le (by omega) (by omega)]

def loop (bound : Int32) (body : Memory → Result) (round : Int32) (m : Memory) : Result :=
  if _ : round < bound then do
    match ← body m with
    | (.next, m) => loop bound body (round + 1) m
    | (.left, m) => return (.next, m)
    | (.answered heading, m) => return (.answered heading, m)
  else return (.next, m)
termination_by (bound.toInt - round.toInt).toNat
decreasing_by
  have hlt : round < bound := by assumption
  have := Int32.lt_iff_toInt_lt.mp hlt
  rw [toInt_add_one_of_lt hlt]
  omega

abbrev Lookup := Int32 → Int32 → Array (Option Direction) → Except Crash (Option Direction)

def Case.label : Case → Int32
  | block value _ => Int32.ofInt value
  | answer value _ => Int32.ofInt value

section Statements

variable (s : Scope) (lookup : Lookup)

mutual

@[simp] def Statement.run : Statement → Memory → Result
  | .note _, m => .ok (.next, m)
  | .gap, m => .ok (.next, m)
  | .declare v place, m => do return (.next, m.assign v (← place.eval s m))
  | .assign v place, m => do
    let _ ← known (m.place v)
    return (.next, m.assign v (← place.eval s m))
  | .allocate, m =>
    .ok (.next, {
      m with
      loc := Array.replicate s.cells none, length := Array.replicate s.cells 0,
      cost := Array.replicate s.cells 0, best := Array.replicate s.cells none })
  | .setPlace cell place, m => do
    return (.next, { m with loc := ← write m.loc cell (some (← place.eval s m)) })
  | .clearPlace cell, m => do return (.next, { m with loc := ← write m.loc cell none })
  | .setLength cell number, m => do
    return (.next, { m with length := ← write m.length cell (← number.eval s m) })
  | .setCost cell number, m => do
    return (.next, { m with cost := ← write m.cost cell (← number.eval s m) })
  | .setBest cell heading, m => do
    return (.next, { m with best := ← write m.best cell (← heading.eval m) })
  | .when condition body, m => do
    if ← condition.eval s m then runBody body m else return (.next, m)
  | .choose condition yes no, m => do
    if ← condition.eval s m then runBody yes m else runBody no m
  | .repeatRounds body, m => do
    loop (← known s.extraRounds) (fun m => runBody body m) 0 m
  | .switch axis cases, m => do
    match ← runCases (← known (s.axis axis)) cases m with
    | (.left, m) => return (.next, m)
    | (flow, m) => return (flow, m)
  | .leave, m => .ok (.left, m)
  | .answer heading, m => do return (.answered (← heading.eval m), m)
  | .answerFromTable, m => do
    let target ← known (m.place .target)
    let origin ← known (m.place .origin)
    let heading ← lookup (Int32.ofInt target.x - Int32.ofInt origin.x)
      (Int32.ofInt target.y - Int32.ofInt origin.y) m.best
    return (.answered (some (← nonnull heading).opposite), m)
  | .fail, _ => do throw (.illegalState (← known (s.axis .dx)) (← known (s.axis .dy)))

@[simp] def Case.run : Case → Memory → Result
  | .block _ body, m => runBody body m
  | .answer _ heading, m => do return (.answered (← heading.eval m), m)

@[simp] def runBody : List Statement → Memory → Result
  | [], m => .ok (.next, m)
  | statement :: rest, m => do
    match ← statement.run m with
    | (.next, m) => runBody rest m
    | (flow, m) => return (flow, m)

@[simp] def runCases (value : Int32) : List Case → Memory → Result
  | [], m => .ok (.next, m)
  | first :: rest, m => do
    if first.label = value then
      match ← first.run m with
      | (.next, m) => runThrough rest m
      | (flow, m) => return (flow, m)
    else runCases value rest m

/-- A case that is not left goes on with the one after it. -/
@[simp] def runThrough : List Case → Memory → Result
  | [], m => .ok (.next, m)
  | first :: rest, m => do
    match ← first.run m with
    | (.next, m) => runThrough rest m
    | (flow, m) => return (flow, m)

end

end Statements

def answerOf (result : Result) : Except Crash (Option Direction) := do
  match ← result with
  | (.answered heading, _) => return heading
  | _ => throw .malformed

end Program

namespace Pathfinder

open Program

/-- Calls the method with the table. It calls no other. -/
def callTable (p : Pathfinder) (robot : Robot) : Lookup := fun dx dy best =>
  answerOf (runBody ⟨robot, p.window.size, none, fun | .dx => some dx | .dy => some dy⟩
    (fun _ _ _ => .error .malformed) p.tableBody { Memory.empty with best := best })

def callSearch (p : Pathfinder) (robot : Robot) (target : Position) (extraRounds : Int32) :
    Except Crash (Option Direction) :=
  answerOf (runBody ⟨robot, p.window.size, some extraRounds, fun _ => none⟩ (p.callTable robot)
    p.searchBody (Memory.empty.assign .target target))

end Pathfinder

end GridRoute
