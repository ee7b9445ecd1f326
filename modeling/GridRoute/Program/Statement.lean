import GridRoute.Direction
import GridRoute.Source.Script

/-!
The language of printed route programs: locations, costs and directions of a host that knows the agent,
the map and the rubble on it, and straight-line statements over one record per cell. A statement is
printed as steps of a writer.
-/

namespace GridRoute.Program

open GridRoute.Source

inductive Variable where
  | origin
  | target
  | next
  | safe
deriving DecidableEq, Repr

def Variable.text : Variable → String
  | origin => "origin"
  | target => "target"
  | next => "next"
  | safe => "safe"

def directionConstant : Direction → String
  | .north => "Direction.NORTH"
  | .northEast => "Direction.NORTHEAST"
  | .east => "Direction.EAST"
  | .southEast => "Direction.SOUTHEAST"
  | .south => "Direction.SOUTH"
  | .southWest => "Direction.SOUTHWEST"
  | .west => "Direction.WEST"
  | .northWest => "Direction.NORTHWEST"
  | .center => "Direction.CENTER"

def slot (array : String) (cell : Nat) : String := array ++ "[" ++ toString cell ++ "]"

inductive Place where
  /-- Where the agent stands. -/
  | agent
  | var (v : Variable)
  | cell (index : Nat)
  | step (start : Place) (d : Direction)
  | stepTowards (start goal : Place)
deriving DecidableEq, Repr

def Place.text : Place → String
  | agent => "rc.getLocation()"
  | var v => v.text
  | cell index => slot "loc" index
  | step start d => start.text ++ ".add(" ++ directionConstant d ++ ")"
  | stepTowards start goal =>
    start.text ++ ".add(" ++ start.text ++ ".directionTo(" ++ goal.text ++ "))"

inductive Number where
  | unreached
  | unsensedCost
  | stepCost
  | length (cell : Nat)
  | cost (cell : Nat)
  | rubble (place : Place)
  | sum (left right : Number)
deriving DecidableEq, Repr

def Number.text : Number → String
  | unreached => "UNREACHED"
  | unsensedCost => "UNSENSED_COST"
  | stepCost => "STEP_COST"
  | length cell => slot "pathLength" cell
  | cost cell => slot "cost" cell
  | rubble place => "rc.senseRubble(" ++ place.text ++ ")"
  | sum left right => left.text ++ " + " ++ right.text

inductive Heading where
  | fixed (d : Direction)
  | best (cell : Nat)
deriving DecidableEq, Repr

def Heading.text : Heading → String
  | fixed d => directionConstant d
  | best cell => slot "bestDir" cell

inductive Condition where
  | same (left right : Place)
  | beyond (left right : Place) (radius : Nat)
  | within (left right : Place) (radius : Nat)
  | enterable (place : Place)
  | present (cell : Nat)
  | less (left right : Number)
deriving DecidableEq, Repr

def Condition.text : Condition → String
  | same left right => left.text ++ ".equals(" ++ right.text ++ ")"
  | beyond left right radius =>
    left.text ++ ".distanceSquaredTo(" ++ right.text ++ ") > " ++ toString radius
  | within left right radius =>
    left.text ++ ".distanceSquaredTo(" ++ right.text ++ ") <= " ++ toString radius
  | enterable place =>
    "rc.onTheMap(" ++ place.text ++ ") && !rc.isLocationOccupied(" ++ place.text ++ ")"
  | present cell => slot "loc" cell ++ " != null"
  | less left right => left.text ++ " < " ++ right.text

/-- The parts of a target's offset. -/
inductive Axis where
  | dx
  | dy
deriving DecidableEq, Repr

def Axis.text : Axis → String
  | dx => "dx"
  | dy => "dy"

mutual

inductive Statement where
  /-- Says something to the reader. -/
  | note (text : String)
  /-- A blank line. -/
  | gap
  | declare (v : Variable) (place : Place)
  | assign (v : Variable) (place : Place)
  /-- Makes room for the records of all cells. -/
  | allocate
  | setPlace (cell : Nat) (place : Place)
  | clearPlace (cell : Nat)
  | setLength (cell : Nat) (number : Number)
  | setCost (cell : Nat) (number : Number)
  | setBest (cell : Nat) (heading : Heading)
  | when (condition : Condition) (body : List Statement)
  | choose (condition : Condition) (yes no : List Statement)
  /-- Runs the body as often as the caller asked for extra rounds. -/
  | repeatRounds (body : List Statement)
  | switch (axis : Axis) (cases : List Case)
  /-- Goes on after the switch. -/
  | leave
  | answer (heading : Heading)
  /-- Answers with the opposite of what the table holds for the target. -/
  | answerFromTable
  /-- Gives up: the offset is not in the table. -/
  | fail

inductive Case where
  | block (value : Int) (body : List Statement)
  | answer (value : Int) (heading : Heading)

end

mutual

def Statement.steps : Statement → Script
  | .note text => [.comment text]
  | .gap => [.blank]
  | .declare v place => [.line ("MapLocation " ++ v.text ++ " = " ++ place.text ++ ";")]
  | .assign v place => [.line (v.text ++ " = " ++ place.text ++ ";")]
  | .allocate =>
    [.lines ["MapLocation[] loc = new MapLocation[CELLS];", "int[] pathLength = new int[CELLS];",
      "int[] cost = new int[CELLS];", "Direction[] bestDir = new Direction[CELLS];"]]
  | .setPlace cell place => [.line (slot "loc" cell ++ " = " ++ place.text ++ ";")]
  | .clearPlace cell => [.line (slot "loc" cell ++ " = null;")]
  | .setLength cell number => [.line (slot "pathLength" cell ++ " = " ++ number.text ++ ";")]
  | .setCost cell number => [.line (slot "cost" cell ++ " = " ++ number.text ++ ";")]
  | .setBest cell heading => [.line (slot "bestDir" cell ++ " = " ++ heading.text ++ ";")]
  | .when condition body => [.block ("if (" ++ condition.text ++ ")") (stepsOfBody body)]
  | .choose condition yes no =>
    [.block ("if (" ++ condition.text ++ ")")
      (stepsOfBody yes ++ .reopenBlock "else" :: stepsOfBody no)]
  | .repeatRounds body => [.loop "round" "extraRounds" (stepsOfBody body)]
  | .switch axis cases => [.block ("switch (" ++ axis.text ++ ")") (stepsOfCases cases)]
  | .leave => [.line "break;"]
  | .answer heading => [.line ("return " ++ heading.text ++ ";")]
  | .answerFromTable =>
    [.line
      "return bestDirection(target.x - origin.x, target.y - origin.y, bestDir).opposite();"]
  | .fail =>
    [.line ("throw new IllegalStateException(\"offset (\" + dx + \",\" + dy + " ++
      "\") lies outside the visibility window\");")]

def Case.steps : Case → Script
  | .block value body => [.block ("case " ++ toString value ++ ":") (stepsOfBody body)]
  | .answer value heading =>
    [.line ("case " ++ toString value ++ ": return " ++ heading.text ++ ";")]

def stepsOfBody : List Statement → Script
  | [] => []
  | statement :: rest => statement.steps ++ stepsOfBody rest

def stepsOfCases : List Case → Script
  | [] => []
  | first :: rest => first.steps ++ stepsOfCases rest

end

end GridRoute.Program
