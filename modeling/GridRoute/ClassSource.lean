import GridRoute.ClassName
import GridRoute.Cost
import GridRoute.Program.Route

/-!
The printed class: a route program as the source of one class of the host's language.
-/

namespace GridRoute

open GridRoute.Source GridRoute.Program

structure ClassTarget where
  package : Option String
  /-- Named after the radius when there is none. -/
  className : Option String
  comments : Bool
deriving DecidableEq, Repr

def ClassTarget.default : ClassTarget := ⟨none, none, true⟩

def ClassTarget.classNameFor (target : ClassTarget) (radius : Radius) : String :=
  target.className.getD ("BellmanFord" ++ toString radius.value)

inductive RenderError where
  | compile (error : CompileError)
  | writer (error : ScriptError)
  | invalidClassName (name : String)
  | invalidPackage (name : String)
deriving DecidableEq, Repr

def RenderError.message : RenderError → String
  | .compile error => error.message
  | .writer error => error.message
  | .invalidClassName name => "`" ++ name ++ "` is not a valid Java class name"
  | .invalidPackage name => "`" ++ name ++ "` is not a valid Java package name"

namespace Pathfinder

def packageSteps : Option String → Script
  | some package => [.line ("package " ++ package ++ ";"), .blank]
  | none => []

def importSteps : Script :=
  [.lines ["import battlecode.common.Direction;", "import battlecode.common.GameActionException;",
    "import battlecode.common.MapLocation;", "import battlecode.common.RobotController;"]]

def constantSteps (p : Pathfinder) : Script :=
  [.comment "Cells inside the visibility window, in relaxation order.",
    .line ("private static final int CELLS = " ++ toString p.window.size ++ ";"),
    .comment "Path length of a cell no route has reached yet.",
    .line ("private static final int UNREACHED = " ++ toString Cost.unreached ++ ";"),
    .comment "Cost assumed for cells that could not be sensed.",
    .line ("private static final int UNSENSED_COST = " ++ toString Cost.unsensed ++ ";"),
    .comment "Cost of a single step, added to the sensed rubble.",
    .line ("private static final int STEP_COST = " ++ toString Cost.step ++ ";")]

def searchSteps (p : Pathfinder) : Script :=
  [.blockComment ["Direction to move in to approach \x7b@code target\x7d.",
      "",
      "@param rc          controller of the calling robot, its location is the origin",
      "@param target      location to approach, pulled into the window when out of range",
      "@param extraRounds relaxation rounds to run after initialisation",
      "@return the first step of the cheapest known route, CENTER when none is known",
      "@throws GameActionException when sensing a cell fails"],
    .block ("public static Direction pathfindTowards(RobotController rc, MapLocation target, " ++
        "int extraRounds) throws GameActionException")
      (stepsOfBody p.searchBody)]

def tableSteps (p : Pathfinder) : Script :=
  [.blockComment ["Best direction stored for the cell at offset (\x7b@code dx\x7d, \x7b@code dy\x7d).",
      "",
      "@throws IllegalStateException when the offset lies outside the window"],
    .block "private static Direction bestDirection(int dx, int dy, Direction[] bestDir)"
      (stepsOfBody p.tableBody)]

def classScript (p : Pathfinder) (package : Option String) (className : String) : Script :=
  packageSteps package ++ importSteps ++
    [.blank,
      .blockComment ["Pathfinding for a vision radius of " ++ p.radius.text ++
          " using bounded Bellman-Ford relaxation.",
        "",
        "Generated by pathtable. Do not edit by hand."],
      .block ("public final class " ++ className)
        (p.constantSteps ++
          [.blank, .enterBlock ("private " ++ className ++ "()"), .exitBlock, .blank] ++
          p.searchSteps ++ [.blank] ++ p.tableSteps)]

def render (p : Pathfinder) (target : ClassTarget) : Except RenderError String := do
  let className := target.classNameFor p.radius
  if !ClassName.isIdentifier className then throw (.invalidClassName className)
  if let some package := target.package then
    if !ClassName.isPackage package then throw (.invalidPackage package)
  let start := Writer.new.setComments target.comments
  let (outcome, written) := runScript (p.classScript target.package className) start
  outcome.mapError .writer
  written.finish.mapError fun error => .writer (.writer error)

end Pathfinder

def generate (radius : Nat) (target : ClassTarget) : Except RenderError String := do
  (← (Pathfinder.compile radius).mapError .compile).render target

end GridRoute
