import GridRoute.Disc
import GridRoute.Window.Schedule
import GridRoute.TargetTable

/-!
Compiled route programs.
-/

namespace GridRoute

structure Pathfinder where
  radius : Radius
  window : Window
  schedule : Schedule
  table : TargetTable
  /-- How many guarded moves pull a target into the window. -/
  clampSteps : Nat

/-- Compiles the program for a squared radius; the first failure ends it. -/
def Pathfinder.compile (radius : Nat) : Except CompileError Pathfinder := do
  let radius ← Radius.ofNat radius
  let window ← Window.ofRadius radius.value
  let schedule ← window.schedule
  let table ← window.targetTable
  return ⟨radius, window, schedule, table, radius.clampSteps⟩

end GridRoute
