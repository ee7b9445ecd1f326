import GridRoute.Pathfinder

/-!
Reports on the size of a compiled program, as text and as JSON.
-/

namespace GridRoute

structure Report where
  radius : Radius
  size : ScheduleSize
  columns : Nat
  clampSteps : Nat
deriving DecidableEq

def Pathfinder.report (p : Pathfinder) : Report :=
  ⟨p.radius, p.schedule.measure, p.table.columns.length, p.clampSteps⟩

namespace Report

def text (r : Report) : String :=
  "radius:                  " ++ r.radius.text ++
  "\ncells:                   " ++ toString r.size.cells ++
  "\nseeds:                   " ++ toString r.size.seeds ++
  "\ninitial checks:          " ++ toString r.size.initialChecks ++
  "\nchecks per extra round:  " ++ toString r.size.roundChecks ++
  "\ntable columns:           " ++ toString r.columns ++
  "\nclamp steps:             " ++ toString r.clampSteps

def fields (r : Report) : List (String × Nat) :=
  [("radius", r.radius.value), ("cells", r.size.cells), ("seeds", r.size.seeds),
    ("initial_checks", r.size.initialChecks), ("round_checks", r.size.roundChecks),
    ("columns", r.columns), ("clamp_steps", r.clampSteps)]

/-- The report as a JSON object, a field on each line. -/
def json (r : Report) : String :=
  let line (field : String × Nat) := "  \"" ++ field.1 ++ "\": " ++ toString field.2
  "\x7b\n" ++ String.intercalate ",\n" (r.fields.map line) ++ "\n\x7d"

end Report

end GridRoute
