import GridRoute.Pathfinder
import GridRoute.Program.Statement

/-!
The two bodies of a printed route program: the search itself, and the table that finds the target's cell.
-/

namespace GridRoute

open GridRoute.Program

namespace Program

/-- Says which cell comes next, if the window knows it. -/
def noteCell (w : Window) (cell : Nat) (remark : String) : List Statement :=
  match w.offset? cell with
  | some o => [.note (o.text ++ remark)]
  | none => []

/-- Pulls a target outside the radius into the window. -/
def clampBody (radius : Radius) (clampSteps : Nat) : List Statement :=
  [.note "Targets outside the window are replaced by the last position in range.",
    .when (.beyond (.var .origin) (.var .target) radius.value)
      ([.declare .next (.stepTowards (.var .origin) (.var .target)),
          .declare .safe (.var .next)] ++
        List.replicate clampSteps
          (.when (.within (.var .origin) (.var .next) radius.value)
            [.assign .safe (.var .next),
              .assign .next (.stepTowards (.var .next) (.var .target))]) ++
        [.assign .target (.var .safe)])]

def anchorPlace : Anchor → Place
  | .origin => .var .origin
  | .cell index => .cell index

def placementStatement (p : Placement) : Statement :=
  .setPlace p.cell (.step (anchorPlace p.anchor) p.step)

/-- Starts the record of a cell, and drops the cell if it cannot be entered. -/
def senseStatements (o : Offset) (cell : Nat) : List Statement :=
  [.note o.text,
    .setLength cell .unreached,
    .setBest cell (.fixed .center),
    .choose (.enterable (.cell cell))
      [.setCost cell (.sum (.rubble (.cell cell)) .stepCost)]
      [.setCost cell .unsensedCost, .clearPlace cell],
    .gap]

def offerStatement (cell source : Nat) : Statement :=
  .when (.less (.sum (.length source) (.cost cell)) (.length cell))
    [.setLength cell (.sum (.length source) (.cost cell)), .setBest cell (.best source)]

def relaxStatements (w : Window) (r : Relaxation) : List Statement :=
  noteCell w r.cell "" ++ [.when (.present r.cell) (r.sources.map (offerStatement r.cell))]

def initialStatements (w : Window) : InitialStep → List Statement
  | .seed cell towardOrigin =>
    noteCell w cell " seed" ++
      [.when (.present cell)
        [.setLength cell (.sum (.cost cell) .stepCost), .setBest cell (.fixed towardOrigin)]]
  | .relax relaxation => relaxStatements w relaxation

def columnCase (column : Int × List (Int × Nat)) : Case :=
  .block column.1
    [.switch .dy (column.2.map fun (dy, cell) => .answer dy (.best cell)), .leave]

end Program

namespace Pathfinder

def searchBody (p : Pathfinder) : List Statement :=
  [.declare .origin .agent,
      .when (.same (.var .origin) (.var .target)) [.answer (.fixed .center)],
      .gap] ++
    clampBody p.radius p.clampSteps ++
    [.gap, .allocate, .gap,
      .note "Resolve every position before any of them is invalidated."] ++
    p.schedule.placements.map placementStatement ++
    [.gap, .note "Sense every cell; cells off the map or occupied drop out."] ++
    (p.window.cells.flatMap fun (o, cell) => senseStatements o cell) ++
    [.note "Initial pass: seed the ring around the origin, then relax outwards."] ++
    p.schedule.initialSteps.flatMap (initialStatements p.window) ++
    [.gap,
      .note "Further rounds refine routes around obstacles.",
      .repeatRounds (p.schedule.extraRound.flatMap (relaxStatements p.window)),
      .gap,
      .note "The best direction points back into the origin, so move the other way.",
      .answerFromTable]

def tableBody (p : Pathfinder) : List Statement :=
  [.switch .dx (p.table.columns.map columnCase), .fail]

end Pathfinder

end GridRoute
