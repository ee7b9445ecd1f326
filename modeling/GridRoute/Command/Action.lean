import GridRoute.Command.Arguments
import GridRoute.Report

/-!
Running a command line. A command reads at most its configuration and ends in one action.
-/

namespace GridRoute

inductive Action where
  /-- The command line could not be understood. -/
  | usage
  /-- What was being done, and why it failed. -/
  | fail (errors : List String)
  | print (text : String)
  | write (path text : String)
deriving DecidableEq, Repr

namespace Command

/-- The settings of a command, given the text of its configuration file if that could be read. -/
def settings (c : Command) (text : Option String) : Except (List String) Settings := do
  let config ← match c.config, text with
    | none, _ => pure Config.default
    | some path, none => throw ["failed to read configuration at " ++ path]
    | some path, some text =>
      (Config.ofText text).mapError fun error => ["invalid configuration in " ++ path, error.message]
  return Settings.resolve config c.overrides

def tryAction (c : Command) (text : Option String) : Except (List String) Action := do
  let settings ← c.settings text
  let radius := toString settings.radius
  let pathfinder ← (Pathfinder.compile settings.radius).mapError fun error =>
    ["failed to compile pathfinder for radius " ++ radius, error.message]
  match c with
  | generate .. =>
    let source ← (pathfinder.render settings.target).mapError fun error =>
      ["failed to render java for radius " ++ radius, error.message]
    match settings.output with
    | some path => return .write path source
    | none => return .print source
  | inspect _ _ json =>
    let report := pathfinder.report
    return .print ((if json then report.json else report.text) ++ "\n")

def action (c : Command) (text : Option String) : Action :=
  match c.tryAction text with
  | .ok action => action
  | .error errors => .fail errors

end Command

def writeFailure (path : String) : String := "failed to write " ++ path

end GridRoute
