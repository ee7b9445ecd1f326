import GridRoute.Source.Writer

/-!
Scripts: what a program does with a writer, as data. A block holds its body; a step that fails ends the
body it stands in, unless the failure is caught.
-/

namespace GridRoute.Source

inductive Step where
  | line (text : String)
  | lines (texts : List String)
  | blank
  | comment (text : String)
  | blockComment (texts : List String)
  | setComments (enabled : Bool)
  | enterBlock (header : String)
  | exitBlock
  | reopenBlock (header : String)
  | block (header : String) (body : List Step)
  /-- A loop of a counter from zero to a bound. -/
  | loop (counter bound : String) (body : List Step)
  /-- Looks at the finished text and writes nothing. -/
  | finish
  /-- Fails for a reason of its own. -/
  | abort
  /-- Goes on if the step fails. -/
  | attempt (step : Step)

abbrev Script := List Step

inductive ScriptError where
  | writer (error : WriterError)
  | aborted
deriving DecidableEq, Repr

def ScriptError.message : ScriptError → String
  | .writer error => error.message
  | .aborted => "aborted"

/-- How a step ends, and the writer it leaves. What was written before a failure stays. -/
abbrev Outcome := Except ScriptError Unit × Writer

def loopHeader (counter bound : String) : String :=
  "for (int " ++ counter ++ " = 0; " ++ counter ++ " < " ++ bound ++ "; " ++ counter ++ "++)"

namespace Outcome

def ofWriter : Writer.Result → Outcome
  | (result, w) => (result.mapError .writer, w)

@[simp] theorem ofWriter_ok (w : Writer) : ofWriter (.ok (), w) = (.ok (), w) := rfl

/-- Ends a block that was opened at depth `entry`. Whatever the body did, that is the depth again. -/
def endBlock (entry : Nat) : Outcome → Outcome
  | (.ok (), w) => ofWriter (w.closeBlock entry)
  | (.error error, w) => (.error error, { w with depth := entry })

end Outcome

mutual

def Step.run : Step → Writer → Outcome
  | .line text, w => (.ok (), w.line text)
  | .lines texts, w => (.ok (), w.writeLines texts)
  | .blank, w => (.ok (), w.blank)
  | .comment text, w => (.ok (), w.comment text)
  | .blockComment texts, w => (.ok (), w.blockComment texts)
  | .setComments enabled, w => (.ok (), w.setComments enabled)
  | .enterBlock header, w => (.ok (), w.enterBlock header)
  | .exitBlock, w => .ofWriter w.exitBlock
  | .reopenBlock header, w => .ofWriter (w.reopenBlock header)
  | .block header body, w => .endBlock w.depth (runScript body (w.enterBlock header))
  | .loop counter bound body, w =>
    .endBlock w.depth (runScript body (w.enterBlock (loopHeader counter bound)))
  | .finish, w => .ofWriter (w.finish.map fun _ => (), w)
  | .abort, w => (.error .aborted, w)
  | .attempt step, w => (.ok (), (step.run w).2)

def runScript : Script → Writer → Outcome
  | [], w => (.ok (), w)
  | step :: rest, w =>
    match step.run w with
    | (.ok (), w) => runScript rest w
    | (.error error, w) => (.error error, w)

end

/-- A step that was run, how it ended, and the state of the writer then. `text` is what a step that
looks at the finished text saw. -/
structure LogEntry where
  step : Step
  result : Except ScriptError Unit
  depth : Nat
  comments : Bool
  text : Option String

def LogEntry.ofRun (step : Step) (w : Writer) : LogEntry :=
  let (result, after) := step.run w
  let text := match step with
    | .finish => w.finish.toOption
    | _ => none
  ⟨step, result, after.depth, after.comments, text⟩

mutual

def Step.log : Step → Writer → List LogEntry
  | .block header body, w =>
    logScript body (w.enterBlock header) ++ [.ofRun (.block header body) w]
  | .loop counter bound body, w =>
    logScript body (w.enterBlock (loopHeader counter bound)) ++ [.ofRun (.loop counter bound body) w]
  | .attempt step, w => step.log w
  | step, w => [.ofRun step w]

def logScript : Script → Writer → List LogEntry
  | [], _ => []
  | step :: rest, w =>
    step.log w ++
      match step.run w with
      | (.ok (), w) => logScript rest w
      | (.error _, _) => []

end

end GridRoute.Source
