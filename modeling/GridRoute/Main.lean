import GridRoute.Command.Action

/-!
The program: reads the command line and the files it names, and carries out the action.
-/

namespace GridRoute

private def usageText : String :=
  "usage: gridroute generate|inspect [--radius N] [--config FILE]\n" ++
  "  generate: [--out FILE] [--package NAME] [--class-name NAME] [--no-comments]\n" ++
  "  inspect:  [--json]"

private def readText (path : String) : IO (Option String) := do
  try
    return String.fromUTF8? (← IO.FS.readBinFile path)
  catch _ => return none

private def fail (errors : List String) : IO UInt32 := do
  let stderr ← IO.getStderr
  match errors with
  | [] => return 1
  | error :: causes =>
    stderr.putStrLn ("Error: " ++ error)
    for cause in causes do
      stderr.putStrLn ("  caused by: " ++ cause)
    return 1

private def perform : Action → IO UInt32
  | .usage => do
    (← IO.getStderr).putStrLn usageText
    return 2
  | .fail errors => GridRoute.fail errors
  | .print text => do
    (← IO.getStdout).putStr text
    return 0
  | .write path text => do
    try
      IO.FS.writeBinFile path text.toUTF8
      return 0
    catch _ => GridRoute.fail [writeFailure path]

def runArguments (args : List String) : IO UInt32 := do
  match Command.ofArguments? args with
  | none => perform .usage
  | some command =>
    let text ← match command.config with
      | some path => readText path
      | none => pure none
    perform (command.action text)

end GridRoute

def main (args : List String) : IO UInt32 := GridRoute.runArguments args
