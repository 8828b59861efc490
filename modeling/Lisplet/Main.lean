import Lisplet.CommandLine.Execution

/-!
# The program

Gives a plan its real files, streams and environment.  The dialogue is led line by line,
so that a reply appears before the next line is read.
-/

namespace Lisplet.Main

open CommandLine

def readEnvironment : IO Settings.Environment := do
  let names := [Settings.promptVariable, Settings.continuationVariable, Settings.limitVariable,
    Settings.logLevelVariable]
  let entries ← names.mapM fun name => do
    return (← IO.getEnv name).map fun value => (name, value)
  return entries.filterMap id

/-- The code by which the system says that a path goes on behind a file. -/
def notDirectoryCode : UInt32 := 20

def readContent (path : String) : IO (Except FileFault (List UInt8)) := do
  try
    return .ok (← IO.FS.readBinFile path).toList
  catch
    | .noFileOrDirectory .. => return .error (.notFound path)
    | .inappropriateType _ code _ =>
      return .error (if code = notDirectoryCode then .notDirectory path else .isDirectory path)
    | other => throw other

/-- Leads the dialogue until the input ends. -/
partial def lead (assignment : Assignment) (dialogue : Dialogue) : IO Unit := do
  let output ← IO.getStdout
  output.putStr dialogue.prompt
  output.flush
  let line ← (← IO.getStdin).getLine
  if line.isEmpty then output.putStrLn ""
  else
    let text := if line.endsWith "\n" then (line.dropEnd 1).toString else line
    let (events, next) := dialogue.feed (.line text)
    (← IO.getStderr).putStr (logText assignment (events.filterMap Event.note?))
    output.putStr (String.join (events.map Event.outputText))
    lead assignment next

/-- Writes what an outcome shows and gives its exit status. -/
def finish (outcome : Outcome) : IO UInt32 := do
  (← IO.getStderr).putStr outcome.errors
  (← IO.getStdout).putStr outcome.output
  match outcome.exit with
  | .status code => return UInt32.ofNat code
  | exit =>
    if let some (kind, message) := exit.complaint? then
      (← IO.getStderr).putStrLn (kind ++ ": " ++ message)
    return 1

end Lisplet.Main

open Lisplet CommandLine Main in
def main (arguments : List String) : IO UInt32 := do
  match Plan.make arguments (← readEnvironment) with
  | .carryOut assignment =>
    match assignment.task with
    | .selfTest => finish (executeSelfTest assignment)
    | .script path => finish (executeScript assignment path (← readContent path))
    | .dialogue => do
      lead assignment (openDialogue assignment)
      return 0
  | plan => finish (execute plan (fun path => .error (.notFound path)) [])
