import Lisplet.Interpreter

/-!
# Reports

What the user is shown of a run: the text of every value that has one and, when the run
failed, a line that names the failure.  Besides that a run leaves notes for the log.
-/

namespace Lisplet

/-- A line for the log.  The note of a failure is followed by a trace. -/
structure Note where
  source : String
  message : String
  traced : Bool
deriving DecidableEq

namespace Note

def begun (form : String) : Note := ⟨"lispflat.interpreter", "eval " ++ form, false⟩

def failed : Note := ⟨"lispflat.repl", "evaluation failed", true⟩

def running (path : String) : Note := ⟨"lispflat.repl", "running " ++ path, false⟩

def logText (time : String) (note : Note) : String :=
  time ++ " - " ++ note.source ++ " - DEBUG - " ++ note.message ++ "\n" ++
    if note.traced then "<traceback>\n" else ""

end Note

namespace Transcript

def succeeded (transcript : Transcript String) : Bool :=
  match transcript.ending with
  | .failed _ => false
  | _ => true

def report (transcript : Transcript String) : List String :=
  match transcript.ending with
  | .failed failure => transcript.results ++ [failure.report]
  | _ => transcript.results

def notes (transcript : Transcript String) : List Note :=
  let begun := transcript.begun.map Note.begun
  match transcript.ending with
  | .failed _ => begun ++ [Note.failed]
  | _ => begun

end Transcript

end Lisplet
