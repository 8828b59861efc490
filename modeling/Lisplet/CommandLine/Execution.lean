import Lisplet.CommandLine.Plan
import Lisplet.Console.Dialogue
import Lisplet.SelfTest
import Lisplet.Text.Lines
import Lisplet.Text.Utf8

/-!
# Execution

Carries out a plan on given files and a given input, and says what is written to the two
streams and how the program ends.
-/

namespace Lisplet.CommandLine

inductive FileFault where
  | notFound (path : String)
  | isDirectory (path : String)
  /-- The path goes on behind a file. -/
  | notDirectory (path : String)
  /-- The path holds a character that no path can hold. -/
  | nulInPath
  | undecodable (fault : Text.Utf8Fault)
deriving DecidableEq

namespace FileFault

def label : FileFault → String
  | notFound _ => "FileNotFoundError"
  | isDirectory _ => "IsADirectoryError"
  | notDirectory _ => "NotADirectoryError"
  | nulInPath => "ValueError"
  | undecodable _ => "UnicodeDecodeError"

def message : FileFault → String
  | notFound path => "[Errno 2] No such file or directory: " ++ Text.quoted path
  | isDirectory path => "[Errno 21] Is a directory: " ++ Text.quoted path
  | notDirectory path => "[Errno 20] Not a directory: " ++ Text.quoted path
  | nulInPath => "embedded null byte"
  | undecodable fault => fault.message

end FileFault

/-- The text of a source file: UTF-8 with line ends of any kind. -/
def sourceText (bytes : List UInt8) : Except FileFault String :=
  match Text.decodeUtf8 bytes with
  | .ok cs => .ok (String.ofList (Text.plainNewlines cs))
  | .error fault => .error (.undecodable fault)

inductive Exit where
  | status (code : Nat)
  | failed (failure : Failure)
  | fileFault (fault : FileFault)
  | limitTooLarge

namespace Exit

/-- The kind and the wording of what ends the program before it has a status. -/
def complaint? : Exit → Option (String × String)
  | status _ => none
  | failed failure => some (failure.kind.label, failure.message)
  | fileFault fault => some (fault.label, fault.message)
  | limitTooLarge => some ("OverflowError", "Python int too large to convert to C int")

end Exit

structure Outcome where
  output : String
  errors : String
  exit : Exit

/-- The time in log lines where none is kept. -/
def noTime : String := "<time>"

def logText (assignment : Assignment) (notes : List Note) : String :=
  if assignment.logsNotes then String.join (notes.map (Note.logText noTime)) else ""

def linesText (lines : List String) : String := String.join (lines.map (· ++ "\n"))

def runScript (limit : Nat) (text : String) : Transcript String :=
  ((Interpreter.create limit).run Interpreter.uninterrupted (some text)).1

def openDialogue (assignment : Assignment) : Dialogue where
  interpreter := Interpreter.create assignment.limit
  prompts := ⟨assignment.settings.prompt, assignment.settings.continuation⟩
  breaksOff := Interpreter.uninterrupted
  pending := []

def executeSelfTest (assignment : Assignment) : Outcome :=
  let run := (SelfTest.run (Interpreter.create assignment.limit)).1
  let errors := logText assignment (run.begun.map Note.begun)
  match run.failure with
  | some failure => ⟨"", errors, .failed failure⟩
  | none =>
    ⟨linesText (run.results.map SelfTest.Result.line ++ [SelfTest.summary run.results]), errors,
      .status (SelfTest.status run.results)⟩

def executeScript (assignment : Assignment) (path : String)
    (content : Except FileFault (List UInt8)) : Outcome :=
  match content.bind sourceText with
  | .error fault => ⟨"", "", .fileFault fault⟩
  | .ok text =>
    let transcript := runScript assignment.limit text
    ⟨linesText transcript.report, logText assignment (Note.running path :: transcript.notes),
      .status (if transcript.succeeded then 0 else 1)⟩

def executeDialogue (assignment : Assignment) (input : List String) : Outcome :=
  let events := ((openDialogue assignment).run (input.map .line)).1
  ⟨String.join (events.map Event.outputText), logText assignment (events.filterMap Event.note?),
    .status 0⟩

/-- Carries out a plan, given the contents of files and the lines of the input. -/
def execute (plan : Plan) (content : String → Except FileFault (List UInt8)) (input : List String) :
    Outcome :=
  match plan with
  | .inform text => ⟨text, "", .status 0⟩
  | .refuse message => ⟨"", refusalText message, .status 2⟩
  | .limitTooLarge => ⟨"", "", .limitTooLarge⟩
  | .limitTooSmall => ⟨"", "", .failed .depthExceeded⟩
  | .carryOut assignment =>
    match assignment.task with
    | .selfTest => executeSelfTest assignment
    | .script path => executeScript assignment path (content path)
    | .dialogue => executeDialogue assignment input

end Lisplet.CommandLine
