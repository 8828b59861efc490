import Lisplet.CommandLine.Arguments
import Lisplet.Interpreter
import Lisplet.Settings

/-!
# Plans

What a command line and an environment lead to, before anything is run: a text to show,
a refusal, or a task with its settings.  The command line wins over the environment.
-/

namespace Lisplet.CommandLine

def programName : String := "lispflat"

def version : String := "0.3.0"

def versionText : String := programName ++ " " ++ version ++ "\n"

def usageText : String :=
  "usage: " ++ programName ++ " [-h] [--selftest] [--log-level LOG_LEVEL] [--version] [file]\n"

def helpText : String := usageText ++
  "\nA small Scheme-flavoured Lisp.\n" ++
  "\npositional arguments:\n" ++
  "  file                  source file to evaluate instead of starting the REPL\n" ++
  "\noptions:\n" ++
  "  -h, --help            show this help message and exit\n" ++
  "  --selftest            run the built-in test table and exit\n" ++
  "  --log-level LOG_LEVEL\n" ++
  "                        logging level (overrides " ++ Settings.logLevelVariable ++ ")\n" ++
  "  --version             show program's version number and exit\n"

def refusalText (message : String) : String :=
  usageText ++ programName ++ ": error: " ++ message ++ "\n"

/-- The names of the levels from which on notes may be logged. -/
def logLevels : List String :=
  ["CRITICAL", "FATAL", "ERROR", "WARN", "WARNING", "INFO", "DEBUG", "NOTSET"]

/-- Whether the notes of a run are logged at a level; they are all of the lowest
importance. -/
def logsNotes (level : String) : Bool := level == "DEBUG" || level == "NOTSET"

/-- The largest room for nested calls that can be asked for. -/
def largestLimit : Nat := 2147483647

/-- The smallest room that is of any use: setting up an interpreter nests this many
calls. -/
def smallestLimit : Nat := 6

inductive Task where
  | selfTest
  | script (path : String)
  | dialogue
deriving DecidableEq

structure Assignment where
  task : Task
  settings : Settings
  limit : Nat
  logsNotes : Bool
deriving DecidableEq

inductive Plan where
  /-- A text is shown, and that is all. -/
  | inform (text : String)
  /-- The command line, or a setting, is refused. -/
  | refuse (message : String)
  /-- The room for nested calls that is asked for is too large. -/
  | limitTooLarge
  /-- The room for nested calls that is asked for does not suffice to set up an
  interpreter. -/
  | limitTooSmall
  | carryOut (assignment : Assignment)
deriving DecidableEq

namespace Plan

/-- The task of some choices: an empty file name counts as none. -/
def taskOf (choices : Choices) : Task :=
  if choices.selfTest then .selfTest
  else
    match choices.file with
    | some path => if path.isEmpty then .dialogue else .script path
    | none => .dialogue

/-- The level of notes: an empty one on the command line counts as none. -/
def logLevelOf (choices : Choices) (settings : Settings) : String :=
  match choices.logLevel with
  | some level => Text.uppercase (if level.isEmpty then settings.logLevel else level)
  | none => Text.uppercase settings.logLevel

def ofChoices (choices : Choices) (environment : Settings.Environment) : Plan :=
  match Settings.load environment with
  | .error fault => .refuse fault.message
  | .ok settings =>
    let level := logLevelOf choices settings
    if !logLevels.contains level then .refuse ("unknown log level: " ++ level)
    else
      let limit := settings.limit.getD Interpreter.defaultLimit
      if largestLimit < limit then .limitTooLarge
      else if limit < smallestLimit then .limitTooSmall
      else .carryOut ⟨taskOf choices, settings, limit, logsNotes level⟩

def make (arguments : List String) (environment : Settings.Environment) : Plan :=
  match decide arguments with
  | .refuse fault => .refuse fault.message
  | .showHelp => .inform helpText
  | .showVersion => .inform versionText
  | .choices choices => ofChoices choices environment

end Plan

end Lisplet.CommandLine
