import Lisplet.Decimal.Numeral
import Lisplet.Text.Quoted

/-!
# Arguments of the command line

Arguments are first told apart: options, plain words, and the separator after which
everything is plain.  Long options may be shortened as long as only one fits, and may
hold their value after an equals sign.  Then the arguments are taken from left to right.
One plain word may name a file; what nobody takes is refused at the end.
-/

namespace Lisplet.CommandLine

inductive Switch where
  | help
  | selfTest
  | logLevel
  | version
deriving DecidableEq

/-- The long spellings of the switches, in the order in which they are listed.  Help has
a short one as well. -/
def spellings : List (String × Switch) := [
  ("--help", .help), ("--selftest", .selfTest), ("--log-level", .logLevel), ("--version", .version)]

def Switch.title : Switch → String
  | help => "-h/--help"
  | selfTest => "--selftest"
  | logLevel => "--log-level"
  | version => "--version"

/-- Why a command line is refused. -/
inductive UsageFault where
  | ambiguous (argument : String) (candidates : List String)
  | ignoredValue (switch : Switch) (value : String)
  | missingValue (switch : Switch)
  | unrecognized (arguments : List String)
deriving DecidableEq

def UsageFault.message : UsageFault → String
  | ambiguous argument candidates =>
    "ambiguous option: " ++ argument ++ " could match " ++ String.intercalate ", " candidates
  | ignoredValue switch value =>
    "argument " ++ switch.title ++ ": ignored explicit argument " ++ Text.quoted value
  | missingValue switch => "argument " ++ switch.title ++ ": expected one argument"
  | unrecognized arguments => "unrecognized arguments: " ++ String.intercalate " " arguments

inductive Argument where
  | plain (text : String)
  | separator
  /-- A switch, with the value after an equals sign if there is one. -/
  | option (switch : Switch) (value : Option String)
  /-- The short spelling of the help switch with an equals sign or more characters
  behind it; these are kept without the sign. -/
  | bundle (behind : List Char)
  | unknownSwitch (text : String)
deriving DecidableEq

/-- Splits a text at its first equals sign; without one there is no value. -/
def splitValue (cs : List Char) : List Char × Option String :=
  match cs.dropWhile (· != '=') with
  | _ :: value => (cs.takeWhile (· != '='), some (String.ofList value))
  | [] => (cs, none)

/-- The long spellings that go on from some characters. -/
def longSpellings (front : List Char) : List (String × Switch) :=
  spellings.filter fun entry => front.isPrefixOf entry.1.toList

/-- Whether a text is a minus sign and digits, with at most one point before the last of
them; a line feed may end it. -/
def isNegativeNumber (cs : List Char) : Bool :=
  match cs with
  | '-' :: rest =>
    let body := if rest.getLast? == some '\n' then rest.dropLast else rest
    match body.dropWhile Text.isDigit with
    | [] => !body.isEmpty
    | '.' :: fraction => !fraction.isEmpty && fraction.all Text.isDigit
    | _ => false
  | _ => false

/-- Tells an argument apart that starts with two minus signs. -/
def Argument.ofLong (argument : String) : Except UsageFault Argument :=
  let cs := argument.toList
  let (front, value) := splitValue cs
  match spellings.lookup (String.ofList front) with
  | some switch => .ok (.option switch value)
  | none =>
    match longSpellings front with
    | [(_, switch)] => .ok (.option switch value)
    | [] => .ok (if cs.contains ' ' then .plain argument else .unknownSwitch argument)
    | several => .error (.ambiguous argument (several.map (·.1)))

/-- Tells one argument apart that stands before any separator. -/
def Argument.of (argument : String) : Except UsageFault Argument :=
  match argument.toList with
  | '-' :: '-' :: _ => Argument.ofLong argument
  | ['-', 'h'] => .ok (.option .help none)
  | '-' :: 'h' :: '=' :: behind => .ok (.bundle behind)
  | '-' :: 'h' :: behind => .ok (.bundle behind)
  | '-' :: c :: cs =>
    if isNegativeNumber ('-' :: c :: cs) || (c :: cs).contains ' ' then .ok (.plain argument)
    else .ok (.unknownSwitch argument)
  | _ => .ok (.plain argument)

def Argument.ofAll : List String → Except UsageFault (List Argument)
  | [] => .ok []
  | "--" :: arguments => .ok (.separator :: arguments.map .plain)
  | argument :: arguments => do
    let first ← Argument.of argument
    let others ← Argument.ofAll arguments
    return first :: others

structure Choices where
  file : Option String
  selfTest : Bool
  logLevel : Option String
deriving DecidableEq

inductive Decision where
  | choices (choices : Choices)
  | showHelp
  | showVersion
  | refuse (fault : UsageFault)
deriving DecidableEq

/-- What has been taken so far: the choices, whether the word that names a file may
still come, and the arguments that nobody takes. -/
structure Taken where
  choices : Choices
  fileOpen : Bool
  extras : List String

namespace Taken

def start : Taken := ⟨⟨none, false, none⟩, true, []⟩

def withFile (taken : Taken) (file : String) : Taken :=
  { taken with choices := { taken.choices with file := some file }, fileOpen := false }

def withExtra (taken : Taken) (argument : String) : Taken :=
  { taken with extras := taken.extras ++ [argument] }

/-- What comes of characters behind the short spelling of the help switch: each of them
has to be the same switch again. -/
def takeBundle : List Char → Decision
  | ['h'] => .showHelp
  | 'h' :: behind => takeBundle behind
  | behind => .refuse (.ignoredValue .help (String.ofList behind))

/-- The level of notes that an option gives; the separator gives none even as the value
of an option. -/
def withLogLevel (taken : Taken) (level : String) : Taken :=
  { taken with choices := { taken.choices with logLevel := some (if level = "--" then "" else level) } }

def withSelfTest (taken : Taken) : Taken :=
  { taken with choices := { taken.choices with selfTest := true } }

/-- Takes the arguments from left to right.  A separator on either side of the word that
names a file goes with it. -/
def takeAll (taken : Taken) : List Argument → Decision
  | [] => if taken.extras.isEmpty then .choices taken.choices else .refuse (.unrecognized taken.extras)
  | .unknownSwitch text :: rest => (taken.withExtra text).takeAll rest
  | .bundle behind :: _ => takeBundle behind
  | .option .logLevel (some value) :: rest => (taken.withLogLevel value).takeAll rest
  | .option .logLevel none :: .plain value :: rest => (taken.withLogLevel value).takeAll rest
  | .option .logLevel none :: _ => .refuse (.missingValue .logLevel)
  | .option switch (some value) :: _ => .refuse (.ignoredValue switch value)
  | .option .help none :: _ => .showHelp
  | .option .version none :: _ => .showVersion
  | .option .selfTest none :: rest => taken.withSelfTest.takeAll rest
  | .plain text :: rest =>
    if taken.fileOpen then
      match rest with
      | .separator :: rest => (taken.withFile text).takeAll rest
      | rest => (taken.withFile text).takeAll rest
    else (taken.withExtra text).takeAll rest
  | .separator :: rest =>
    if taken.fileOpen then
      match rest with
      | .plain text :: rest => (taken.withFile text).takeAll rest
      | rest => taken.takeAll rest
    else (taken.withExtra "--").takeAll rest

end Taken

def decide (arguments : List String) : Decision :=
  match Argument.ofAll arguments with
  | .error fault => .refuse fault
  | .ok arguments => Taken.start.takeAll arguments

end Lisplet.CommandLine
