import Lisplet.Decimal.Numeral
import Lisplet.Text.Quoted
import Lisplet.Text.Uppercase
import Lisplet.Token

/-!
# Settings

What the user sets through environment variables: the two prompts, the room for nested
calls and the level from which on notes are logged.
-/

namespace Lisplet

structure Settings where
  prompt : String
  continuation : String
  /-- The room for nested calls; `none` leaves the default. -/
  limit : Option Nat
  logLevel : String
deriving DecidableEq

/-- Why a variable that should hold a positive integer is refused. -/
inductive SettingsFault where
  | notInteger (name raw : String)
  | notPositive (name : String) (value : Int)
deriving DecidableEq

def SettingsFault.message : SettingsFault → String
  | notInteger name raw => name ++ " must be an integer, got " ++ Text.quoted raw
  | notPositive name value => name ++ " must be positive, got " ++ toString value

namespace Settings

/-- The variables of the environment with their values. -/
abbrev Environment := List (String × String)

def promptVariable : String := "LISPFLAT_PROMPT"

def continuationVariable : String := "LISPFLAT_CONTINUATION_PROMPT"

def limitVariable : String := "LISPFLAT_RECURSION_LIMIT"

def logLevelVariable : String := "LISPFLAT_LOG_LEVEL"

def defaultPrompt : String := "lispflat> "

def defaultContinuation : String := "... "

def defaultLogLevel : String := "WARNING"

/-- The positive integer that a variable holds; `none` when it is absent or blank. -/
def positive? (environment : Environment) (name : String) : Except SettingsFault (Option Nat) :=
  match environment.lookup name with
  | none => .ok none
  | some raw =>
    if Text.isAllBlank raw then .ok none
    else
      match Decimal.integer? (Text.trimBlanks raw.toList) with
      | none => .error (.notInteger name raw)
      | some value =>
        if 0 < value then .ok (some value.toNat) else .error (.notPositive name value)

def load (environment : Environment) : Except SettingsFault Settings := do
  let limit ← positive? environment limitVariable
  return {
    prompt := (environment.lookup promptVariable).getD defaultPrompt
    continuation := (environment.lookup continuationVariable).getD defaultContinuation
    limit
    logLevel := Text.uppercase ((environment.lookup logLevelVariable).getD defaultLogLevel) }

end Settings

end Lisplet
