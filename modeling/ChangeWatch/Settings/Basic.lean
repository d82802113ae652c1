import ChangeWatch.Duration
import ChangeWatch.Toml.Value

/-!
# Settings of a watch

How long modify events are gathered, how deep a directory is watched, and two
options that are handed on to the notification backend.  A text that is to say
them may have a `SettingsProblem`, which is told in a message.
-/

namespace ChangeWatch

/-- The delay of a watch that sets none. -/
def defaultDelay : Duration := .ofMillis 200

structure Settings where
  /-- For how many milliseconds modify events of one name are gathered; zero
  delivers them as they come. -/
  delayMs : Nat
  /-- How many levels of directories below the root are watched. -/
  maxDepth : Nat
  /-- How often a backend that polls looks. -/
  pollIntervalMs : Option Nat
  /-- Whether a backend that polls compares contents. -/
  compareContents : Bool
  deriving DecidableEq, Repr

/-- Options handed on to the notification backend. -/
structure BackendOptions where
  pollMillis : Nat
  compareContents : Bool
  deriving DecidableEq, Repr

/-- A backend that polls looks every half minute, at times alone. -/
def BackendOptions.default : BackendOptions := ⟨30000, false⟩

namespace Settings

def default : Settings := ⟨defaultDelay.millis, 0, none, false⟩

def delay (s : Settings) : Duration :=
  .ofMillis s.delayMs

def backendOptions (s : Settings) : BackendOptions :=
  ⟨s.pollIntervalMs.getD BackendOptions.default.pollMillis, s.compareContents⟩

end Settings

/-! ### Problems -/

/-- What is wrong with a text that is to say settings. -/
inductive SettingsProblem where
  | malformed
  | unknownField (name : List Char)
  /-- A value of another sort than the field wants. -/
  | wrongSort (found : Toml.Found) (wanted : String)
  /-- An integer below zero. -/
  | negative (n : Int) (wanted : String)
  deriving DecidableEq, Repr

namespace SettingsProblem

def message : SettingsProblem → String
  | .malformed => "the text is not a well-formed document"
  | .unknownField name =>
    "unknown field `" ++ String.ofList name ++
      "`, expected one of `delay_ms`, `max_depth`, `poll_interval_ms`, `compare_contents`"
  | .wrongSort found wanted => "invalid type: " ++ found.describe ++ ", expected " ++ wanted
  | .negative n wanted => "invalid value: integer `" ++ toString n ++ "`, expected " ++ wanted

end SettingsProblem

end ChangeWatch
