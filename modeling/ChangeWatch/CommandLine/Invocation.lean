import ChangeWatch.Event.Kind
import ChangeWatch.Path

/-!
# What a command line asks for

There are three commands: to watch one file, to watch a directory, and to show
the effective settings.  Six options go with each of them, and may stand
before the command or behind it.
-/

namespace ChangeWatch

/-- What is to be done. -/
inductive Command where
  | file (path : Path)
  | dir (path : Path) (depth : Option Nat)
  | config
  deriving DecidableEq, Repr

structure Invocation where
  command : Command
  config : Option Path
  logFile : Option Path
  /-- For how long modify changes are gathered, in milliseconds. -/
  delayMs : Option Nat
  events : List EventKind
  json : Bool
  verbose : Bool
  deriving DecidableEq, Repr

/-- Why a command line leads to no command. -/
inductive Refusal where
  | help
  | version
  /-- Nothing was said at all. -/
  | nothingSaid
  | noCommand
  | unknownCommand
  | unknownArgument
  | missingArgument
  /-- An option lacks its value, or the value of a path is empty. -/
  | noValue
  /-- A value that is not of the sort wanted. -/
  | badValue
  /-- A value that is no text where a text is wanted. -/
  | notText
  | repeated
  | unwantedValue
  deriving DecidableEq, Repr

/-- Whether a refusal only shows what was asked for. -/
def Refusal.isAnswer : Refusal → Bool
  | .help | .version => true
  | _ => false

def Refusal.exitCode (r : Refusal) : Nat :=
  if r.isAnswer then 0 else 2

end ChangeWatch
