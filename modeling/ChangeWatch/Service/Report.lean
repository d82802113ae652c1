import ChangeWatch.Error
import ChangeWatch.Event.Raw

/-!
# What the notification backend reports

A report names the paths concerned and says what happened to them.  A
renaming is reported from the old side, from the new side, for both sides in
one, or without saying which.  A report may ask for a rescan instead: some
changes were missed.
-/

namespace ChangeWatch

/-- The sides of a renaming that a report is about. -/
inductive RenameSide where
  | any
  /-- The new path. -/
  | to
  /-- The old path. -/
  | origin
  /-- The old path, then the new one. -/
  | both
  | other
  deriving DecidableEq, Repr

/-- What a report says of its paths. -/
inductive ReportKind where
  | any
  | access
  | create
  | change
  | rename (side : RenameSide)
  | remove
  | other
  deriving DecidableEq, Repr

structure Report where
  kind : ReportKind
  paths : List Path
  /-- Changes were missed. -/
  rescan : Bool
  deriving DecidableEq, Repr

/-- What waits in the queue of a service. -/
inductive Signal where
  | batch (b : Batch)
  | failure (e : BackendError)
  | closed
  deriving DecidableEq, Repr

/-- What a call of `take` comes to. -/
inductive Taken where
  | batch (b : Batch)
  | failure (e : BackendError)
  | closed
  deriving DecidableEq, Repr

/-- What is said of a call of `take` that yields no batch. -/
def Taken.refusal? : Taken → Option String
  | .batch _ => none
  | .failure e => some ("notification backend error: " ++ e.message)
  | .closed => some "watch service closed"

/-- What a signal means to the one who takes it. -/
def Signal.taken : Signal → Taken
  | .batch b => .batch b
  | .failure e => .failure e
  | .closed => .closed

end ChangeWatch
