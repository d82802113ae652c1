import ChangeWatch.Error

/-!
# Where work runs

An `Executor` is given work that takes long.  It runs it on a thread of its
own, with a name by number, or on one of a pool, which has no name; or it parks
it until it is asked to run what is parked; or it refuses it.
-/

namespace ChangeWatch

/-- What an executor does with work. -/
inductive Manner where
  | ownThread
  | pooled
  | parking
  | refusing (e : WatchError)
  deriving DecidableEq, Repr

/-- Where work was put. -/
inductive Placement where
  | thread (name : Option String)
  | parked
  deriving DecidableEq, Repr

structure Executor (α : Type) where
  manner : Manner
  spawned : Nat
  parked : List α
  deriving DecidableEq, Repr

namespace Executor

variable {α : Type}

def new (manner : Manner) : Executor α := ⟨manner, 0, []⟩

def threadName (n : Nat) : String :=
  "pathwatch-loop-" ++ Nat.repr n

/-- Gives work to the executor; placed on a thread, it runs from now on. -/
def execute (x : Executor α) (work : α) : Except WatchError Placement × Executor α :=
  match x.manner with
  | .ownThread => (.ok (.thread (some (threadName x.spawned))), { x with spawned := x.spawned + 1 })
  | .pooled => (.ok (.thread none), { x with spawned := x.spawned + 1 })
  | .parking => (.ok .parked, { x with parked := x.parked ++ [work] })
  | .refusing e => (.error e, x)

/-- What is parked, which is parked no longer. -/
def takeParked (x : Executor α) : List α × Executor α :=
  (x.parked, { x with parked := [] })

end Executor

end ChangeWatch
