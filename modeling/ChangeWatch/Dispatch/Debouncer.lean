import ChangeWatch.Dispatch.Journal
import ChangeWatch.Work.Scheduler

/-!
# Gathering changes by key

The first change offered under a key opens a window: it is given to a
scheduler and the key is pending until it is run.  What is offered under a
pending key is dropped, so of all changes in a window the first is the one that
is dispatched, when the window closes.

An offer is made of two steps.  `open?` makes the key pending; `commit`, done
under a lock, asks the scheduler, and takes the key back when the debouncer is
shut down or the scheduler refuses.  `begin` is the moment at which a dispatch
is taken up: the key is free again before the callback runs.  `shutdown` is one
step under the same lock.

A scheduler that runs things at once does so inside `commit`, so that the lock
stays held meanwhile (`locked`).
-/

namespace ChangeWatch

/-- A change to be dispatched once its window closes. -/
structure Dispatch where
  key : String
  context : Context
  callback : Callback
  deriving DecidableEq, Repr

/-- A debouncer and its scheduler. -/
structure Debouncer where
  delay : Duration
  scheduler : Scheduler Dispatch
  /-- The keys whose window is open. -/
  pending : List String
  /-- Whether the lock is held beyond a step. -/
  locked : Bool
  shutDown : Bool
  deriving DecidableEq, Repr

/-- What the scheduler made of a dispatch. -/
inductive Commitment where
  | accepted
  /-- It is to be run at once, under the lock. -/
  | immediate
  /-- It is dropped, which may be worth a warning. -/
  | declined (warning : Option Warning)
  deriving DecidableEq, Repr

namespace Debouncer

def new (delay : Duration) (policy : Policy) : Debouncer :=
  ⟨delay, .new policy, [], false, false⟩

/-- Whether the window of a key is open. -/
def isPending (d : Debouncer) (key : String) : Bool :=
  key ∈ d.pending

/-- Opens the window of a key, unless it is open. -/
def open? (d : Debouncer) (key : String) : Option Debouncer :=
  if key ∈ d.pending then none else some { d with pending := d.pending ++ [key] }

def release (d : Debouncer) (key : String) : Debouncer :=
  { d with pending := d.pending.filter (· ≠ key) }

def commit (d : Debouncer) (dispatch : Dispatch) : Commitment × Debouncer :=
  if d.shutDown then (.declined none, d.release dispatch.key)
  else
    match d.scheduler.schedule d.delay dispatch with
    | (.queued, s) => (.accepted, { d with scheduler := s })
    | (.immediate, s) => (.immediate, { d with scheduler := s, locked := true })
    | (.refused .schedulerShutDown, s) =>
      (.declined none, { d with scheduler := s }.release dispatch.key)
    | (.refused _, s) =>
      (.declined (some .unscheduled), { d with scheduler := s }.release dispatch.key)

def begin (d : Debouncer) (dispatch : Dispatch) : Debouncer :=
  d.release dispatch.key

def unlock (d : Debouncer) : Debouncer :=
  { d with locked := false }

def shutdown (d : Debouncer) : Debouncer :=
  if d.shutDown then d
  else { d with shutDown := true, scheduler := d.scheduler.shutdown, pending := [] }

end Debouncer

end ChangeWatch
