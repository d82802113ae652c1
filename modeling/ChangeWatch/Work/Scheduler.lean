import ChangeWatch.Error

/-!
# Work for later

A `Scheduler` is given tasks with delays.  It keeps those that have to wait in
the order in which they came, each with the time at which it is due, and has a
clock of its own that moves only when it is told to.  The next task is the one
due first, of equals the one that came first (`earliest?`).

Shut down, it forgets what it has and refuses everything.
-/

namespace ChangeWatch

/-- How a scheduler treats what it is given. -/
inductive Policy where
  /-- Tasks wait until they are due. -/
  | queueing
  /-- Tasks wait until they are due, and a delay beyond what seconds in 63 bits
  can count is refused, whatever the time is (`Scheduler.inRange`). -/
  | ranged
  | immediate
  | refusing (e : WatchError)
  deriving DecidableEq, Repr

/-- A task and the time at which it is due, in nanoseconds. -/
structure Waiting (α : Type) where
  due : Nat
  task : α
  deriving DecidableEq, Repr

inductive Scheduled where
  | queued
  | immediate
  | refused (e : WatchError)
  deriving DecidableEq, Repr

structure Scheduler (α : Type) where
  policy : Policy
  /-- The time, in nanoseconds. -/
  now : Nat
  /-- What is not yet run, the earliest accepted first. -/
  waiting : List (Waiting α)
  shutDown : Bool
  /-- The delays of all tasks accepted so far. -/
  delays : List Duration
  shutdowns : Nat
  deriving DecidableEq, Repr

namespace Scheduler

variable {α : Type}

def new (policy : Policy) : Scheduler α := ⟨policy, 0, [], false, [], 0⟩

/-- How many tasks were accepted so far. -/
def accepted (s : Scheduler α) : Nat :=
  s.delays.length

/-- A task put where it waits. -/
def enqueue (s : Scheduler α) (delay : Duration) (task : α) : Scheduler α :=
  { s with
    waiting := s.waiting ++ [⟨s.now + delay.nanoseconds, task⟩]
    delays := s.delays ++ [delay] }

/-- The number of seconds to which no clock counts, two to the power of 63. -/
def clockLimit : Nat := 9223372036854775808

/-- Whether a clock that starts at zero can count to the end of a delay.  What the clock has
counted already is left out, so a delay that ends past the limit only because of the present
time is not refused. -/
def inRange (delay : Duration) : Bool :=
  delay.seconds < clockLimit

def schedule (s : Scheduler α) (delay : Duration) (task : α) : Scheduled × Scheduler α :=
  if s.shutDown then (.refused .schedulerShutDown, s)
  else
    match s.policy with
    | .queueing => (.queued, s.enqueue delay task)
    | .ranged =>
      if inRange delay then (.queued, s.enqueue delay task)
      else (.refused (.delayOutOfRange delay), s)
    | .immediate => (.immediate, { s with delays := s.delays ++ [delay] })
    | .refusing e => (.refused e, s)

/-- Shuts the scheduler down: what waits is dropped. -/
def shutdown (s : Scheduler α) : Scheduler α :=
  { s with waiting := [], shutDown := true, shutdowns := s.shutdowns + 1 }

/-- What is due first, and the rest. -/
def earliest? : List (Waiting α) → Option (Waiting α × List (Waiting α))
  | [] => none
  | w :: ws =>
    match earliest? ws with
    | none => some (w, [])
    | some (v, rest) => if w.due ≤ v.due then some (w, ws) else some (v, w :: rest)

/-- The task due first, unless it is due only after a time; the clock moves on
to when it is due. -/
def next? (s : Scheduler α) (limit : Nat) : Option (α × Scheduler α) :=
  match earliest? s.waiting with
  | none => none
  | some (w, rest) =>
    if w.due ≤ limit then some (w.task, { s with now := max s.now w.due, waiting := rest })
    else none

/-- The task due first, however late. -/
def nextEver? (s : Scheduler α) : Option (α × Scheduler α) :=
  match earliest? s.waiting with
  | none => none
  | some (w, rest) => some (w.task, { s with now := max s.now w.due, waiting := rest })

/-- The tasks due first, at most so many, in the order in which they are run. -/
def takeFirst : Nat → Scheduler α → List α × Scheduler α
  | 0, s => ([], s)
  | n + 1, s =>
    match s.nextEver? with
    | none => ([], s)
    | some (task, s) =>
      let (tasks, s) := takeFirst n s
      (task :: tasks, s)

/-- The tasks due up to a time, at most so many, in the order in which they are
run. -/
def takeUpTo (time : Nat) : Nat → Scheduler α → List α × Scheduler α
  | 0, s => ([], s)
  | n + 1, s =>
    match s.next? time with
    | none => ([], s)
    | some (task, s) =>
      let (tasks, s) := takeUpTo time n s
      (task :: tasks, s)

/-- All that waits, in the order in which it came. -/
def takeAll (s : Scheduler α) : List α × Scheduler α :=
  (s.waiting.map (·.task), { s with waiting := [] })

def moveTo (s : Scheduler α) (time : Nat) : Scheduler α :=
  { s with now := max s.now time }

/-- Lets time pass up to a point, and yields what falls due. -/
def elapse (s : Scheduler α) (time : Nat) : List α × Scheduler α :=
  let (tasks, s) := takeUpTo time s.waiting.length s
  (tasks, s.moveTo time)

end Scheduler

end ChangeWatch
