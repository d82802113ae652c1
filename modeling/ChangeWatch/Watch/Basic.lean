import ChangeWatch.Dispatch.Desk
import ChangeWatch.Settings.Basic
import ChangeWatch.Strategy.Basic
import ChangeWatch.Work.Executor

/-!
# A watch

A `Watch` puts the parts together: a strategy, callbacks by kind, a service and
its disk, a desk where callbacks are run, and an executor for the loop.  It is
started at most once and stopped once and for all; the two flags are all that
there is of a life cycle.

The kinds to register are those that have a callback, and after them whatever
else the strategy needs.  Modify changes are gathered when there is a debouncer
and the delay is not zero.
-/

namespace ChangeWatch

/-- What a callback of a watch may ask for. -/
inductive Wish where
  | start
  | stop
  deriving DecidableEq, Repr

/-- Why a directory tree is walked. -/
inductive Purpose where
  /-- The watch is being started. -/
  | start (caller : Caller)
  /-- Something appeared at a path. -/
  | pickup (event : RawEvent) (path : Path)
  deriving DecidableEq, Repr

/-- The jobs of a watch. -/
inductive Job where
  /-- Claim the start. -/
  | start (caller : Caller)
  /-- Look whether the watch was stopped before it is started. -/
  | startUnlessStopped (caller : Caller)
  | registerRoot (caller : Caller)
  /-- Give the loop to the executor. -/
  | submit (caller : Caller)
  | started (caller : Caller) (error : Option WatchError)
  /-- Claim the stop. -/
  | stop
  | close (step : CloseStep)
  /-- Note how closing the service ended. -/
  | closed
  /-- Begin the loop, unless the watch is stopped. -/
  | run
  /-- Ask the service for something, unless it is closed. -/
  | take
  /-- Wait for something in the queue of the service. -/
  | receive
  /-- Find out what an event concerns. -/
  | handle (key : Key) (event : RawEvent)
  /-- Register what appeared at a path. -/
  | pickUp (count : Nat) (key : Key) (event : RawEvent) (path : Path)
  /-- Walk on. -/
  | walk (purpose : Purpose) (agenda : List DirTree.Errand) (registered : List Path)
  /-- List newly registered directories. -/
  | survey (event : RawEvent) (path : Path) (dirs found : List Path)
  /-- Hand an event, and entries found because of it, to the callback. -/
  | dispatch (event : RawEvent) (path : Path) (found : List Path)
  /-- Hand an entry that was there already to a callback. -/
  | announce (callback : Callback) (path : Path)
  | reset (key : Key)
  /-- Go on with the loop, unless the watch is stopped. -/
  | recheck
  | desk (job : Desk.Job Wish)
  deriving DecidableEq, Repr

structure Watch where
  strategy : Strategy
  handlers : Handlers
  kinds : List EventKind
  delay : Duration
  /-- What is asked of the notification backend. -/
  backend : BackendOptions
  ground : Ground
  executor : Executor Job
  desk : Desk
  started : Bool
  stopped : Bool
  /-- How many events were handled. -/
  handled : Nat

namespace Watch

/-- The parts of a watch that may be chosen. -/
structure Options where
  delay : Duration
  backend : BackendOptions
  /-- Where the loop runs; on a thread of its own if not said. -/
  manner : Option Manner
  /-- Where gathered changes wait; on a timer if not said. -/
  policy : Option Policy
  /-- What is listened to; a fresh notification backend if not said. -/
  service : Option Service
  deriving DecidableEq, Repr

def Options.default : Options := ⟨defaultDelay, .default, none, none, none⟩

/-- The kinds to register: those with a callback, then what else is needed. -/
def allKinds (handlers : Handlers) (required : List EventKind) : List EventKind :=
  required.foldl (fun kinds k => if k ∈ kinds then kinds else kinds ++ [k]) handlers.kinds

/-- The debouncer of a watch, if it has one. -/
def debouncerFor (delay : Duration) : Option Policy → Option Debouncer
  | some policy => some (.new delay policy)
  | none => if delay.isZero then none else some (.new delay .ranged)

/-- A watch that is not yet started.  Unless they are given, a notification backend and a
timer are made for it; making them cannot fail here, so that the lack of any callback is the
only error. -/
def new (strategy : Strategy) (handlers : Handlers) (options : Options) (disk : Disk) :
    Except WatchError Watch :=
  if handlers.isEmpty then .error .noCallback
  else
    .ok {
      strategy, handlers
      kinds := allKinds handlers strategy.required
      delay := options.delay
      backend := options.backend
      ground := ⟨options.service.getD (.notifying .new), disk⟩
      executor := .new (options.manner.getD .ownThread)
      desk := ⟨debouncerFor options.delay options.policy, .empty⟩
      started := false, stopped := false, handled := 0 }

def root (w : Watch) : Path :=
  w.strategy.target.root

def isRunning (w : Watch) : Bool :=
  w.started && !w.stopped

/-- How many keys wait for the dispatch of a modify change. -/
def pendingModifies (w : Watch) : Nat :=
  w.desk.pendingCount

/-- Whether changes of a kind are gathered. -/
def gathers (w : Watch) (kind : EventKind) : Bool :=
  w.desk.debouncer.isSome && kind = .modify && !w.delay.isZero

def describe (w : Watch) : String :=
  "PathWatcher \x7b root: " ++ w.root.quoted ++ ", handlers: " ++ w.handlers.describe ++
    ", delay: " ++ w.delay.brief ++ ", running: " ++ (if w.isRunning then "true" else "false") ++
    " \x7d"

end Watch

end ChangeWatch
