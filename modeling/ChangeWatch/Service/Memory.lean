import ChangeWatch.Disk.Edit
import ChangeWatch.Service.Notifying

/-!
# A service in memory

It stands in for a real one: batches are put into its queue by hand, and it
keeps count of what was asked of it.  `Faults` say in what it is to fail; with
none it answers as a real service does.
-/

namespace ChangeWatch

/-- In what a service in memory is to fail. -/
structure Faults where
  /-- Directories that are refused, each with the error. -/
  refused : List (Path × WatchError)
  /-- Whether every key counts as invalid. -/
  stale : Bool
  /-- The error that closing ends in. -/
  closeError : Option WatchError
  /-- Whether a taker is told of the closing by a complaint of the backend. -/
  closedAsFailure : Bool
  /-- Directories that disappear as soon as they are registered. -/
  vanishing : List Path
  deriving DecidableEq, Repr

def Faults.none : Faults := ⟨[], false, .none, false, []⟩

structure MemoryService where
  faults : Faults
  /-- The registered directories and their keys, the earliest first. -/
  dirs : List (Path × Key)
  nextKey : Nat
  queue : List Signal
  closed : Bool
  takes : Nat
  closes : Nat
  /-- The registrations accepted so far. -/
  accepted : List (Path × List EventKind)
  resets : List Key
  deriving DecidableEq, Repr

namespace MemoryService

def new (faults : Faults) : MemoryService := ⟨faults, [], 0, [], false, 0, 0, [], []⟩

def keyOf? (s : MemoryService) (dir : Path) : Option Key :=
  (s.dirs.find? fun entry => entry.1.same dir).map (·.2)

def dirOf? (s : MemoryService) (key : Key) : Option Path :=
  (s.dirs.find? fun entry => entry.2 = key).map (·.1)

/-- The disk once a directory has been registered. -/
def afterRegister (s : MemoryService) (disk : Disk) (dir : Path) : Disk :=
  if s.faults.vanishing.any (Path.same dir) then (disk.remove dir).2 else disk

def register (s : MemoryService) (disk : Disk) (dir : Path) (kinds : List EventKind) :
    Except WatchError Key × MemoryService × Disk :=
  if s.closed then (.error .closed, s, disk)
  else
    match s.faults.refused.find? fun entry => entry.1.same dir with
    | some (_, e) => (.error e, s, disk)
    | none =>
      let counted := { s with accepted := s.accepted ++ [(dir, kinds)] }
      match s.keyOf? dir with
      | some key => (.ok key, counted, s.afterRegister disk dir)
      | none =>
        let key : Key := ⟨s.nextKey⟩
        (.ok key, { counted with dirs := s.dirs ++ [(dir, key)], nextKey := s.nextKey + 1 },
          s.afterRegister disk dir)

def put (s : MemoryService) (signal : Signal) : MemoryService :=
  { s with queue := s.queue ++ [signal] }

/-- How a taker is told that the service is closed. -/
def closedTaken (s : MemoryService) : Taken :=
  if s.faults.closedAsFailure then .failure ⟨.generic "closed", []⟩ else .closed

/-- The first step of `take`, which is counted. -/
def enter (s : MemoryService) : Option Taken × MemoryService :=
  (if s.closed then some s.closedTaken else none, { s with takes := s.takes + 1 })

/-- The second step of `take`: the front of the queue, if there is one. -/
def receive (s : MemoryService) : Option (Taken × MemoryService) :=
  match s.queue with
  | [] => none
  | .closed :: rest => some (s.closedTaken, { s with queue := rest })
  | signal :: rest => some (signal.taken, { s with queue := rest })

def reset (s : MemoryService) (key : Key) : Bool × MemoryService :=
  (!s.closed && !s.faults.stale, { s with resets := s.resets ++ [key] })

/-- One step of closing, and the step after it; the call is counted. -/
def closeStep (s : MemoryService) : CloseStep → MemoryService × Option CloseStep
  | .mark =>
    ({ s with closed := true, closes := s.closes + 1 }, if s.closed then none else some .signal)
  | .signal => (s.put .closed, none)
  | .release | .forget => (s, none)

end MemoryService

end ChangeWatch
