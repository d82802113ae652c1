import ChangeWatch.Service.Memory

/-!
# Watch services

What the watch loop blocks on: directories are registered, batches taken and
acknowledged, and closing wakes the taker.  There are two services, one on
top of a notification backend and one in memory; both are driven by the same
steps.

A `Site` is where directories are registered, and says no more than that a service
may refuse them and the disk may look different afterwards.  A `Ground` is the site
of a running watch, a service and the disk that it watches.
-/

namespace ChangeWatch

/-- A watch service. -/
inductive Service where
  | notifying (s : NotifyingService)
  | memory (s : MemoryService)
  deriving DecidableEq, Repr

namespace Service

/-- Registers a directory; a service in memory may touch the disk on the way. -/
def register (disk : Disk) (dir : Path) (kinds : List EventKind) :
    Service → Except WatchError Key × Service × Disk
  | .notifying s =>
    let (r, s) := s.register disk dir kinds
    (r, .notifying s, disk)
  | .memory s =>
    let (r, s, disk) := s.register disk dir kinds
    (r, .memory s, disk)

/-- The service after changes on the disk, of which a service in memory hears
nothing. -/
def witness (disk : Disk) (changes : List Change) : Service → Service
  | .notifying s => .notifying (s.witness disk changes)
  | .memory s => .memory s

/-- The first step of `take`. -/
def enter : Service → Option Taken × Service
  | .notifying s => (s.enter, .notifying s)
  | .memory s =>
    let (r, s) := s.enter
    (r, .memory s)

/-- The second step of `take`; nothing while the queue is empty. -/
def receive : Service → Option (Taken × Service)
  | .notifying s => s.receive.map fun (t, s) => (t, .notifying s)
  | .memory s => s.receive.map fun (t, s) => (t, .memory s)

/-- A call of `take` that does not wait. -/
def take (s : Service) : Option Taken × Service :=
  match s.enter with
  | (some t, s) => (some t, s)
  | (none, s) =>
    match s.receive with
    | some (t, s) => (some t, s)
    | none => (none, s)

def reset (disk : Disk) (key : Key) : Service → Bool × Service
  | .notifying s =>
    let (r, s) := s.reset disk key
    (r, .notifying s)
  | .memory s =>
    let (r, s) := s.reset key
    (r, .memory s)

def closeStep (step : CloseStep) : Service → Service × Option CloseStep
  | .notifying s =>
    let (s, next) := s.closeStep step
    (.notifying s, next)
  | .memory s =>
    let (s, next) := s.closeStep step
    (.memory s, next)

/-- Closes a service by the steps that are left, of which there are at most so
many. -/
def closeFrom : Nat → Option CloseStep → Service → Service
  | n + 1, some step, s =>
    let (s, next) := s.closeStep step
    closeFrom n next s
  | _, _, s => s

def close (s : Service) : Service :=
  closeFrom 4 (some .mark) s

/-- What a call of `close` ends in. -/
def closeError? : Service → Option WatchError
  | .notifying _ => none
  | .memory s => s.faults.closeError

def keyOf? (dir : Path) : Service → Option Key
  | .notifying s => s.registry.keyOf? dir
  | .memory s => s.keyOf? dir

def isClosed : Service → Bool
  | .notifying s => s.closed
  | .memory s => s.closed

end Service

/-! ### Sites -/

/-- A disk to look at, and a service to register directories with. -/
class Site (σ : Type) where
  disk : σ → Disk
  register : Path → List EventKind → σ → Except WatchError Key × σ

/-- A watch service and the disk that it watches. -/
structure Ground where
  service : Service
  disk : Disk
  deriving DecidableEq, Repr

instance : Site Ground where
  disk g := g.disk
  register dir kinds g :=
    let (r, service, disk) := g.service.register g.disk dir kinds
    (r, ⟨service, disk⟩)

end ChangeWatch
