import ChangeWatch.Service.Backend
import ChangeWatch.Service.Registry

/-!
# The service behind which a notification backend stands

Registering a directory asks the backend to watch it; what the backend
reports is translated at once, by the registrations of that moment, and waits
in a queue.  A registration is written down before the backend is asked; when the
backend refuses a directory that had no registration, it is struck out again.
That order serves reports that come while the backend is still being asked.
Here registering is a single step (`register`), so no report comes in between and
nothing in the model can tell this order from another.

`take` is two steps, and so is written as two functions: a look at the closed
flag (`enter`), then the front of the queue (`receive`), which may have to be
waited for.  `close` is four steps (`CloseStep`): set the flag, let go of the
backend, forget the registrations, and queue a signal that wakes a waiting
taker.
-/

namespace ChangeWatch

/-- The steps of closing a service, in order. -/
inductive CloseStep where
  /-- Set the closed flag; a service closed before needs no further step. -/
  | mark
  | release
  | forget
  /-- Queue the signal that the service is closed. -/
  | signal
  deriving DecidableEq, Repr

/-- A service on top of a notification backend. -/
structure NotifyingService where
  /-- The backend, as long as it is held. -/
  backend : Option Backend
  registry : Registry
  queue : List Signal
  closed : Bool
  deriving DecidableEq, Repr

namespace NotifyingService

def new : NotifyingService := ⟨some .new, .empty, [], false⟩

/-- Registers a directory, or updates its kinds, in one step: whether the registration is
written down before or after the backend is asked cannot be observed here. -/
def register (s : NotifyingService) (disk : Disk) (dir : Path) (kinds : List EventKind) :
    Except WatchError Key × NotifyingService :=
  match s.backend with
  | none => (.error .closed, s)
  | some backend =>
    let existing := s.registry.keyOf? dir
    let key := existing.getD ⟨s.registry.nextKey⟩
    let counted :=
      if existing.isSome then s.registry
      else { s.registry with nextKey := s.registry.nextKey + 1 }
    -- written down first, and struck out again if the backend refuses
    let written := counted.insert dir ⟨key, kinds⟩
    match backend.watch disk dir with
    | .ok backend => (.ok key, { s with backend := some backend, registry := written })
    | .error e =>
      let kept := if existing.isSome then written else (written.eraseDir dir).eraseKey key
      (.error (.backend e), { s with registry := kept })

/-- The backend reports; a service that let go of it hears nothing. -/
def hear (s : NotifyingService) (disk : Disk) (report : Report) : NotifyingService :=
  if s.backend.isSome then
    { s with queue := s.queue ++ (s.registry.translate disk report).map .batch }
  else s

def hearFailure (s : NotifyingService) (e : BackendError) : NotifyingService :=
  if s.backend.isSome then { s with queue := s.queue ++ [.failure e] } else s

/-- The backend witnesses changes on the disk and reports them. -/
def witness (s : NotifyingService) (disk : Disk) (changes : List Change) : NotifyingService :=
  match s.backend with
  | none => s
  | some backend =>
    let (reports, backend) := backend.witness changes
    reports.foldl (fun s r => s.hear disk r) { s with backend := some backend }

/-- The first step of `take`: a closed service yields nothing but that. -/
def enter (s : NotifyingService) : Option Taken :=
  if s.closed then some .closed else none

/-- The second step of `take`: the front of the queue, if there is one. -/
def receive (s : NotifyingService) : Option (Taken × NotifyingService) :=
  match s.queue with
  | [] => none
  | signal :: rest => some (signal.taken, { s with queue := rest })

/-- Acknowledges a batch; false once the key is no longer valid.  A registration
whose directory is gone is cancelled. -/
def reset (s : NotifyingService) (disk : Disk) (key : Key) : Bool × NotifyingService :=
  if s.closed then (false, s)
  else
    match s.registry.dirOf? key with
    | none => (false, s)
    | some dir =>
      if disk.isDir dir then (true, s)
      else
        (false, { s with
          registry := (s.registry.eraseKey key).eraseDirOf dir key
          backend := s.backend.map fun b => b.unwatch disk dir })

def closeStep (s : NotifyingService) : CloseStep → NotifyingService × Option CloseStep
  | .mark => ({ s with closed := true }, if s.closed then none else some .release)
  | .release => ({ s with backend := none }, some .forget)
  | .forget => ({ s with registry := s.registry.clear }, some .signal)
  | .signal => ({ s with queue := s.queue ++ [.closed] }, none)

end NotifyingService

end ChangeWatch
