import ChangeWatch.Watch.Loop

/-!
# A watch with its threads

A `Running` is a watch and the threads that work on it.  What is done to it from
outside is done to the end before anything else: a call of `start` or `stop`
runs on a thread of its own, and then all threads go on until each of them is
done or waits.  `fuel` bounds the number of steps.
-/

namespace ChangeWatch

/-- A watch and the threads that work on it. -/
abbrev Running := Pool Watch Job

namespace Running

variable (behaviour : Behaviour Wish) (fuel : Nat)

/-- A watch on which nothing works yet. -/
def ofWatch (w : Watch) : Running := ⟨w, []⟩

/-- Lets all threads go on until each is done or waits. -/
def settle (r : Running) : Running :=
  (Pool.settle (Watch.machine behaviour) fuel r).tidy

def start (r : Running) : Running :=
  r.call (Watch.machine behaviour) fuel [.start .owner]

/-- Calls `stop`, as dropping the watch does too. -/
def stop (r : Running) : Running :=
  r.call (Watch.machine behaviour) fuel [.stop]

def stopMany (n : Nat) (r : Running) : Running :=
  settle behaviour fuel { r with threads := r.threads ++ List.replicate n [.stop] }

/-- The service changed from outside. -/
def withService (f : Service → Service) (r : Running) : Running :=
  settle behaviour fuel (r.modify fun w => w.withService (f w.ground.service))

/-- Runs the loops that the executor parked, each on a thread of its own. -/
def runParked (r : Running) : Running :=
  let (jobs, executor) := r.state.executor.takeParked
  settle behaviour fuel
    ⟨{ r.state with executor }, r.threads ++ jobs.map fun job => [job]⟩

/-- What is next at the desk, as the given choice of its scheduler has it. -/
def due? (choose : Scheduler Dispatch → Option (Dispatch × Scheduler Dispatch)) (w : Watch) :
    Option (List Job × Watch) :=
  (w.desk.due? choose).map fun (jobs, desk) => (jobs.map .desk, { w with desk })

/-- Lets time pass up to a point: what falls due is dispatched, each at its own
time. -/
def elapse (time : Nat) (r : Running) : Running :=
  (r.drain (Watch.machine behaviour) (due? fun s => s.next? time) fuel fuel).modify fun w =>
    { w with desk := w.desk.moveTo time }

/-- Dispatches all that waits, without letting time pass. -/
def runAll (r : Running) : Running :=
  let (jobs, desk) := r.state.desk.takeAll
  { r with state := { r.state with desk } }.call (Watch.machine behaviour) fuel (jobs.map .desk)

/-- Lets time pass until the journal has enough in it, or nothing waits. -/
def await (enough : Journal → Bool) (r : Running) : Running :=
  r.drain (Watch.machine behaviour)
    (fun w => if enough w.desk.journal then none else due? (fun s => s.nextEver?) w) fuel fuel

/-- Acts on the watched disk, of which the backend hears when they are done. -/
def act (acts : List Disk.Act) (r : Running) : Running :=
  let (disk, changes) := r.state.ground.disk.actsWithChanges acts
  settle behaviour fuel
    (r.modify fun w => w.withGround ⟨w.ground.service.witness disk changes, disk⟩)

end Running

end ChangeWatch
