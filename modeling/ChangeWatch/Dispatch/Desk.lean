import ChangeWatch.Dispatch.Debouncer
import ChangeWatch.Work.Pool

/-!
# Running callbacks, at once or later

A `Desk` is where callbacks are run: it has a debouncer, if changes are to be
gathered at all, and keeps the journal.  Its work is cut into jobs, each one
step of a thread, so that offers, dispatches and a shutdown may come in between
one another.

What a callback asks for is left to those who use the desk (`Job.request`).  A
desk on its own, `Desk.machine`, grants further offers and a shutdown.
-/

namespace ChangeWatch

/-- Where callbacks are run. -/
structure Desk where
  debouncer : Option Debouncer
  journal : Journal
  deriving DecidableEq, Repr

namespace Desk

/-- The jobs of a desk, where callbacks ask for things of type `ρ`. -/
inductive Job (ρ : Type) where
  /-- Run a callback, with the warning to give if it panics. -/
  | call (callback : Callback) (context : Context) (onPanic : Warning)
  /-- Grant what a callback asked for. -/
  | request (r : ρ) (context : Context)
  | warn (w : Warning)
  /-- Open the window of a dispatch. -/
  | offer (d : Dispatch) (caller : Caller)
  /-- Give a dispatch to the scheduler. -/
  | commit (d : Dispatch) (caller : Caller)
  | answer (key : String) (accepted : Bool) (caller : Caller)
  | begin (d : Dispatch)
  | unlock
  | shutdown
  deriving DecidableEq, Repr

variable {ρ : Type}

/-- What follows a callback. -/
def aftermath (reaction : Reaction ρ) (context : Context) (onPanic : Warning) : List (Job ρ) :=
  reaction.requests.map (.request · context) ++ if reaction.panics then [.warn onPanic] else []

/-- What follows an attempt to give a dispatch to the scheduler. -/
def afterCommit (d : Dispatch) (caller : Caller) : Commitment → List (Job ρ)
  | .accepted => [.answer d.key true caller]
  | .immediate => [.begin d, .unlock, .answer d.key true caller]
  | .declined none => [.answer d.key false caller]
  | .declined (some w) => [.warn w, .answer d.key false caller]

/-- What a job does that concerns the journal alone. -/
def record (behaviour : Behaviour ρ) (journal : Journal) : Job ρ → Journal × List (Job ρ)
  | .call c context onPanic =>
    (journal.note (.ran c context),
      aftermath (behaviour journal.notes.length c context) context onPanic)
  | .warn w => (journal.warn w, [])
  | .answer key accepted caller => (journal.note (.offered caller key accepted), [])
  | _ => (journal, [])

/-- What a job does with the debouncer, if it need not wait for the lock. -/
def operate (g : Debouncer) : Job ρ → Option (Debouncer × List (Job ρ))
  | .offer d caller =>
    match g.open? d.key with
    | none => some (g, [.answer d.key false caller])
    | some g => some (g, [.commit d caller])
  | .commit d caller =>
    if g.locked then none
    else
      let (c, g) := g.commit d
      some (g, afterCommit d caller c)
  | .begin d => some (g.begin d, [.call d.callback d.context .modifyPanicked])
  | .unlock => some (g.unlock, [])
  | .shutdown => if g.locked then none else some (g.shutdown, [])
  | _ => some (g, [])

/-- Does one job, if it need not wait.  Without a debouncer nothing is gathered
and there is nothing to shut down. -/
def perform (behaviour : Behaviour ρ) (job : Job ρ) (desk : Desk) :
    Option (Desk × List (Job ρ)) :=
  let (journal, noted) := record behaviour desk.journal job
  match desk.debouncer with
  | none => some (⟨none, journal⟩, noted)
  | some g =>
    (operate g job).map fun (g, next) => (⟨some g, journal⟩, noted ++ next)

/-! ### What is due -/

/-- The dispatch that is next, as the given choice of the scheduler has it, and
the job to take it up. -/
def due? (choose : Scheduler Dispatch → Option (Dispatch × Scheduler Dispatch)) (desk : Desk) :
    Option (List (Job ρ) × Desk) := do
  let g ← desk.debouncer
  let (d, s) ← choose g.scheduler
  some ([.begin d], { desk with debouncer := some { g with scheduler := s } })

/-- All dispatches that wait, and the jobs to take them up in the order in which
they came. -/
def takeAll (desk : Desk) : List (Job ρ) × Desk :=
  match desk.debouncer with
  | none => ([], desk)
  | some g =>
    let (ds, s) := g.scheduler.takeAll
    (ds.map .begin, { desk with debouncer := some { g with scheduler := s } })

def now (desk : Desk) : Nat :=
  desk.debouncer.elim 0 fun g => g.scheduler.now

def moveTo (time : Nat) (desk : Desk) : Desk :=
  { desk with
    debouncer := desk.debouncer.map fun g => { g with scheduler := g.scheduler.moveTo time } }

/-- How many windows are open. -/
def pendingCount (desk : Desk) : Nat :=
  desk.debouncer.elim 0 fun g => g.pending.length

/-! ### A desk on its own -/

/-- What a callback may ask of a desk on its own. -/
inductive Plea where
  /-- Offer its own change once more, under some key, for some callback. -/
  | offer (key : String) (callback : Callback)
  | shutdown
  deriving DecidableEq, Repr

/-- The job by which a plea is granted. -/
def grant (context : Context) : Plea → Job Plea
  | .offer key callback => .offer ⟨key, context, callback⟩ .callback
  | .shutdown => .shutdown

/-- The jobs of a desk on its own. -/
def machine (behaviour : Behaviour Plea) : Machine Desk (Job Plea) where
  perform
    | .request plea context, desk => some (.andThen desk [grant context plea])
    | job, desk => (perform behaviour job desk).map fun (desk, next) => .andThen desk next

/-- Lets time pass up to a point: what falls due is dispatched, each at its own
time. -/
def elapse (behaviour : Behaviour Plea) (fuel time : Nat) (p : Pool Desk (Job Plea)) :
    Pool Desk (Job Plea) :=
  (p.drain (machine behaviour) (due? fun s => s.next? time) fuel fuel).modify (moveTo time)

/-- Dispatches all that waits, without letting time pass. -/
def runAll (behaviour : Behaviour Plea) (fuel : Nat) (p : Pool Desk (Job Plea)) :
    Pool Desk (Job Plea) :=
  let (jobs, desk) := takeAll p.state
  { p with state := desk }.call (machine behaviour) fuel jobs

end Desk

end ChangeWatch
