/-!
# Threads that share a state

A thread is a list of jobs that are still to be done, the next one first.  A
`Machine` says what a job does to the shared state, which jobs it puts before
the rest of its thread, and which threads it starts; a job for which it has no
answer has to wait.  Every job is one indivisible step, so whatever can come
between two things that a program does must be between two jobs.

`Pool.step` takes a step of a thread of one's choice; what can happen at all is
what some sequence of choices leads to.  `Pool.settle` is one such sequence: it
always moves the first thread that can move.
-/

namespace ChangeWatch

/-- What doing a job comes to. -/
structure Done (σ ι : Type) where
  state : σ
  /-- What its thread does next, before the rest. -/
  next : List ι
  /-- Threads that it starts. -/
  spawned : List (List ι)

/-- A job that only changes the state. -/
def Done.just {σ ι : Type} (state : σ) : Done σ ι := ⟨state, [], []⟩

/-- A job that is followed by others. -/
def Done.andThen {σ ι : Type} (state : σ) (next : List ι) : Done σ ι := ⟨state, next, []⟩

/-- What jobs do; `none` for a job that has to wait. -/
structure Machine (σ ι : Type) where
  perform : ι → σ → Option (Done σ ι)

/-- A state and the threads that work on it. -/
structure Pool (σ ι : Type) where
  state : σ
  threads : List (List ι)

namespace Pool

variable {σ ι : Type}

/-- A step of the thread at an index, if it can make one. -/
def step (m : Machine σ ι) (i : Nat) (p : Pool σ ι) : Option (Pool σ ι) :=
  match p.threads[i]? with
  | some (job :: rest) =>
    -- new threads go behind the others, so that indices stay what they are
    (m.perform job p.state).map fun d =>
      ⟨d.state, p.threads.set i (d.next ++ rest) ++ d.spawned⟩
  | _ => none

def spawn (p : Pool σ ι) (jobs : List ι) : Pool σ ι :=
  { p with threads := p.threads ++ [jobs] }

/-- The pool with its state changed from outside. -/
def modify (p : Pool σ ι) (f : σ → σ) : Pool σ ι :=
  { p with state := f p.state }

/-- The pool without the threads that have come to their end. -/
def tidy (p : Pool σ ι) : Pool σ ι :=
  { p with threads := p.threads.filter fun jobs => !jobs.isEmpty }

/-- Steps of one thread, until it ends or has to wait, at most so many. -/
def runThread (m : Machine σ ι) (i : Nat) : Nat → Pool σ ι → Pool σ ι
  | 0, p => p
  | fuel + 1, p =>
    match p.step m i with
    | some p => runThread m i fuel p
    | none => p

/-- A step of the first thread that can make one. -/
def turn (m : Machine σ ι) (p : Pool σ ι) : Option (Pool σ ι) :=
  (List.range p.threads.length).findSome? fun i => p.step m i

/-- Steps until no thread can make one, at most so many. -/
def settle (m : Machine σ ι) : Nat → Pool σ ι → Pool σ ι
  | 0, p => p
  | fuel + 1, p =>
    match p.turn m with
    | some p => settle m fuel p
    | none => p

/-- Does some jobs on a thread of their own, then all that can follow. -/
def call (m : Machine σ ι) (fuel : Nat) (jobs : List ι) (p : Pool σ ι) : Pool σ ι :=
  ((p.spawn jobs).runThread m p.threads.length fuel |>.settle m fuel).tidy

/-- Takes up what the state has ready, one thing after the other, each with all
that can follow; at most so many. -/
def drain (m : Machine σ ι) (ready : σ → Option (List ι × σ)) (fuel : Nat) :
    Nat → Pool σ ι → Pool σ ι
  | 0, p => p
  | n + 1, p =>
    match ready p.state with
    | some (jobs, state) => drain m ready fuel n ({ p with state }.call m fuel jobs)
    | none => p

end Pool

end ChangeWatch
