import ChangeWatch.Proofs.Watch.Stopping.Underway

/-!
# Starting and stopping, job by job

The setting here is as wide as it can be: a watch is built, and from then on any
number of threads may call `start` and `stop` (dropping the watch calls `stop`
too), what was parked may be run, dispatches may be taken up, and disk and service
may turn into any others, save that a closed service stays closed (`setting`).

What matters of a run is what is `Seen` of it: that `start` and `stop` are called,
that the root is registered and the loop is submitted, each with its end, that a
call is answered, that the service is closed, and that the loop runs; and of a
registration also what the walk found where it starts and which directories the
service accepted or refused.  `perform_lifecycleEffect` says of every job what is seen of
it, what it does to the two flags, and which jobs of a call it puts into its thread.
-/

namespace ChangeWatch.Lifecycle

open Watch

/-! ### The setting -/

/-- What may come from outside. -/
inductive Outside where
  /-- Someone calls `start`. -/
  | start
  /-- Someone calls `stop`, or drops the watch. -/
  | stop
  /-- What the executor parked is run, each job on a thread of its own. -/
  | unpark
  /-- The scheduler takes up one of the dispatches that wait. -/
  | dispatch (n : Nat)
  /-- Disk and service change. -/
  | ground (g : Ground)
  deriving DecidableEq, Repr

/-- What comes from outside, if it may come now. -/
def outside : Outside → Running → Option Running
  | .start, p => some (p.spawn [.start .owner])
  | .stop, p => some (p.spawn [.stop])
  | .unpark, p =>
    let (jobs, executor) := p.state.executor.takeParked
    some ⟨{ p.state with executor }, p.threads ++ jobs.map fun job => [job]⟩
  | .dispatch n, p =>
    (Stopping.takeUp? p.state.desk n).map fun r =>
      { p with state := { p.state with desk := r.2 } }.spawn [.desk (.begin r.1)]
  | .ground g, p =>
    -- nothing opens a closed service again
    if p.state.ground.service.isClosed && !g.service.isClosed then none
    else some (p.modify (·.withGround g))

/-- A watch at which anything may happen at any time. -/
def setting (behaviour : Behaviour Wish) : Setting Watch Job Outside :=
  ⟨machine behaviour, outside⟩

/-! ### What is seen -/

/-- What is seen of a watch as far as starting and stopping go. -/
inductive Seen where
  /-- `start` is called. -/
  | called
  /-- The strategy is asked to register the root. -/
  | registering
  /-- The walk looks at what stands where it starts. -/
  | looked (start : Path) (footing : DirTree.Footing)
  /-- The service accepts a directory. -/
  | enrolled (dir : Path) (depth : Nat) (key : Key)
  /-- The service refuses a directory. -/
  | refused (dir : Path) (e : WatchError)
  /-- The registration has come to its end. -/
  | registered (error : Option WatchError)
  /-- The executor was given the loop. -/
  | submitted (error : Option WatchError)
  /-- A call of `start` returns. -/
  | answered (error : Option WatchError)
  /-- `stop` is called; the flag is set from now on. -/
  | stopping
  /-- The service is asked to close. -/
  | closing
  /-- A step of the loop. -/
  | looping
  deriving DecidableEq, Repr

/-- The error in which something ended. -/
def errorOf {α : Type} : Except WatchError α → Option WatchError
  | .ok _ => none
  | .error e => some e

/-- What is seen when the service is asked to register a directory. -/
def enlisted (dir : Path) (depth : Nat) : Except WatchError Key → Seen
  | .ok key => .enrolled dir depth key
  | .error e => .refused dir e

/-- What is seen of an errand of the walk at the start. -/
def glimpsed (w : Watch) : DirTree.Errand → List Seen
  | .look start _ => [.looked start (DirTree.footing w.ground.disk start)]
  | .enter dir depth => [enlisted dir depth (Site.register dir w.kinds w.ground).1]
  | .list .. => []

/-- What is seen when a job is done. -/
def seen (job : Job) (w : Watch) : List Seen :=
  match job with
  | .start _ => [.called]
  | .registerRoot _ =>
    match w.strategy.target with
    | .file t =>
      [.registering, enlisted t.parent 0 (t.register w.ground w.kinds).1,
        .registered (errorOf (t.register w.ground w.kinds).1)]
    | .tree _ => [.registering]
  | .walk (.start _) agenda _ =>
    match agenda, w.strategy.target with
    | errand :: _, .tree t =>
      glimpsed w errand ++
        (DirTree.advance w.kinds errand (.start w.ground t)).2.failure.toList.map
          fun e => .registered (some e)
    | _, _ => [.registered none]
  | .submit _ => [.submitted (errorOf (w.executor.execute Job.run).1)]
  | .started _ error => [.answered error]
  | .stop => [.stopping]
  | .close .mark => [.closing]
  | .run | .take | .receive | .handle .. | .reset _ | .recheck => [.looping]
  | _ => []

/-- What is noted of a job: its thread, and what is seen. -/
def note (i : Nat) (job : Job) (w : Watch) : List (Nat × Seen) :=
  (seen job w).map (i, ·)

/-- What is seen during a run, each time with the thread. -/
def log (behaviour : Behaviour Wish) (moves : List (Move Outside)) (p : Running) :
    List (Nat × Seen) :=
  (setting behaviour).log note moves p

end Lifecycle

/-! ### Sorts of jobs -/

namespace Job

/-- A job of a call of `start` that has claimed the start, or is about to answer. -/
def opens : Job → Bool
  | .startUnlessStopped _ | .registerRoot _ | .walk (.start _) .. | .submit _ | .started .. => true
  | _ => false

/-- A job of the loop. -/
def loops : Job → Bool
  | .run | .take | .receive | .handle .. | .reset _ | .recheck => true
  | _ => false

/-- A job that has no part in starting or stopping. -/
def aside : Job → Bool
  | .start _ | .stop | .close _ => false
  | job => !job.opens

end Job

namespace Lifecycle

open Watch

variable {behaviour : Behaviour Wish} {w w' : Watch} {job : Job} {d : Done Watch Job}

/-! ### What a job comes to -/

/-- A watch whose flags and executor are the same. -/
structure Alike (w w' : Watch) : Prop where
  started : w'.started = w.started
  stopped : w'.stopped = w.stopped
  executor : w'.executor = w.executor

theorem Alike.refl (w : Watch) : Alike w w := ⟨rfl, rfl, rfl⟩

/-- Something that is seen in the middle of a registration. -/
def Seen.isGlimpse : Seen → Bool
  | .looked .. | .enrolled .. | .refused .. => true
  | _ => false

theorem isGlimpse_enlisted (dir : Path) (depth : Nat) (r : Except WatchError Key) :
    (enlisted dir depth r).isGlimpse = true := by
  cases r <;> rfl

theorem isGlimpse_glimpsed (w : Watch) (errand : DirTree.Errand) :
    ∀ x ∈ glimpsed w errand, x.isGlimpse = true := by
  intro x hx
  cases errand with
  | look start depth =>
    obtain rfl := List.mem_singleton.mp hx
    rfl
  | enter dir depth =>
    obtain rfl := List.mem_singleton.mp hx
    exact isGlimpse_enlisted dir depth _
  | list dir depth => exact absurd hx List.not_mem_nil

/-- What is seen of the end of a registration, and what follows: it goes on, or it has
ended well or not. -/
inductive Registration (caller : Caller) : List Seen → List Job → Prop
  | goesOn (agenda : List DirTree.Errand) (registered : List Path) :
      Registration caller [] [.walk (.start caller) agenda registered]
  | ends : Registration caller [.registered none] [.submit caller]
  | fails (e : WatchError) : Registration caller [.registered (some e)] (startFailed caller e)

/-- What a job does to the life of a watch, from the first call of `start` to the last of
`stop`, together with what is seen of it. -/
inductive LifecycleEffect (w : Watch) : Job → List Seen → Done Watch Job → Prop
  | claims (caller : Caller) : w.started = false →
      LifecycleEffect w (.start caller) [.called]
        (.andThen { w with started := true } [.startUnlessStopped caller])
  | repeats (caller : Caller) : w.started = true →
      LifecycleEffect w (.start caller) [.called]
        (.andThen w [.started caller (some .alreadyStarted)])
  | comesLate (caller : Caller) : w.stopped = true →
      LifecycleEffect w (.startUnlessStopped caller) []
        (.andThen w [.started caller (some .alreadyStopped)])
  | comesInTime (caller : Caller) : w.stopped = false →
      LifecycleEffect w (.startUnlessStopped caller) [] (.andThen w [.registerRoot caller])
  | registers {caller : Caller} {w' : Watch} {glimpses told : List Seen} {next : List Job} :
      Alike w w' → (∀ x ∈ glimpses, x.isGlimpse = true) → Registration caller told next →
        LifecycleEffect w (.registerRoot caller) (.registering :: (glimpses ++ told))
          (.andThen w' next)
  | walks {caller : Caller} {agenda : List DirTree.Errand} {registered : List Path} {w' : Watch}
      {glimpses told : List Seen} {next : List Job} :
      Alike w w' → (∀ x ∈ glimpses, x.isGlimpse = true) → Registration caller told next →
        LifecycleEffect w (.walk (.start caller) agenda registered) (glimpses ++ told)
          (.andThen w' next)
  | runs (caller : Caller) {executor : Executor Job} : executor.parked = w.executor.parked →
      LifecycleEffect w (.submit caller) [.submitted none]
        ⟨{ w with executor }, [.started caller none], [[.run]]⟩
  | parks (caller : Caller) {executor : Executor Job} :
      executor.parked = w.executor.parked ++ [.run] →
        LifecycleEffect w (.submit caller) [.submitted none]
          (.andThen { w with executor } [.started caller none])
  | refuses (caller : Caller) (e : WatchError) {executor : Executor Job} :
      executor.parked = w.executor.parked →
        LifecycleEffect w (.submit caller) [.submitted (some e)]
          (.andThen { w with executor } (startFailed caller e))
  | answers (caller : Caller) (error : Option WatchError) :
      LifecycleEffect w (.started caller error) [.answered error]
        (.just (w.note (.started caller error)))
  | stops : w.stopped = false →
      LifecycleEffect w .stop [.stopping]
        (.andThen { w with stopped := true } [.close .mark, .closed, .desk .shutdown])
  | stopsAgain : w.stopped = true → LifecycleEffect w .stop [.stopping] (.just w)
  | closes (step : CloseStep) :
      LifecycleEffect w (.close step) (if step = .mark then [.closing] else [])
        (.andThen (w.withService (w.ground.service.closeStep step).1)
          ((w.ground.service.closeStep step).2.toList.map .close))
  | isAside {job : Job} {d : Done Watch Job} : job.aside = true → Alike w d.state →
      d.spawned = [] →
      (∀ j ∈ d.next, j.opens = false ∧ j ≠ .close .mark ∧ (j.loops = true → job.loops = true)) →
        LifecycleEffect w job (if job.loops then [.looping] else []) d

/-- A job that has no part in starting or stopping leads to none that has claimed
anything, and to a loop only if it is part of one. -/
theorem follows_aside {j : Job} (h : Follows w job j) (hjob : job.aside = true) :
    j.opens = false ∧ j ≠ .close .mark ∧ (j.loops = true → job.loops = true) := by
  have htaken : ∀ {taken : Taken}, j ∈ afterTaken taken → j.opens = false ∧ j ≠ .close .mark := by
    intro taken hj
    rcases mem_afterTaken hj with ⟨_, _, rfl⟩ | ⟨_, rfl⟩ | rfl | rfl | rfl <;>
      exact ⟨rfl, by simp⟩
  cases h with
  | taken _ hj => exact ⟨(htaken hj).1, (htaken hj).2, fun _ => rfl⟩
  | received _ hj => exact ⟨(htaken hj).1, (htaken hj).2, fun _ => rfl⟩
  | broken _ _ _ _ hj =>
    rcases List.mem_cons.mp hj with rfl | hj
    · exact ⟨rfl, by simp, by simp [Job.loops]⟩
    · rw [List.mem_singleton.mp hj]
      exact ⟨rfl, by simp, by simp [Job.loops]⟩
  | walk purpose =>
    cases purpose with
    | start caller => exact absurd hjob (by simp [Job.aside, Job.opens])
    | pickup event path => exact ⟨rfl, by simp, by simp [Job.loops]⟩
  | close => exact absurd hjob (by simp [Job.aside])
  | _ =>
    first
    | exact ⟨rfl, by simp, by simp [Job.loops]⟩
    | exact absurd hjob (by simp [Job.aside, Job.opens])

/-- What is seen when the parent of a file is registered. -/
theorem seen_registerFile (caller : Caller) {t : FileTarget} {r : Except WatchError Key}
    {ground : Ground} (htarget : w.strategy.target = .file t)
    (hregister : t.register w.ground w.kinds = (r, ground)) :
    seen (.registerRoot caller) w =
      .registering :: ([enlisted t.parent 0 r] ++ [.registered (errorOf r)]) := by
  simp only [seen, htarget, hregister, List.singleton_append]

theorem seen_registerTree (caller : Caller) {t : DirTree} (htarget : w.strategy.target = .tree t) :
    seen (.registerRoot caller) w = .registering :: ([] ++ []) := by
  simp only [seen, htarget, List.append_nil]

/-- What is seen of a step of the walk at the start. -/
theorem seen_walk (caller : Caller) (errand : DirTree.Errand) (rest : List DirTree.Errand)
    (registered : List Path) {t : DirTree} {more : List DirTree.Errand} {k : DirTree.Walk Ground}
    (htarget : w.strategy.target = .tree t)
    (hadvance : DirTree.advance w.kinds errand (.start w.ground t) = (more, k)) :
    seen (.walk (.start caller) (errand :: rest) registered) w =
      glimpsed w errand ++ k.failure.toList.map fun e => .registered (some e) := by
  simp only [seen, htarget, hadvance]

/-- What is seen of the end of the walk at the start. -/
theorem seen_walkEnded (caller : Caller) {agenda : List DirTree.Errand} (registered : List Path)
    (hended : agenda = [] ∨ ∀ t, w.strategy.target ≠ .tree t) :
    seen (.walk (.start caller) agenda registered) w = [] ++ [.registered none] := by
  rcases hended with rfl | hfile
  · rfl
  · cases agenda with
    | nil => rfl
    | cons errand rest =>
      cases htarget : w.strategy.target with
      | file t =>
        simp only [seen, htarget]
        rfl
      | tree t => exact absurd htarget (hfile t)

theorem lifecycleEffect_submit (caller : Caller) :
    LifecycleEffect w (.submit caller) (seen (.submit caller) w) (w.submit caller) := by
  have hseen : seen (.submit caller) w =
      [.submitted (errorOf (w.executor.execute Job.run).1)] := rfl
  rw [hseen]
  unfold submit Executor.execute
  cases w.executor.manner with
  | ownThread => exact .runs caller rfl
  | pooled => exact .runs caller rfl
  | parking => exact .parks caller rfl
  | refusing e => exact .refuses caller e rfl

/-- Of every job: what is seen, and what it comes to. -/
theorem perform_lifecycleEffect (h : perform behaviour job w = some d) :
    LifecycleEffect w job (seen job w) d := by
  have hthreads := perform_threadEffect h
  -- of a job that has no part in a call only the watch it leaves behind needs to be looked at
  have hside : job.aside = true → seen job w = (if job.loops then [.looping] else []) →
      Alike w d.state → LifecycleEffect w job (seen job w) d := by
    intro hjob hseen hsame
    rw [hseen]
    refine .isAside hjob hsame (hthreads.spawned.resolve_right ?_)
      fun j hj => follows_aside (hthreads.next j hj) hjob
    rintro ⟨-, caller, rfl⟩
    exact absurd hjob (by simp [Job.aside, Job.opens])
  have hglimpse : ∀ dir (r : Except WatchError Key), ∀ x ∈ [enlisted dir 0 r],
      x.isGlimpse = true := by
    intro dir r x hx
    rw [List.mem_singleton.mp hx]
    exact isGlimpse_enlisted dir 0 r
  cases perform_outcome h with
  | claimed caller hfresh => exact .claims caller hfresh
  | repeated caller hstarted => exact .repeats caller hstarted
  | inTime caller hrunning => exact .comesInTime caller hrunning
  | late caller hstopped => exact .comesLate caller hstopped
  | fileRegistered caller t htarget hregister =>
    rw [seen_registerFile caller htarget hregister]
    exact .registers ⟨rfl, rfl, rfl⟩ (hglimpse t.parent _) .ends
  | fileRefused caller t htarget hregister =>
    rw [seen_registerFile caller htarget hregister]
    exact .registers ⟨rfl, rfl, rfl⟩ (hglimpse t.parent _) (.fails _)
  | walkBegun caller t htarget =>
    rw [seen_registerTree caller htarget]
    exact .registers (.refl w) (by simp) (.goesOn _ _)
  | ran caller | parked caller | refused caller =>
    -- the ways of the executor are told apart in `lifecycleEffect_submit`
    have heffect := lifecycleEffect_submit (w := w) caller
    rwa [show w.submit caller = _ from Option.some.inj h] at heffect
  | answered caller error => exact .answers caller error
  | stopped hrunning => exact .stops hrunning
  | stoppedBefore hstopped => exact .stopsAgain hstopped
  | closing step =>
    have hseen : seen (.close step) w = if step = .mark then [.closing] else [] := by
      cases step <;> rfl
    rw [hseen]
    exact .closes step
  -- a walk is part of a call if it is the one at the start
  | walked purpose errand rest registered t k htarget hadvance hwhole =>
    cases purpose with
    | start caller =>
      rw [seen_walk caller errand rest registered htarget hadvance, hwhole]
      exact .walks ⟨rfl, rfl, rfl⟩ (isGlimpse_glimpsed w errand) (.goesOn _ _)
    | pickup event path => exact hside rfl rfl ⟨rfl, rfl, rfl⟩
  | @walkBroken purpose errand rest registered t k more e htarget hadvance hbroken =>
    cases purpose with
    | start caller =>
      rw [seen_walk caller errand rest registered htarget hadvance, hbroken]
      exact .walks ⟨rfl, rfl, rfl⟩ (isGlimpse_glimpsed w errand) (.fails e)
    | pickup event path => exact hside rfl rfl ⟨rfl, rfl, rfl⟩
  | walkEnded purpose agenda registered hended =>
    cases purpose with
    | start caller =>
      rw [seen_walkEnded caller registered hended]
      exact .walks (.refl w) (by simp) .ends
    | pickup event path => exact hside rfl rfl (.refl w)
  | _ => exact hside rfl rfl ⟨rfl, rfl, rfl⟩

end Lifecycle

end ChangeWatch
