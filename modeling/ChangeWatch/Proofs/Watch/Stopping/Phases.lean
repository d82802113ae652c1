import ChangeWatch.Proofs.Dispatch.Shutdown
import ChangeWatch.Proofs.Watch.Control
import ChangeWatch.Proofs.Work.Setting
import ChangeWatch.Watch.Running

/-!
# The loop among other threads

One thread runs the loop of a watch; on others `stop` and `start` are called, as
often as one likes, the scheduler takes up what waits whenever it pleases, and
meanwhile the disk changes and the queue of the service grows (`setting`).
Callbacks do whatever they do, and may themselves ask for a stop.

What the thread of the loop has still to do is always of one of a few forms
(`Phase`), and each step leads from one of them to another (`loopStep`).  So the
loop handles nothing but events of the batch that it took last, and runs callbacks
for nothing but the event that it handles (`run_looping`); and once the flag is
set it takes at most one thing more (`run_took`).
-/

namespace ChangeWatch.Stopping

open Watch

/-! ### The setting -/

/-- What may come from outside of the loop. -/
inductive Outside where
  /-- Someone calls `stop`. -/
  | stop
  /-- Someone calls `start` once more. -/
  | start
  /-- The scheduler takes up one of the dispatches that wait. -/
  | dispatch (n : Nat)
  /-- The disk changes, and the backend reports. -/
  | ground (g : Ground)
  deriving DecidableEq, Repr

/-- A service is as before, save for what came into its queue meanwhile. -/
def longer (s t : Service) : Bool :=
  s.isClosed = t.isClosed && s.signals.isPrefixOf t.signals &&
    [CloseStep.mark, .release, .forget, .signal].all fun step => s.wakes step = t.wakes step

/-- The desk after its scheduler took up one of the dispatches that wait, and the
dispatch. -/
def takeUp? (desk : Desk) (n : Nat) : Option (Dispatch × Desk) := do
  let g ← desk.debouncer
  let w ← g.scheduler.waiting[n]?
  let scheduler :=
    { g.scheduler with
      now := max g.scheduler.now w.due
      waiting := g.scheduler.waiting.eraseIdx n }
  some (w.task, { desk with debouncer := some { g with scheduler } })

/-- What comes from outside, if it may come now. -/
def outside : Outside → Running → Option Running
  | .stop, p => some (p.spawn [.stop])
  | .start, p => some (p.spawn [.start .owner])
  | .dispatch n, p =>
    (takeUp? p.state.desk n).map fun r =>
      { p with state := { p.state with desk := r.2 } }.spawn [.desk (.begin r.1)]
  | .ground g, p =>
    if longer p.state.ground.service g.service then some (p.modify (·.withGround g)) else none

/-- A watch on whose loop, calls and dispatches threads work in any order. -/
def setting (behaviour : Behaviour Wish) : Setting Watch Job Outside :=
  ⟨machine behaviour, outside⟩

/-- A watch is running, its service is open and so is its debouncer; one thread is
about to run the loop, and nothing else is under way that belongs to a loop or to
a stop. -/
structure Poised (k : Nat) (p : Running) : Prop where
  started : p.state.started = true
  running : p.state.stopped = false
  service : p.state.ground.service.isClosed = false
  desk : p.state.desk.Open
  loop : p.threads[k]? = some [.run]
  others : ∀ i t, i ≠ k → p.threads[i]? = some t →
    ∀ j : Job, j ∈ t → j.inner = true ∧ j.stops = false

/-- The call of `stop` that set the flag is done. -/
def Completed (p : Running) : Prop :=
  p.state.stopped = true ∧ ∀ j ∈ p.jobs, j.stops = false

/-! ### What is seen of the loop -/

/-- What a loop does that can be seen. -/
inductive Seen where
  /-- A call of `take` returns. -/
  | took (taken : Taken)
  /-- An event is handled. -/
  | handled (key : Key) (event : RawEvent)
  /-- A callback is run. -/
  | ran (callback : Callback) (context : Context)
  deriving DecidableEq, Repr

/-- Whether a call of `take` returns. -/
def Seen.isTook : Seen → Bool
  | .took _ => true
  | _ => false

/-- What is seen when a job is done. -/
def seen (job : Job) (w : Watch) : List Seen :=
  match job with
  | .take => w.ground.service.enter.1.toList.map .took
  | .receive => w.ground.service.receive.toList.map fun r => .took r.1
  | .handle key event => [.handled key event]
  | .desk (.call callback context _) => [.ran callback context]
  | _ => []

/-- What is noted of a job: what is seen of the loop, which is the thread `k`. -/
def loopNote (k i : Nat) (job : Job) (w : Watch) : List Seen :=
  if i = k then seen job w else []

/-- What is seen of the loop during a run. -/
def loopLog (behaviour : Behaviour Wish) (k : Nat) (moves : List (Move Outside)) (p : Running) :
    List Seen :=
  (setting behaviour).log (loopNote k) moves p

/-- What a loop has in hand: the batch that it took last, and the event of it that
it handled last. -/
structure Hand where
  batch : Option Batch
  event : Option (Key × RawEvent)
  deriving DecidableEq, Repr

/-- What is in hand after something was seen. -/
def Hand.after (h : Hand) : Seen → Hand
  | .took (.batch b) => ⟨some b, none⟩
  | .took _ => ⟨none, none⟩
  | .handled key event => ⟨h.batch, some (key, event)⟩
  | .ran .. => h

/-- What is in hand after a log. -/
def handAfter (log : List Seen) : Hand :=
  log.foldl Hand.after ⟨none, none⟩

/-- An event belongs to the batch in hand. -/
def Hand.Holds (h : Hand) (key : Key) (event : RawEvent) : Prop :=
  ∃ b, h.batch = some b ∧ key = b.key ∧ event ∈ b.events

/-- Every event that is handled belongs to the batch in hand, and every callback is
run for the event in hand. -/
def Orderly : Hand → List Seen → Prop
  | _, [] => True
  | h, x :: rest =>
    (match x with
      | .took _ => True
      | .handled key event => h.Holds key event
      | .ran .. => ∃ key event, h.event = some (key, event) ∧ h.Holds key event) ∧
    Orderly (h.after x) rest

theorem Orderly.append {h : Hand} {a b : List Seen} (ha : Orderly h a)
    (hb : Orderly (a.foldl Hand.after h) b) : Orderly h (a ++ b) := by
  induction a generalizing h with
  | nil => exact hb
  | cons x rest ih => exact ⟨ha.1, ih ha.2 hb⟩

theorem Orderly.rest {h : Hand} {a b : List Seen} (hab : Orderly h (a ++ b)) :
    Orderly (a.foldl Hand.after h) b := by
  induction a generalizing h with
  | nil => exact hab
  | cons x rest ih => exact ih hab.2

/-! ### What is left of the loop's thread -/

/-- What is left of a batch when these events of it are still to be handled. -/
def leftOf (key : Key) (events : List RawEvent) : List Job :=
  events.map (.handle key) ++ [.reset key, .recheck]

/-- What the thread of a loop has still to do, given whether the watch is stopped
and what the loop has in hand. -/
inductive Phase (stopped : Bool) (h : Hand) : List Job → Prop
  | fresh : Phase stopped h [.run]
  | asking : Phase stopped h [.take]
  | waiting : Phase stopped h [.receive]
  /-- The batch in hand is handled: what is left of the event in hand, then the
  events after it. -/
  | busy {b : Batch} {now : List Job} {events : List RawEvent} : h.batch = some b →
      (∀ e ∈ events, e ∈ b.events) → (∀ j ∈ now, j.inner = true) →
      (now ≠ [] → ∃ e ∈ b.events, h.event = some (b.key, e)) →
      Phase stopped h (now ++ leftOf b.key events)
  /-- The backend complained. -/
  | failed : Phase stopped h [.desk (.warn .backendError), .recheck]
  | checking : Phase stopped h [.recheck]
  /-- The service is closed. -/
  | told : Phase stopped h [.stop]
  | ending {jobs : List Job} : stopped = true → (∀ j ∈ jobs, j.stops = true) →
      Phase stopped h jobs

theorem Phase.stopped {b : Bool} {h : Hand} {t : List Job} (hp : Phase false h t) :
    Phase b h t := by
  cases hp with
  | fresh => exact .fresh
  | asking => exact .asking
  | waiting => exact .waiting
  | busy h₁ h₂ h₃ h₄ => exact .busy h₁ h₂ h₃ h₄
  | failed => exact .failed
  | checking => exact .checking
  | told => exact .told
  | ending h _ => exact absurd h (by simp)

/-- A loop that has nothing left to do has found the watch stopped. -/
theorem Phase.stopped_of_nil {b : Bool} {h : Hand} (hp : Phase b h []) : b = true := by
  generalize ht : ([] : List Job) = t at hp
  cases hp with
  | busy => exact absurd ht (by simp [leftOf])
  | ending hb _ => exact hb
  | _ => exact absurd ht (by simp)

/-- A call of `take` is under way. -/
def Asking (t : List Job) : Prop :=
  t = [.take] ∨ t = [.receive]

/-- What follows something that was taken, given that it is in hand. -/
theorem phase_afterTaken (b : Bool) (h : Hand) (taken : Taken) :
    Phase b (h.after (.took taken)) (afterTaken taken) ∧ ¬ Asking (afterTaken taken) := by
  cases taken with
  | batch batch =>
    have hbusy : Phase b (h.after (.took (.batch batch))) ([] ++ leftOf batch.key batch.events) :=
      .busy rfl (fun _ he => he) (by simp) (by simp)
    refine ⟨hbusy, ?_⟩
    have hlast : (afterTaken (.batch batch)).getLast? = some .recheck := by simp [afterTaken]
    rintro (heq | heq) <;> rw [heq] at hlast <;> exact absurd hlast (by simp)
  | failure e => exact ⟨.failed, by simp [Asking, afterTaken]⟩
  | closed => exact ⟨.told, by simp [Asking, afterTaken]⟩

/-! ### A step of the loop -/

variable {behaviour : Behaviour Wish} {w : Watch} {job : Job} {d : Done Watch Job} {k : Nat}

theorem not_asking_of_last {t : List Job} (h : t.getLast? = some .recheck) : ¬ Asking t := by
  rintro (rfl | rfl) <;> exact absurd h (by simp)

theorem not_asking_of_stops {t : List Job} (h : ∀ j ∈ t, j.stops = true) : ¬ Asking t := by
  rintro (rfl | rfl) <;> exact absurd (h _ (List.mem_singleton_self _)) (by simp [Job.stops])

/-- A job beside the loop takes nothing and handles nothing; it may be a callback. -/
theorem seen_inner (hinner : job.inner = true) (w : Watch) :
    seen job w = [] ∨ ∃ c x, seen job w = [.ran c x] := by
  cases job with
  | desk job =>
    cases job with
    | call c x onPanic => exact Or.inr ⟨c, x, rfl⟩
    | _ => exact Or.inl rfl
  | _ => first | exact Or.inl rfl | exact absurd hinner (by simp [Job.inner])

/-- What is left of a call of `stop` leads to nothing else. -/
theorem perform_stops (h : perform behaviour job w = some d) (hstops : job.stops = true) :
    (∀ j ∈ d.next, j.stops = true) ∧ d.spawned = [] ∧ d.state.stopped = w.stopped ∧
      seen job w = [] := by
  cases perform_outcome h with
  | closing step =>
    refine ⟨?_, rfl, rfl, rfl⟩
    intro j hj
    obtain ⟨next, -, rfl⟩ := List.mem_map.mp hj
    rfl
  | closeFailed | closed => exact ⟨by simp [Done.just], rfl, rfl, rfl⟩
  | @desk job desk next _ hdesk =>
    cases job with
    | shutdown =>
      have hnext : next = [] := by
        rcases Desk.perform_cases hdesk with ⟨-, -, hnext⟩ | ⟨g, g', more, -, -, hoperate, hnext⟩
        · exact hnext
        · cases Desk.operate_operates hoperate <;> exact hnext
      subst hnext
      exact ⟨by simp [Done.andThen], rfl, rfl, rfl⟩
    | _ => exact absurd hstops (by simp [Job.stops])
  | _ => exact absurd hstops (by simp [Job.stops])

/-- What a step of the loop's thread comes to, where the loop has something in
hand. -/
structure LoopStep (w : Watch) (h : Hand) (t : List Job) (job : Job) (d : Done Watch Job)
    (t' : List Job) : Prop where
  orderly : Orderly h (seen job w)
  phase : Phase d.state.stopped ((seen job w).foldl Hand.after h) t'
  spawned : d.spawned = []
  /-- A loop that finds the watch stopped takes no more. -/
  quits : w.stopped = true → ¬ Asking t → ¬ Asking t'
  took : (¬ Asking t ∧ ∀ x ∈ seen job w, x.isTook = false) ∨ seen job w = [] ∨
    ∃ taken, seen job w = [.took taken] ∧ Asking t ∧ ¬ Asking t'
  /-- A loop that is about to wait has found the service open. -/
  waits : t' = [.receive] → d.state.ground.service.isClosed = false

/-- A loop that takes: it goes on to wait, or it has taken something. -/
theorem loopStep_take (hperform : perform behaviour .take w = some d) (h : Hand) :
    LoopStep w h [.take] .take d (d.next ++ []) := by
  obtain ⟨henter, halike⟩ := w.ground.service.enter_eq
  cases perform_outcome hperform with
  | @taken taken service heq =>
    obtain ⟨hphase, hquiet⟩ := phase_afterTaken w.stopped h taken
    have hseen : seen .take w = [.took taken] := by simp [seen, heq]
    have hnext : (Done.andThen (w.withService service) (afterTaken taken)).next ++ [] =
        afterTaken taken := List.append_nil _
    refine ⟨?_, ?_, rfl, ?_, ?_, ?_⟩
    · rw [hseen]
      exact ⟨trivial, trivial⟩
    · rw [hseen, hnext]
      exact hphase
    · rw [hnext]
      exact fun _ _ => hquiet
    · rw [hnext]
      exact Or.inr (Or.inr ⟨taken, hseen, Or.inl rfl, hquiet⟩)
    · rw [hnext]
      exact fun hwait => absurd (Or.inr hwait) hquiet
  | @waiting service heq =>
    have hseen : seen .take w = [] := by simp [seen, heq]
    refine ⟨?_, ?_, rfl, ?_, Or.inr (Or.inl hseen), ?_⟩
    · rw [hseen]
      trivial
    · rw [hseen]
      exact .waiting
    · exact fun _ hnot => absurd (Or.inl rfl) hnot
    · -- a closed service would have said so
      intro _
      rw [heq] at halike henter
      show service.isClosed = false
      rw [halike.closed]
      cases hclosed : w.ground.service.isClosed with
      | false => rfl
      | true =>
        rw [hclosed, if_pos rfl] at henter
        exact absurd henter (by simp)

/-- A loop that waits takes the front of the queue. -/
theorem loopStep_receive (hperform : perform behaviour .receive w = some d) (h : Hand) :
    LoopStep w h [.receive] .receive d (d.next ++ []) := by
  cases perform_outcome hperform with
  | @received taken service hreceive =>
    obtain ⟨hphase, hquiet⟩ := phase_afterTaken w.stopped h taken
    have hseen : seen .receive w = [.took taken] := by simp [seen, hreceive]
    have hnext : (Done.andThen (w.withService service) (afterTaken taken)).next ++ [] =
        afterTaken taken := List.append_nil _
    refine ⟨?_, ?_, rfl, ?_, ?_, ?_⟩
    · rw [hseen]
      exact ⟨trivial, trivial⟩
    · rw [hseen, hnext]
      exact hphase
    · rw [hnext]
      exact fun _ _ => hquiet
    · rw [hnext]
      exact Or.inr (Or.inr ⟨taken, hseen, Or.inr rfl, hquiet⟩)
    · rw [hnext]
      exact fun hwait => absurd (Or.inr hwait) hquiet

/-- A step of a thread that can take no more: it can still not take afterwards. -/
theorem LoopStep.of_quiet {h : Hand} {t t' : List Job} (horderly : Orderly h (seen job w))
    (hphase : Phase d.state.stopped ((seen job w).foldl Hand.after h) t') (hspawned : d.spawned = [])
    (hnot : ¬ Asking t) (hnot' : ¬ Asking t') (hseen : ∀ x ∈ seen job w, x.isTook = false) :
    LoopStep w h t job d t' :=
  ⟨horderly, hphase, hspawned, fun _ _ => hnot', Or.inl ⟨hnot, hseen⟩,
    fun hwait => absurd (Or.inr hwait) hnot'⟩

/-- A loop that looks at the flag ends, or takes. -/
theorem loopStep_check {h : Hand} (hjob : job = .run ∨ job = .recheck)
    (hperform : perform behaviour job w = some d) :
    LoopStep w h [job] job d (d.next ++ []) := by
  have hd : d = .andThen w (if w.stopped then [] else [.take]) := by
    rcases hjob with rfl | rfl <;> exact (Option.some.inj hperform).symm
  have hseen : seen job w = [] := by rcases hjob with rfl | rfl <;> rfl
  have hnot : ¬ Asking [job] := by
    rcases hjob with rfl | rfl <;> simp [Asking]
  subst hd
  cases hstopped : w.stopped with
  | true =>
    have hphase : Phase w.stopped h [] := .ending hstopped (by simp)
    refine ⟨?_, ?_, rfl, ?_, Or.inl ⟨hnot, ?_⟩, ?_⟩
    · rw [hseen]; trivial
    · rw [hseen]; exact hphase
    · simp [Done.andThen, Asking]
    · rw [hseen]; simp
    · simp [Done.andThen]
  | false =>
    refine ⟨?_, ?_, rfl, ?_, Or.inl ⟨hnot, ?_⟩, ?_⟩
    · rw [hseen]; trivial
    · rw [hseen]; exact .asking
    · exact fun hs => absurd (hs.symm.trans hstopped) (by simp)
    · rw [hseen]; simp
    · simp [Done.andThen]

/-- A step within the handling of a batch. -/
theorem loopStep_busy {h : Hand} {b : Batch} {now : List Job} {events : List RawEvent}
    {rest : List Job} (hbatch : h.batch = some b) (hevents : ∀ e ∈ events, e ∈ b.events)
    (hnow : ∀ j ∈ now, j.inner = true)
    (hevent : now ≠ [] → ∃ e ∈ b.events, h.event = some (b.key, e))
    (hsplit : job :: rest = now ++ leftOf b.key events)
    (hperform : perform behaviour job w = some d) (hstarted : w.started = true) :
    LoopStep w h (job :: rest) job d (d.next ++ rest) := by
  have hlast : ∀ (now : List Job) (events : List RawEvent),
      (now ++ leftOf b.key events).getLast? = some .recheck := by
    intro now events
    simp [leftOf]
  have hnot : ¬ Asking (job :: rest) := hsplit ▸ not_asking_of_last (hlast now events)
  cases now with
  | cons j more =>
    -- a job by which the event in hand is handled
    obtain ⟨rfl, rfl⟩ := List.cons.inj hsplit
    obtain ⟨e, hmem, hhand⟩ := hevent (by simp)
    have hinner := hnow job List.mem_cons_self
    obtain ⟨hnext, hspawned⟩ := perform_inner hperform hinner hstarted
    have hstill : ∀ j ∈ d.next ++ more, j.inner = true := by
      intro j hj
      rcases List.mem_append.mp hj with hj | hj
      · exact hnext j hj
      · exact hnow j (List.mem_cons_of_mem _ hj)
    have hphase : Phase d.state.stopped h (d.next ++ (more ++ leftOf b.key events)) := by
      rw [← List.append_assoc]
      exact .busy hbatch hevents hstill (fun _ => ⟨e, hmem, hhand⟩)
    have hnot' : ¬ Asking (d.next ++ (more ++ leftOf b.key events)) := by
      rw [← List.append_assoc]
      exact not_asking_of_last (hlast _ _)
    rcases seen_inner hinner w with hseen | ⟨c, x, hseen⟩
    · refine .of_quiet ?_ ?_ hspawned hnot hnot' ?_
      · rw [hseen]; trivial
      · rw [hseen]; exact hphase
      · rw [hseen]; simp
    · refine .of_quiet ?_ ?_ hspawned hnot hnot' ?_
      · rw [hseen]
        exact ⟨⟨b.key, e, hhand, b, hbatch, rfl, hmem⟩, trivial⟩
      · rw [hseen]; exact hphase
      · rw [hseen]; simp [Seen.isTook]
  | nil =>
    cases events with
    | cons e more =>
      -- the next event is handled
      obtain ⟨rfl, rfl⟩ := List.cons.inj hsplit
      obtain rfl := Option.some.inj hperform
      have hmem := hevents e List.mem_cons_self
      have hresolve : ∀ r, ∀ j ∈ afterResolve w.handled b.key e r, j.inner = true := by
        intro r j hj
        cases follows_afterResolve b.key e r j hj <;> rfl
      refine .of_quiet ⟨⟨b, hbatch, rfl, hmem⟩, trivial⟩ ?_ rfl hnot ?_ (by simp [seen, Seen.isTook])
      · exact .busy hbatch (fun e' he' => hevents e' (List.mem_cons_of_mem _ he'))
          (hresolve _) (fun _ => ⟨e, hmem, rfl⟩)
      · exact not_asking_of_last (hlast _ more)
    | nil =>
      -- the batch is acknowledged
      obtain ⟨rfl, rfl⟩ := List.cons.inj hsplit
      obtain rfl := Option.some.inj hperform
      exact .of_quiet trivial .checking rfl hnot (not_asking_of_last rfl) (by simp [seen])

/-- Every step of the loop's thread leads from one phase to another. -/
theorem loopStep {h : Hand} {rest : List Job} (hphase : Phase w.stopped h (job :: rest))
    (hperform : perform behaviour job w = some d) (hstarted : w.started = true) :
    LoopStep w h (job :: rest) job d (d.next ++ rest) := by
  generalize ht : job :: rest = t at hphase
  -- the phase says which job stands first
  cases hphase with
  | fresh =>
    obtain ⟨rfl, rfl⟩ := List.cons.inj ht
    exact loopStep_check (Or.inl rfl) hperform
  | asking =>
    obtain ⟨rfl, rfl⟩ := List.cons.inj ht
    exact loopStep_take hperform h
  | waiting =>
    obtain ⟨rfl, rfl⟩ := List.cons.inj ht
    exact loopStep_receive hperform h
  | busy hbatch hevents hnow hevent =>
    rw [← ht]
    exact loopStep_busy hbatch hevents hnow hevent ht hperform hstarted
  | failed =>
    obtain ⟨rfl, rfl⟩ := List.cons.inj ht
    -- a warning at the desk leads to nothing
    obtain ⟨⟨desk, next⟩, hr, rfl⟩ := Option.map_eq_some_iff.mp hperform
    have hnext : next = [] := by
      rcases Desk.perform_cases hr with ⟨-, -, hnext⟩ | ⟨g, g', more, -, -, hoperate, hnext⟩
      · exact hnext
      · obtain ⟨-, rfl⟩ := Prod.mk.inj (Option.some.inj hoperate)
        exact hnext
    subst hnext
    exact .of_quiet trivial .checking rfl (not_asking_of_last rfl) (not_asking_of_last rfl)
      (by simp [seen])
  | checking =>
    obtain ⟨rfl, rfl⟩ := List.cons.inj ht
    exact loopStep_check (Or.inr rfl) hperform
  | told =>
    obtain ⟨rfl, rfl⟩ := List.cons.inj ht
    cases perform_outcome hperform with
    | stoppedBefore hstopped =>
      exact .of_quiet trivial (.ending hstopped (by simp [Done.just])) rfl (by simp [Asking])
        (by simp [Done.just, Asking]) (by simp [seen])
    | stopped =>
      exact .of_quiet trivial (.ending rfl (by simp [Done.andThen, Job.stops])) rfl
        (by simp [Asking]) (by simp [Done.andThen, Asking]) (by simp [seen])
  | ending hstopped hstops =>
    subst ht
    -- the jobs of a stop lead to jobs of a stop
    obtain ⟨hnext, hspawned, hsame, hseen⟩ := perform_stops hperform (hstops job List.mem_cons_self)
    have hall : ∀ j ∈ d.next ++ rest, j.stops = true := by
      intro j hj
      rcases List.mem_append.mp hj with hj | hj
      · exact hnext j hj
      · exact hstops j (List.mem_cons_of_mem _ hj)
    refine .of_quiet ?_ ?_ hspawned (not_asking_of_stops hstops) (not_asking_of_stops hall) ?_
    · rw [hseen]; trivial
    · exact .ending (hsame.trans hstopped) hall
    · rw [hseen]; simp

/-! ### Any step, beside the loop too -/

/-- A watch whose thread `k` runs the loop, which has something in hand; what is
done by other threads does not concern the loop. -/
structure Looping (k : Nat) (h : Hand) (p : Running) : Prop where
  started : p.state.started = true
  loop : ∃ t, p.threads[k]? = some t ∧ Phase p.state.stopped h t
  others : ∀ i t, i ≠ k → p.threads[i]? = some t → ∀ j : Job, j ∈ t → j.inner = true

/-- What the thread of the loop has still to do. -/
def loopThread (k : Nat) (p : Running) : List Job :=
  (p.threads[k]?).getD []

/-- What a move comes to that notes something of the loop. -/
structure LoopMove (k : Nat) (h : Hand) (p : Running) (log : List Seen) (q : Running) : Prop where
  looping : Looping k (log.foldl Hand.after h) q
  stopped : p.state.stopped = true → q.state.stopped = true
  orderly : Orderly h log
  quits : p.state.stopped = true → ¬ Asking (loopThread k p) → ¬ Asking (loopThread k q)
  took : (¬ Asking (loopThread k p) ∧ ∀ x ∈ log, x.isTook = false) ∨ log = [] ∨
    ∃ taken, log = [.took taken] ∧ Asking (loopThread k p) ∧ ¬ Asking (loopThread k q)

/-- A move that leaves the loop alone. -/
theorem LoopMove.of_aside {h : Hand} {p q : Running} (hlooping : Looping k h q)
    (hstopped : p.state.stopped = true → q.state.stopped = true)
    (hsame : loopThread k q = loopThread k p) : LoopMove k h p [] q :=
  ⟨hlooping, hstopped, trivial, fun _ hnot => by rwa [hsame], Or.inr (Or.inl rfl)⟩

/-- One more thread beside the loop. -/
theorem Looping.spawn {h : Hand} {p : Running} (hp : Looping k h p) {jobs : List Job}
    (hjobs : ∀ j ∈ jobs, j.inner = true) : LoopMove k h p [] (p.spawn jobs) := by
  obtain ⟨t, ht, hphase⟩ := hp.loop
  have hkept : (p.spawn jobs).threads[k]? = some t := Pool.getElem?_spawn ht
  have hsame : loopThread k (p.spawn jobs) = loopThread k p := by
    rw [loopThread, loopThread, hkept, ht]
  refine .of_aside ⟨hp.started, ⟨t, hkept, hphase⟩, ?_⟩ id hsame
  intro i t' hi ht'
  rcases Pool.of_getElem?_spawn ht' with hold | rfl
  · exact hp.others i t' hi hold
  · exact hjobs

/-- A step of a thread, the loop's or another. -/
theorem step_looping {h : Hand} {p q : Running} (hp : Looping k h p) {i : Nat}
    (hstep : p.step (machine behaviour) i = some q) :
    LoopMove k h p (Setting.noted (loopNote k) (.job i : Move Outside) p) q := by
  obtain ⟨job, rest, d, hi, hperform, rfl⟩ := Pool.step_eq_some hstep
  obtain ⟨t, ht, hphase⟩ := hp.loop
  have hflags := perform_flags hperform
  rw [Setting.noted_job hi]
  by_cases hmine : i = k
  · -- the loop moves
    subst hmine
    obtain rfl := Option.some.inj (ht.symm.trans hi)
    have hmoved := loopStep hphase hperform hp.started
    have hnow : (p.threads.set i (d.next ++ rest) ++ d.spawned)[i]? = some (d.next ++ rest) :=
      Pool.getElem?_set_append hi
    have hbefore : loopThread i p = job :: rest := by rw [loopThread, hi, Option.getD_some]
    have hafter : loopThread i ⟨d.state, p.threads.set i (d.next ++ rest) ++ d.spawned⟩ =
        d.next ++ rest := by rw [loopThread, hnow, Option.getD_some]
    rw [loopNote, if_pos rfl]
    refine ⟨⟨hflags.1 hp.started, ⟨_, hnow, hmoved.phase⟩, ?_⟩, hflags.2, hmoved.orderly, ?_, ?_⟩
    · intro j t' hj ht'
      rw [hmoved.spawned, List.append_nil, List.getElem?_set_ne (Ne.symm hj)] at ht'
      exact hp.others j t' hj ht'
    · rw [hbefore, hafter]
      exact hmoved.quits
    · rw [hbefore, hafter]
      exact hmoved.took
  · -- another thread moves
    have hinner := hp.others i _ hmine hi
    obtain ⟨hnext, hspawned⟩ := perform_inner hperform (hinner job List.mem_cons_self) hp.started
    have hkept : (p.threads.set i (d.next ++ rest) ++ d.spawned)[k]? = some t :=
      Pool.getElem?_set_append_ne ht hmine
    rw [loopNote, if_neg hmine]
    refine .of_aside ⟨hflags.1 hp.started, ⟨t, hkept, ?_⟩, ?_⟩ hflags.2 ?_
    · show Phase d.state.stopped h t
      cases hstopped : p.state.stopped with
      | true =>
        rw [hflags.2 hstopped]
        rwa [hstopped] at hphase
      | false =>
        rw [hstopped] at hphase
        exact hphase.stopped
    · intro j t' hj ht'
      rw [hspawned, List.append_nil] at ht'
      by_cases hji : i = j
      · subst hji
        obtain ⟨hlt, -⟩ := List.getElem?_eq_some_iff.mp hi
        rw [List.getElem?_set_self hlt] at ht'
        obtain rfl := Option.some.inj ht'
        intro j' hj'
        rcases List.mem_append.mp hj' with hj' | hj'
        · exact hnext j' hj'
        · exact hinner j' (List.mem_cons_of_mem _ hj')
      · rw [List.getElem?_set_ne hji] at ht'
        exact hp.others j t' hj ht'
    · rw [loopThread, loopThread, hkept, ht]

/-- Every move leads the loop from one phase to another, or leaves it alone. -/
theorem move_looping {h : Hand} {p q : Running} {a : Move Outside} (hp : Looping k h p)
    (hmove : (setting behaviour).move a p = some q) :
    LoopMove k h p (Setting.noted (loopNote k) a p) q := by
  cases a with
  | job i => exact step_looping hp hmove
  | outside e =>
    show LoopMove k h p [] q
    cases e with
    | stop =>
      obtain rfl := Option.some.inj hmove
      exact hp.spawn (by simp [Job.inner])
    | start =>
      obtain rfl := Option.some.inj hmove
      exact hp.spawn (by simp [Job.inner])
    | dispatch n =>
      obtain ⟨r, -, rfl⟩ := Option.map_eq_some_iff.mp hmove
      have hp' : Looping k h ⟨{ p.state with desk := r.2 }, p.threads⟩ :=
        ⟨hp.started, hp.loop, hp.others⟩
      have hbegin : ∀ j : Job, j ∈ [Job.desk (.begin r.1)] → j.inner = true := by simp [Job.inner]
      have hspawn := hp'.spawn hbegin
      exact ⟨hspawn.looping, hspawn.stopped, hspawn.orderly, hspawn.quits, hspawn.took⟩
    | ground g =>
      simp only [Setting.move, setting, outside] at hmove
      split at hmove
      · obtain rfl := Option.some.inj hmove
        exact .of_aside ⟨hp.started, hp.loop, hp.others⟩ id rfl
      · exact absurd hmove (by simp)

/-! ### Runs of the loop -/

/-- During a run the loop handles what it has in hand, and its thread goes from
phase to phase. -/
theorem run_looping {moves : List (Move Outside)} :
    ∀ {h : Hand} {p q : Running}, Looping k h p → (setting behaviour).run? moves p = some q →
      Orderly h (loopLog behaviour k moves p) ∧
        Looping k ((loopLog behaviour k moves p).foldl Hand.after h) q := by
  induction moves with
  | nil =>
    intro h p q hp hrun
    obtain rfl := Option.some.inj hrun
    exact ⟨trivial, hp⟩
  | cons a rest ih =>
    intro h p q hp hrun
    obtain ⟨r, hr, hrest⟩ := Setting.run?_cons.mp hrun
    have hmoved := move_looping hp hr
    obtain ⟨horderly, hlooping⟩ := ih hmoved.looping hrest
    unfold loopLog at horderly hlooping ⊢
    rw [Setting.log_cons hr, List.foldl_append]
    exact ⟨hmoved.orderly.append horderly, hlooping⟩

/-- From the flag on at most one call of `take` returns, and nothing is handled
before it does. -/
theorem run_took {moves : List (Move Outside)} :
    ∀ {h : Hand} {p q : Running}, Looping k h p → p.state.stopped = true →
      (setting behaviour).run? moves p = some q →
      ∃ taken later, loopLog behaviour k moves p = taken ++ later ∧ taken.length ≤ 1 ∧
        (∀ x ∈ taken, x.isTook = true) ∧ (∀ x ∈ later, x.isTook = false) ∧
        (¬ Asking (loopThread k p) → taken = []) := by
  induction moves with
  | nil =>
    intro h p q _ _ _
    exact ⟨[], [], rfl, by simp, by simp, by simp, fun _ => rfl⟩
  | cons a rest ih =>
    intro h p q hp hstopped hrun
    obtain ⟨r, hr, hrest⟩ := Setting.run?_cons.mp hrun
    have hmoved := move_looping hp hr
    obtain ⟨taken, later, hlog, hlength, htaken, hlater, hnone⟩ :=
      ih hmoved.looping (hmoved.stopped hstopped) hrest
    unfold loopLog at hlog ⊢
    rw [Setting.log_cons hr, hlog]
    rcases hmoved.took with ⟨hnot, hnothing⟩ | hempty | ⟨t, ht, hasking, hquiet⟩
    · -- the loop takes no more
      obtain rfl := hnone (hmoved.quits hstopped hnot)
      refine ⟨[], _, rfl, by simp, by simp, ?_, fun _ => rfl⟩
      intro x hx
      rcases List.mem_append.mp hx with hx | hx
      · exact hnothing x hx
      · exact hlater x hx
    · rw [hempty]
      exact ⟨taken, later, rfl, hlength, htaken, hlater,
        fun hnot => hnone (hmoved.quits hstopped hnot)⟩
    · -- this is the one call that returns
      obtain rfl := hnone hquiet
      rw [ht]
      exact ⟨[.took t], later, rfl, by simp, by simp [Seen.isTook], hlater,
        fun hnot => absurd hasking hnot⟩

end ChangeWatch.Stopping
