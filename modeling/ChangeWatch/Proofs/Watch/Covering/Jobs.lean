import ChangeWatch.Proofs.Dispatch.Shutdown
import ChangeWatch.Proofs.Service.Roster
import ChangeWatch.Proofs.Strategy.Agenda
import ChangeWatch.Proofs.Watch.Nodes
import ChangeWatch.Proofs.Watch.Serving

/-!
# What a job makes of what a watch covers

A `Cover` is what a watch over a tree has to show: which directories are registered, under
which keys, and the nodes of its tree.  What a job still has to do to it can be said in one
go (`Cover.job`): a walk is carried out to its end, a creation is picked up with all that is
below it, and a start that fails closes everything again.

That is conserved: what a job does to the cover, and what the jobs that follow it have still
to do, come to what was to be done before.  Most jobs do nothing at all (`Job.light`,
`perform_light`); of those that do, some belong to an event (`perform_event`), others lead the
watch from its start to the loop or to its end (`perform_launch`, `Submitted`).
-/

namespace ChangeWatch

/-- What is registered with the service of a watch, the disk, and the nodes of its tree. -/
structure Cover where
  roster : Roster
  tree : DirTree

namespace Cover

/-- What a watch over a tree covers. -/
def of (s : NotifyingService) (disk : Disk) (t : DirTree) : Cover :=
  ⟨s.roster disk, t⟩

/-! ### What is to be done -/

/-- A walk from here is carried out to its end; said with it is whether it was broken off. -/
def walk (agenda : List DirTree.Errand) (c : Cover) : Cover × Bool :=
  let k := DirTree.carryOut [] agenda (.start c.roster c.tree)
  (⟨k.site, k.tree⟩, k.failure.isSome)

/-- The service lets go of its backend, and of all that was registered. -/
def close (c : Cover) : Cover :=
  let service := c.roster.service
  ⟨⟨{ service with backend := none, registry := service.registry.clear }, c.roster.disk⟩, c.tree⟩

/-- The walk of a start is carried out.  All is closed again if it is broken off, or if the
executor then refuses the loop. -/
def launch (refuses : Bool) (agenda : List DirTree.Errand) (c : Cover) : Cover :=
  let (walked, broken) := c.walk agenda
  if broken || refuses then walked.close else walked

/-- What appeared at a path under a key is registered. -/
def pickUp (key : Key) (path : Path) (c : Cover) : Cover :=
  match c.tree.pickupDepth? c.roster.disk key path with
  | none => c
  | some depth => (c.walk [.look path depth]).1

/-- An event is handled: a creation is picked up, and nothing else concerns the cover. -/
def event (key : Key) (event : RawEvent) (c : Cover) : Cover :=
  if event.kind = .create then
    match c.tree.resolve key event with
    | none => c
    | some path => c.pickUp key path
  else c

/-- A job is done, with all that follows it. -/
def job (refuses : Bool) (c : Cover) : Job → Cover
  | .startUnlessStopped _ | .registerRoot _ => c.launch refuses [.look c.tree.root 0]
  | .walk (.start _) agenda _ => c.launch refuses agenda
  | .walk (.pickup ..) agenda _ => (c.walk agenda).1
  | .submit _ => if refuses then c.close else c
  | .stop | .close _ => c.close
  | .handle key event => c.event key event
  | .pickUp _ key _ path => c.pickUp key path
  | _ => c

/-- Something in the queue is handled, event by event. -/
def signal (c : Cover) : Signal → Cover
  | .batch b => b.events.foldl (fun c event => c.event b.key event) c
  | _ => c

/-! ### Walks, step by step -/

/-- What is left of a walk after its first errand. -/
theorem walk_cons (c : Cover) {errand : DirTree.Errand} {rest more : List DirTree.Errand}
    {k : DirTree.Walk Roster}
    (h : DirTree.advance [] errand (.start c.roster c.tree) = (more, k)) :
    c.walk (errand :: rest) =
      if k.failure.isSome then (⟨k.site, k.tree⟩, true)
      else (⟨k.site, k.tree⟩ : Cover).walk (more ++ rest) := by
  unfold walk
  rw [DirTree.carryOut_step rfl, h]
  cases hfailure : k.failure with
  | some e =>
    rw [DirTree.carryOut_of_failed hfailure]
    dsimp only
    rw [hfailure]
    rfl
  | none =>
    rw [DirTree.carryOut_fresh hfailure]
    rfl

end Cover

/-- Whether an executor takes on no work. -/
def Manner.refuses : Manner → Bool
  | .refusing _ => true
  | _ => false

/-! ### Jobs that leave the cover alone -/

namespace Job

/-- A job that does nothing to what a watch covers, once the watch is started and as long as all
registered directories are there. -/
def light : Job → Bool
  | .start _ | .started .. | .closed | .survey .. | .dispatch .. | .announce .. | .reset _ => true
  | .desk (.request .stop _) => false
  | .desk _ => true
  | _ => false

/-- A job that an event is handled by. -/
def event : Job → Bool
  | .handle .. | .pickUp .. | .walk (.pickup ..) .. => true
  | job => job.light

/-- A job by which a running watch is led to its loop, or to its end. -/
def leads : Job → Bool
  | .startUnlessStopped _ | .registerRoot _ | .walk (.start _) .. | .submit _ | .stop => true
  | _ => false

theorem event_of_light {job : Job} (h : job.light = true) : job.event = true := by
  cases job with
  | walk purpose => exact absurd h (by simp [light])
  | _ => first | exact h | rfl

end Job

theorem Cover.job_of_light {job : Job} (h : job.light = true) (refuses : Bool) (c : Cover) :
    c.job refuses job = c := by
  cases job with
  | desk job => rfl
  | _ => first | rfl | exact absurd h (by simp [Job.light])

theorem Cover.jobs_of_light {jobs : List Job} (h : ∀ j ∈ jobs, j.light = true) (refuses : Bool)
    (c : Cover) : jobs.foldl (Cover.job refuses) c = c := by
  induction jobs with
  | nil => rfl
  | cons job rest ih =>
    rw [List.foldl_cons, c.job_of_light (h job List.mem_cons_self)]
    exact ih fun j hj => h j (List.mem_cons_of_mem _ hj)

namespace Notified

open Watch

/-- No callback asks for a stop. -/
def Spares (behaviour : Behaviour Wish) : Prop :=
  ∀ n callback context, Wish.stop ∉ (behaviour n callback context).requests

variable {behaviour : Behaviour Wish} {w : Watch} {job : Job} {d : Done Watch Job}
  {s : NotifyingService} {t : DirTree} {refuses : Bool}

theorem afterCommit_light (dispatch : Dispatch) (caller : Caller) (c : Commitment) :
    ∀ j ∈ (Desk.afterCommit dispatch caller c : List (Desk.Job Wish)),
      (Job.desk j).light = true := by
  intro j hj
  rcases c with _ | _ | _ | warning <;>
    simp only [Desk.afterCommit, List.mem_cons, List.not_mem_nil, or_false] at hj
  · rw [hj]
    rfl
  · rcases hj with rfl | rfl | rfl <;> rfl
  · rw [hj]
    rfl
  · rcases hj with rfl | rfl <;> rfl

/-- What follows a job at the debouncer asks for nothing. -/
theorem operate_light {g g' : Debouncer} {job : Desk.Job Wish} {next : List (Desk.Job Wish)}
    (h : Desk.operate g job = some (g', next)) : ∀ j ∈ next, (Job.desk j).light = true := by
  cases Desk.operate_operates h with
  | commits d caller => exact afterCommit_light d caller _
  | fallsIn | opens | begins =>
    intro j hj
    rw [List.mem_singleton.mp hj]
    rfl
  | unlocks | closes | remains | idles => exact fun j hj => absurd hj List.not_mem_nil

/-- What follows a job of the desk is light, since no callback asks for a stop. -/
theorem desk_light (hspares : Spares behaviour) {job : Desk.Job Wish} {desk desk' : Desk}
    {next : List (Desk.Job Wish)} (h : Desk.perform behaviour job desk = some (desk', next)) :
    ∀ j ∈ next, (Job.desk j).light = true := by
  have hrecorded : ∀ j ∈ (Desk.record behaviour desk.journal job).2,
      (Job.desk j).light = true := by
    intro j hj
    cases job with
    | call callback context onPanic =>
      rcases List.mem_append.mp hj with hj | hj
      · obtain ⟨wish, hwish, rfl⟩ := List.mem_map.mp hj
        cases wish with
        | start => rfl
        | stop => exact absurd hwish (hspares _ _ _)
      · split at hj
        · rw [List.mem_singleton.mp hj]
          rfl
        · exact absurd hj List.not_mem_nil
    | _ => exact absurd hj List.not_mem_nil
  rcases Desk.perform_cases h with ⟨-, -, rfl⟩ | ⟨g, g', more, -, -, hoperate, rfl⟩
  · exact hrecorded
  · intro j hj
    exact (List.mem_append.mp hj).elim (hrecorded j) (operate_light hoperate j)

/-- A job that touches nothing but the desk, and is followed by such jobs alone. -/
structure Light (w : Watch) (d : Done Watch Job) : Prop where
  state : ∃ desk, d.state = { w with desk }
  next : ∀ j ∈ d.next, j.light = true
  spawned : d.spawned = []

/-- A light job touches nothing but the desk. -/
theorem perform_light (hspares : Spares behaviour) (h : perform behaviour job w = some d)
    (hjob : job.light = true) (hstarted : w.started = true)
    (hreset : ∀ key, (w.ground.service.reset w.ground.disk key).2 = w.ground.service) :
    Light w d := by
  have hone : ∀ {j : Job}, j.light = true → Light w (.andThen w [j]) := fun hj =>
    ⟨⟨w.desk, rfl⟩, fun j' hj' => List.mem_singleton.mp hj' ▸ hj, rfl⟩
  have hjust : ∀ desk, Light w (.just { w with desk }) := fun desk =>
    ⟨⟨desk, rfl⟩, fun _ hj => absurd hj List.not_mem_nil, rfl⟩
  cases perform_outcome h with
  | claimed _ hfresh => exact absurd (hstarted.symm.trans hfresh) (by simp)
  | repeated | surveyed | announced | startWished => exact hone rfl
  | answered | closeFailed => exact hjust _
  | closed => exact hjust w.desk
  | listed => exact ⟨⟨_, rfl⟩, fun j hj => List.mem_singleton.mp hj ▸ rfl, rfl⟩
  | dispatched event path found =>
    refine ⟨⟨w.desk, rfl⟩, fun j hj => ?_, rfl⟩
    cases follows_handOverAll event path found j hj <;> rfl
  | reset key =>
    have hsame : w.withService (w.ground.service.reset w.ground.disk key).2 = w := by
      rw [hreset]
      rfl
    rw [hsame]
    exact hjust w.desk
  | desk _ hdesk =>
    refine ⟨⟨_, rfl⟩, fun j hj => ?_, rfl⟩
    obtain ⟨x, hx, rfl⟩ := List.mem_map.mp hj
    exact desk_light hspares hdesk x hx
  | _ => exact absurd hjob (by simp [Job.light])

/-! ### Jobs that go on with it -/

/-- A job changes what a watch covers, and what follows it has still to do what it has not done. -/
structure Onward (refuses : Bool) (w : Watch) (s : NotifyingService) (t : DirTree) (job : Job)
    (d : Done Watch Job) (s' : NotifyingService) (t' : DirTree) : Prop where
  setup : Over d.state s' t'
  disk : d.state.ground.disk = w.ground.disk
  closed : s'.closed = s.closed
  queue : s'.queue = s.queue
  started : d.state.started = w.started
  stopped : d.state.stopped = w.stopped
  executor : d.state.executor = w.executor
  conserved : d.next.foldl (Cover.job refuses) (.of s' w.ground.disk t') =
    (Cover.of s w.ground.disk t).job refuses job

/-- A job that leaves the watch as it is. -/
theorem Onward.same (hw : Over w s t) {next : List Job}
    (h : next.foldl (Cover.job refuses) (.of s w.ground.disk t) =
      (Cover.of s w.ground.disk t).job refuses job) :
    Onward refuses w s t job (.andThen w next) s t :=
  ⟨hw, rfl, rfl, rfl, rfl, rfl, rfl, h⟩

theorem Light.onward (h : Light w d) (hw : Over w s t) (hjob : job.light = true) :
    Onward refuses w s t job d s t := by
  obtain ⟨⟨desk, hstate⟩, hnext, -⟩ := h
  have hconserved : d.next.foldl (Cover.job refuses) (.of s w.ground.disk t) =
      (Cover.of s w.ground.disk t).job refuses job := by
    rw [Cover.jobs_of_light hnext, Cover.job_of_light hjob]
  have hover : Over d.state s t := by
    rw [hstate]
    exact ⟨hw.service, hw.target⟩
  refine ⟨hover, ?_, rfl, rfl, ?_, ?_, ?_, hconserved⟩ <;> rw [hstate]

/-- What comes of a walk after one errand. -/
inductive Walked (w : Watch) (s : NotifyingService) (t : DirTree) (purpose : Purpose)
    (agenda : List DirTree.Errand) (s' : NotifyingService) (t' : DirTree) : List Job → Prop
  | broken (e : WatchError) :
      (Cover.of s w.ground.disk t).walk agenda = (.of s' w.ground.disk t', true) →
      Walked w s t purpose agenda s' t' (afterBrokenWalk e purpose)
  | onward (left : List DirTree.Errand) (registered : List Path) :
      (Cover.of s w.ground.disk t).walk agenda = (Cover.of s' w.ground.disk t').walk left →
      Walked w s t purpose agenda s' t' [.walk purpose left registered]

/-- A step of a walk has done its part of the walk, and touches nothing else. -/
theorem perform_walked {purpose : Purpose} {errand : DirTree.Errand} {rest : List DirTree.Errand}
    {registered : List Path} (hw : Over w s t)
    (h : perform behaviour (.walk purpose (errand :: rest) registered) w = some d) :
    ∃ s' t', Walked w s t purpose (errand :: rest) s' t' d.next ∧ d.spawned = [] ∧
      (d.next.foldl (Cover.job refuses) (.of s' w.ground.disk t') =
          (Cover.of s w.ground.disk t).job refuses (.walk purpose (errand :: rest) registered) →
        Onward refuses w s t (.walk purpose (errand :: rest) registered) d s' t') := by
  have hground : w.ground = ⟨.notifying s, w.ground.disk⟩ := by
    rw [← hw.service]
  obtain ⟨more', s', t', found, warnings, failure, hadvance', hroster⟩ :=
    DirTree.advance_roster s w.ground.disk t w.kinds errand
  rw [← hground] at hadvance'
  have halike : Service.Alike (.notifying s') (.notifying s) := by
    have halike := alike_advance w.kinds errand (.start w.ground t)
    rw [hadvance'] at halike
    rwa [← hw.service]
  have hwalk : (Cover.of s w.ground.disk t).walk (errand :: rest) = _ := Cover.walk_cons _ hroster
  cases perform_outcome h with
  | walked _ _ _ _ tree k htarget hadvance hwhole =>
    obtain rfl := Target.tree.inj (hw.target.symm.trans htarget)
    obtain ⟨rfl, rfl⟩ := Prod.mk.inj (hadvance'.symm.trans hadvance)
    obtain rfl : failure = none := hwhole
    exact ⟨s', t', .onward _ _ hwalk, rfl, fun hconserved =>
      ⟨⟨rfl, rfl⟩, rfl, halike.closed, halike.signals, rfl, rfl, rfl, hconserved⟩⟩
  | @walkBroken _ _ _ _ tree k more e htarget hadvance hbroken =>
    obtain rfl := Target.tree.inj (hw.target.symm.trans htarget)
    obtain ⟨rfl, rfl⟩ := Prod.mk.inj (hadvance'.symm.trans hadvance)
    obtain rfl : failure = some e := hbroken
    exact ⟨s', t', .broken e hwalk, rfl, fun hconserved =>
      ⟨⟨rfl, rfl⟩, rfl, halike.closed, halike.signals, rfl, rfl, rfl, hconserved⟩⟩
  | walkEnded _ _ _ hended =>
    exact absurd hw.target (hended.resolve_left (by simp) t)

/-- What follows a resolution handles the event. -/
theorem afterResolve_conserved (c : Cover) (count : Nat) (key : Key) (event : RawEvent) :
    (afterResolve count key event (.ofOption (c.tree.resolve key event))).foldl
      (Cover.job refuses) c = c.event key event := by
  unfold Cover.event
  cases c.tree.resolve key event with
  | none => exact (ite_self c).symm
  | some path =>
    by_cases hcreate : event.kind = .create <;>
      simp only [Resolution.ofOption, afterResolve, hcreate, if_true, if_false] <;> rfl

/-- What follows the beginning of a pickup registers what appeared. -/
theorem pickUp_conserved (hw : Over w s t) (hoverride : w.strategy.override = .none) (count : Nat)
    (key : Key) (event : RawEvent) (path : Path) :
    (w.pickUp count key event path).foldl (Cover.job refuses) (.of s w.ground.disk t) =
      (Cover.of s w.ground.disk t).pickUp key path := by
  have hcreated : w.strategy.override.created count key path = none := by
    rw [hoverride]
    rfl
  have hdepth : (Cover.of s w.ground.disk t).tree.pickupDepth?
      (Cover.of s w.ground.disk t).roster.disk key path =
        t.pickupDepth? w.ground.disk key path := rfl
  unfold pickUp Cover.pickUp
  rw [hcreated, hw.target, hdepth]
  dsimp only
  cases t.pickupDepth? w.ground.disk key path with
  | none => rfl
  | some depth => rfl

/-- What follows an errand of a walk for a creation has still to do what is left of the walk. -/
theorem Walked.conserved {event : RawEvent} {path : Path} {agenda : List DirTree.Errand}
    {registered : List Path} {s' : NotifyingService} {t' : DirTree} {next : List Job}
    (h : Walked w s t (.pickup event path) agenda s' t' next) :
    next.foldl (Cover.job refuses) (.of s' w.ground.disk t') =
      (Cover.of s w.ground.disk t).job refuses (.walk (.pickup event path) agenda registered) := by
  have hjob : (Cover.of s w.ground.disk t).job refuses
      (.walk (.pickup event path) agenda registered) =
        ((Cover.of s w.ground.disk t).walk agenda).1 := rfl
  rw [hjob]
  cases h with
  | broken e hwalk =>
    rw [hwalk]
    rfl
  | onward left registered hwalk =>
    rw [hwalk]
    rfl

/-- What follows an errand of a walk for a creation is about its event. -/
theorem Walked.event {event : RawEvent} {path : Path} {agenda : List DirTree.Errand}
    {s' : NotifyingService} {t' : DirTree} {next : List Job}
    (h : Walked w s t (.pickup event path) agenda s' t' next) : ∀ j ∈ next, j.event = true := by
  intro j hj
  cases h with
  | broken e =>
    rcases List.mem_cons.mp hj with rfl | hj
    · rfl
    · exact List.mem_singleton.mp hj ▸ rfl
  | onward left registered => exact List.mem_singleton.mp hj ▸ rfl

/-- A job of an event is followed by such jobs, and has done its part. -/
theorem perform_event (hspares : Spares behaviour) (h : perform behaviour job w = some d)
    (hjob : job.event = true) (hw : Over w s t) (hstarted : w.started = true)
    (hoverride : w.strategy.override = .none)
    (hreset : ∀ key, (w.ground.service.reset w.ground.disk key).2 = w.ground.service) :
    (∃ s' t', Onward refuses w s t job d s' t') ∧ (∀ j ∈ d.next, j.event = true) ∧
      d.spawned = [] := by
  -- jobs that touch neither service nor nodes, and then the three that may
  cases hlight : job.light with
  | true =>
    have hdone := perform_light hspares h hlight hstarted hreset
    exact ⟨⟨s, t, hdone.onward hw hlight⟩, fun j hj => Job.event_of_light (hdone.next j hj),
      hdone.spawned⟩
  | false =>
    cases job with
    | handle key event =>
      obtain rfl := Option.some.inj h
      have hresolve : w.strategy.resolve w.handled key event =
          .ofOption (t.resolve key event) := by
        unfold Strategy.resolve
        rw [hoverride, hw.target]
        rfl
      refine ⟨⟨s, t, ⟨hw.service, hw.target⟩, rfl, rfl, rfl, rfl, rfl, rfl, ?_⟩, ?_, rfl⟩
      · rw [hresolve]
        exact afterResolve_conserved (.of s w.ground.disk t) w.handled key event
      · intro j hj
        cases follows_afterResolve key event _ j hj <;> rfl
    | pickUp count key event path =>
      obtain rfl := Option.some.inj h
      refine ⟨⟨s, t, .same hw (pickUp_conserved hw hoverride count key event path)⟩, ?_, rfl⟩
      intro j hj
      cases follows_pickUp count key event path j hj <;> rfl
    | walk purpose agenda registered =>
      cases purpose with
      | start caller => exact absurd hjob (by simp [Job.event, Job.light])
      | pickup event path =>
        cases agenda with
        | nil =>
          obtain rfl := Option.some.inj h
          exact ⟨⟨s, t, .same hw rfl⟩, fun j hj => List.mem_singleton.mp hj ▸ rfl, rfl⟩
        | cons errand rest =>
          -- only here the service and the nodes may become others
          obtain ⟨s', t', hwalked, hspawned, honward⟩ := perform_walked hw h
          exact ⟨⟨s', t', honward hwalked.conserved⟩, hwalked.event, hspawned⟩
    | _ => exact absurd (hjob.symm.trans hlight) (by simp)

/-! ### Jobs of a start -/

/-- What a start that failed is followed by, or a job of the start that is yet to be done. -/
def Led (next : List Job) : Prop :=
  ∃ first rest, next = first :: rest ∧ first.leads = true ∧ ∀ j ∈ rest, j.light = true

theorem led_one {j : Job} (h : j.leads = true) : Led [j] :=
  ⟨j, [], rfl, h, by simp⟩

theorem led_startFailed (caller : Caller) (e : WatchError) : Led (startFailed caller e) :=
  ⟨.stop, [.started caller (some e)], rfl, rfl, fun _ hj => List.mem_singleton.mp hj ▸ rfl⟩

/-- What follows an errand of the walk at the start goes on with the start. -/
theorem Walked.launched {caller : Caller} {agenda : List DirTree.Errand} {registered : List Path}
    {s' : NotifyingService} {t' : DirTree} {next : List Job}
    (h : Walked w s t (.start caller) agenda s' t' next) :
    Led next ∧ next.foldl (Cover.job refuses) (.of s' w.ground.disk t') =
      (Cover.of s w.ground.disk t).job refuses (.walk (.start caller) agenda registered) := by
  have hjob : (Cover.of s w.ground.disk t).job refuses (.walk (.start caller) agenda registered) =
      (Cover.of s w.ground.disk t).launch refuses agenda := rfl
  rw [hjob]
  unfold Cover.launch
  cases h with
  | broken e hwalk =>
    rw [hwalk]
    exact ⟨led_startFailed caller e, rfl⟩
  | onward left registered hwalk =>
    rw [hwalk]
    exact ⟨led_one rfl, rfl⟩

/-- A job of a start goes on with it, up to the submission. -/
theorem perform_launch (h : perform behaviour job w = some d) (hjob : job.leads = true)
    (hw : Over w s t) (hrunning : w.stopped = false) (hsubmit : ∀ caller, job ≠ .submit caller)
    (hstop : job ≠ .stop) :
    (∃ s' t', Onward refuses w s t job d s' t') ∧ Led d.next ∧ d.spawned = [] := by
  cases job with
  | startUnlessStopped caller =>
    simp only [perform, hrunning, Bool.false_eq_true, if_false] at h
    obtain rfl := Option.some.inj h
    exact ⟨⟨s, t, .same hw rfl⟩, led_one rfl, rfl⟩
  | registerRoot caller =>
    obtain rfl := Option.some.inj h
    unfold registerRoot
    rw [hw.target]
    exact ⟨⟨s, t, .same hw rfl⟩, led_one rfl, rfl⟩
  | walk purpose agenda registered =>
    cases purpose with
    | pickup event path => exact absurd hjob (by simp [Job.leads])
    | start caller =>
      cases agenda with
      | nil =>
        obtain rfl := Option.some.inj h
        refine ⟨⟨s, t, .same hw ?_⟩, led_one rfl, rfl⟩
        show _ = (Cover.of s w.ground.disk t).launch refuses []
        cases refuses <;> rfl
      | cons errand rest =>
        obtain ⟨s', t', hwalked, hspawned, honward⟩ := perform_walked hw h
        obtain ⟨hled, hconserved⟩ := hwalked.launched
        exact ⟨⟨s', t', honward hconserved⟩, hled, hspawned⟩
  | submit caller => exact absurd rfl (hsubmit caller)
  | stop => exact absurd rfl hstop
  | _ => exact absurd hjob (by simp [Job.leads])

/-- What a submission comes to. -/
inductive Submitted (w : Watch) (caller : Caller) : Done Watch Job → Prop
  | running (executor : Executor Job) : executor.manner = w.executor.manner →
      executor.parked = w.executor.parked → w.executor.manner.refuses = false →
      Submitted w caller ⟨{ w with executor }, [.started caller none], [[.run]]⟩
  | parked (executor : Executor Job) : executor.manner = w.executor.manner →
      executor.parked = w.executor.parked ++ [.run] → w.executor.manner.refuses = false →
      Submitted w caller (.andThen { w with executor } [.started caller none])
  | refused (e : WatchError) : w.executor.manner.refuses = true →
      Submitted w caller (.andThen w (startFailed caller e))

theorem submit_submitted (w : Watch) (caller : Caller) : Submitted w caller (w.submit caller) := by
  obtain ⟨strategy, handlers, kinds, delay, backend, ground, ⟨manner, spawned, parked⟩, desk, started,
    stopped, handled⟩ := w
  cases manner with
  | ownThread => exact .running _ rfl rfl rfl
  | pooled => exact .running _ rfl rfl rfl
  | parking => exact .parked _ rfl rfl rfl
  | refusing e => exact .refused e rfl

end Notified

end ChangeWatch
