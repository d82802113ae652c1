import ChangeWatch.Proofs.Service.Steps
import ChangeWatch.Proofs.Strategy.Walk
import ChangeWatch.Proofs.Watch.Follows

/-!
# What a job does to flags, queue and debouncer

Of the many jobs of a watch few do anything to its flags, to the queue of its
service or to its debouncer.  `ControlEffect` lists them: a call of `stop` that sets the
flag, the steps of closing, the jobs of the desk, and taking from the queue; any
other job is `Calm`.  `perform_controlEffect` says that there is nothing else, so that
an invariant of the flags has five cases to deal with.  What a calm job leads to is
read off the jobs that can follow it (`Follows.plain`).

The jobs of a call of `stop` that come after the flag (`Job.stops`) and the jobs
that take up a dispatch (`Job.begins`) are put into a thread by no calm job.

A watch that was just built is `Fresh`, and how it was set up is changed by no job at
all (`SameSetup`, `perform_sameSetup`).
-/

namespace ChangeWatch

namespace Job

/-- A job of a call of `stop` that has set the flag. -/
def stops : Job → Bool
  | .close _ | .closed | .desk .shutdown => true
  | _ => false

/-- A job that closes the service or shuts the debouncer down. -/
def closes : Job → Bool
  | .close _ | .desk .shutdown => true
  | _ => false

/-- A job that takes up a dispatch. -/
def begins : Job → Bool
  | .desk (.begin _) => true
  | _ => false

/-- A job that neither stops the watch nor is one of the desk, unless a callback asks for
it. -/
def calm : Job → Bool
  | .stop | .close _ => false
  | .desk (.request ..) => true
  | .desk _ => false
  | _ => true

theorem closes_of_calm {job : Job} (h : job.calm = true) : job.closes = false := by
  cases job with
  | close step => exact absurd h (by simp [calm])
  | desk job =>
    cases job with
    | shutdown => exact absurd h (by simp [calm])
    | _ => rfl
  | _ => rfl

/-- A job that is neither part of a loop nor leads to one, once the watch is
started. -/
def inner : Job → Bool
  | .start _ | .started .. | .stop | .close _ | .closed | .pickUp .. | .walk (.pickup ..) ..
  | .survey .. | .dispatch .. | .announce .. | .desk _ => true
  | _ => false

end Job

namespace Watch

variable {behaviour : Behaviour Wish} {w : Watch} {job : Job} {d : Done Watch Job}

/-! ### At the beginning -/

/-- A watch that was just built from these parts. -/
structure Fresh (strategy : Strategy) (handlers : Handlers) (options : Options) (w : Watch) :
    Prop where
  strategy_eq : w.strategy = strategy
  handlers_eq : w.handlers = handlers
  delay_eq : w.delay = options.delay
  debouncer_eq : w.desk.debouncer = debouncerFor options.delay options.policy
  parked_eq : w.executor.parked = []
  started_eq : w.started = false
  stopped_eq : w.stopped = false

theorem fresh_of_new {strategy : Strategy} {handlers : Handlers} {options : Options} {disk : Disk}
    (h : Watch.new strategy handlers options disk = .ok w) : Fresh strategy handlers options w := by
  unfold Watch.new at h
  split at h
  · exact absurd h (by simp)
  · obtain rfl := Except.ok.inj h
    exact ⟨rfl, rfl, rfl, rfl, rfl, rfl, rfl⟩

theorem eq_of_debouncerFor {delay : Duration} {policy : Option Policy} {g : Debouncer}
    (h : debouncerFor delay policy = some g) : g = .new delay (policy.getD .ranged) := by
  cases policy with
  | some policy => exact (Option.some.inj h).symm
  | none =>
    unfold debouncerFor at h
    dsimp only at h
    split at h
    · exact absurd h (by simp)
    · exact (Option.some.inj h).symm

/-- Changes are gathered whenever there is a delay. -/
theorem debouncerFor_eq_some {delay : Duration} (hdelay : delay.isZero = false)
    (policy : Option Policy) :
    debouncerFor delay policy = some (.new delay (policy.getD .ranged)) := by
  cases policy with
  | some policy => rfl
  | none =>
    unfold debouncerFor
    dsimp only
    rw [hdelay]
    rfl

/-! ### Registrations -/

/-- Registering the parent of a file leaves the service alike. -/
theorem alike_registerFile (t : FileTarget) (kinds : List EventKind) (ground : Ground) :
    (t.register ground kinds).2.service.Alike ground.service :=
  ground.service.alike_register ground.disk t.parent kinds

/-- Entering a directory leaves the service alike, registered or not. -/
theorem alike_enter (kinds : List EventKind) (dir : Path) (depth : Nat)
    (k : DirTree.Walk Ground) :
    (DirTree.enter kinds dir depth k).2.site.service.Alike k.site.service := by
  have halike : (Site.register dir kinds k.site).2.service.Alike k.site.service :=
    k.site.service.alike_register k.site.disk dir kinds
  rcases DirTree.enter_cases kinds dir depth k with
    ⟨_, _, hregister, heq⟩ | ⟨_, _, _, _, hregister, -, heq⟩ <;>
    (rw [hregister] at halike; rw [heq]; exact halike)

/-- A step of a walk leaves the service alike. -/
theorem alike_advance (kinds : List EventKind) (errand : DirTree.Errand)
    (k : DirTree.Walk Ground) :
    (DirTree.advance kinds errand k).2.site.service.Alike k.site.service := by
  rcases DirTree.advance_cases kinds errand k with ⟨dir, depth, -, heq⟩ | ⟨warnings, heq⟩
  · rw [heq]
    exact alike_enter kinds dir depth k
  · rw [heq]
    exact .refl _

/-! ### Calm jobs -/

/-- A watch whose flags, queue and debouncer are those of another one; the start may have
been claimed. -/
structure Quiet (w w' : Watch) : Prop where
  started : w.started = true → w'.started = true
  stopped : w'.stopped = w.stopped
  service : w'.ground.service.Alike w.ground.service
  debouncer : w'.desk.debouncer = w.desk.debouncer

theorem Quiet.refl (w : Watch) : Quiet w w := ⟨id, rfl, .refl _, rfl⟩

/-- What a job comes to that leaves the flags, the queue and the debouncer as they
are; it may claim the start. -/
structure Calm (w : Watch) (d : Done Watch Job) : Prop extends Quiet w d.state where
  next : ∀ j ∈ d.next, j.stops = false ∧ j.begins = false
  spawned : ∀ t ∈ d.spawned, ∀ j ∈ t, j.stops = false ∧ j.begins = false

/-- What follows something that was taken is no part of a call of `stop` that has set the
flag. -/
theorem afterTaken_plain {taken : Taken} {j : Job} (h : j ∈ afterTaken taken) :
    j.stops = false ∧ j.begins = false := by
  rcases mem_afterTaken h with ⟨_, _, rfl⟩ | ⟨_, rfl⟩ | rfl | rfl | rfl <;> exact ⟨rfl, rfl⟩

theorem startFailed_plain {caller : Caller} {e : WatchError} {j : Job}
    (h : j ∈ startFailed caller e) : j.stops = false ∧ j.begins = false := by
  rcases List.mem_cons.mp h with rfl | h
  · exact ⟨rfl, rfl⟩
  · rw [List.mem_singleton.mp h]
    exact ⟨rfl, rfl⟩

/-- A calm job leads to none of a call of `stop` that has set the flag, and to none that
takes up a dispatch. -/
theorem Follows.plain {j : Job} (h : Follows w job j) (hjob : job.calm = true) :
    j.stops = false ∧ j.begins = false := by
  cases h with
  | rootRefused _ _ hj | walkFailed _ _ _ _ hj | submitRefused _ _ hj => exact startFailed_plain hj
  | taken _ hj | received _ hj => exact afterTaken_plain hj
  | stop | close => exact absurd hjob (by simp [Job.calm])
  | broken _ _ _ _ hj =>
    rcases List.mem_cons.mp hj with rfl | hj
    · exact ⟨rfl, rfl⟩
    · rw [List.mem_singleton.mp hj]
      exact ⟨rfl, rfl⟩
  | desk job j hplain =>
    cases job with
    | request r x => exact absurd rfl (hplain r x)
    | _ => exact absurd hjob (by simp [Job.calm])
  | _ => exact ⟨rfl, rfl⟩

/-! ### All jobs -/

/-- What a job does to the flags, the queue and the debouncer. -/
inductive ControlEffect (behaviour : Behaviour Wish) (w : Watch) : Job → Done Watch Job → Prop
  /-- A call of `stop` that sets the flag. -/
  | stop : w.stopped = false →
      ControlEffect behaviour w .stop
        (.andThen { w with stopped := true } [.close .mark, .closed, .desk .shutdown])
  | close (step : CloseStep) :
      ControlEffect behaviour w (.close step)
        (.andThen (w.withService (w.ground.service.closeStep step).1)
          ((w.ground.service.closeStep step).2.toList.map .close))
  | receive {taken : Taken} {service : Service} :
      w.ground.service.receive = some (taken, service) →
        ControlEffect behaviour w .receive (.andThen (w.withService service) (afterTaken taken))
  | desk {job : Desk.Job Wish} {desk : Desk} {next : List (Desk.Job Wish)} :
      Desk.perform behaviour job w.desk = some (desk, next) →
        ControlEffect behaviour w (.desk job) (.andThen { w with desk } (next.map .desk))
  | calm {job : Job} {d : Done Watch Job} :
      job.closes = false → Calm w d → ControlEffect behaviour w job d

/-- A job sets the stop flag, closes the service, takes from the queue or is one of
the desk, and else it is calm. -/
theorem perform_controlEffect (h : perform behaviour job w = some d) :
    ControlEffect behaviour w job d := by
  have hthreads := perform_threadEffect h
  -- of a calm job only the watch it leaves behind needs to be looked at
  have hcalm : job.calm = true → Quiet w d.state → ControlEffect behaviour w job d := by
    intro hjob hquiet
    refine .calm (Job.closes_of_calm hjob)
      ⟨hquiet, fun j hj => (hthreads.next j hj).plain hjob, fun t ht j hj => ?_⟩
    rcases hthreads.spawned with hnone | ⟨hloop, -⟩
    · exact absurd (hnone ▸ ht) List.not_mem_nil
    · rw [hloop] at ht
      rw [List.mem_singleton.mp ht] at hj
      rw [List.mem_singleton.mp hj]
      exact ⟨rfl, rfl⟩
  cases perform_outcome h with
  | stopped hrunning => exact .stop hrunning
  | stoppedBefore => exact .calm rfl ⟨.refl w, by simp [Done.just], by simp [Done.just]⟩
  | closing step => exact .close step
  | received hreceive => exact .receive hreceive
  | desk _ hdesk => exact .desk hdesk
  -- the service is asked for something, or the start is claimed
  | claimed => exact hcalm rfl ⟨fun _ => rfl, rfl, .refl _, rfl⟩
  | fileRegistered _ t _ hregister | fileRefused _ t _ hregister =>
    have halike := alike_registerFile t w.kinds w.ground
    rw [hregister] at halike
    exact hcalm rfl ⟨id, rfl, halike, rfl⟩
  | walked _ errand _ _ tree _ _ hadvance | walkBroken _ errand _ _ tree _ _ hadvance =>
    have halike := alike_advance w.kinds errand (.start w.ground tree)
    rw [hadvance] at halike
    exact hcalm rfl ⟨id, rfl, halike, rfl⟩
  | taken henter | waiting henter =>
    have halike := w.ground.service.enter_eq.2
    rw [henter] at halike
    exact hcalm rfl ⟨id, rfl, halike, rfl⟩
  | reset key => exact hcalm rfl ⟨id, rfl, w.ground.service.alike_reset w.ground.disk key, rfl⟩
  | _ => exact hcalm rfl ⟨id, rfl, .refl _, rfl⟩

/-- Once set, a flag stays set. -/
theorem perform_flags (h : perform behaviour job w = some d) :
    (w.started = true → d.state.started = true) ∧ (w.stopped = true → d.state.stopped = true) := by
  cases perform_controlEffect h with
  | stop _ => exact ⟨id, fun _ => rfl⟩
  | close step => exact ⟨id, id⟩
  | receive _ => exact ⟨id, id⟩
  | desk _ => exact ⟨id, id⟩
  | calm _ hcalm => exact ⟨hcalm.started, fun hs => hcalm.stopped.trans hs⟩

/-! ### What no job changes -/

/-- Two targets that differ at most in the nodes of a tree. -/
def Regrown : Target → Target → Prop
  | .file s, .file t => s = t
  | .tree s, .tree t => s.root = t.root ∧ s.maxDepth = t.maxDepth
  | _, _ => False

theorem Regrown.refl (t : Target) : Regrown t t := by
  cases t with
  | file t => rfl
  | tree t => exact ⟨rfl, rfl⟩

theorem Regrown.trans {r s t : Target} (h : Regrown r s) (h' : Regrown s t) : Regrown r t := by
  cases r <;> cases s <;> cases t <;> first
    | exact h.elim
    | exact h'.elim
    | exact Eq.trans h h'
    | exact ⟨h.1.trans h'.1, h.2.trans h'.2⟩

/-- A watch that is set up as another is. -/
structure SameSetup (w w' : Watch) : Prop where
  target : Regrown w.strategy.target w'.strategy.target
  override : w'.strategy.override = w.strategy.override
  handlers : w'.handlers = w.handlers
  delay : w'.delay = w.delay

theorem SameSetup.refl (w : Watch) : SameSetup w w := ⟨.refl _, rfl, rfl, rfl⟩

theorem SameSetup.trans {u v w : Watch} (h : SameSetup u v) (h' : SameSetup v w) : SameSetup u w :=
  ⟨h.target.trans h'.target, h'.override.trans h.override, h'.handlers.trans h.handlers,
    h'.delay.trans h.delay⟩

/-- A watch stays one over the same file. -/
theorem SameSetup.file {w w' : Watch} {t : FileTarget} (h : SameSetup w w')
    (ht : w.strategy.target = .file t) : w'.strategy.target = .file t := by
  have htarget := h.target
  rw [ht] at htarget
  cases hw' : w'.strategy.target with
  | file t' =>
    rw [hw'] at htarget
    exact congrArg Target.file htarget.symm
  | tree t' =>
    rw [hw'] at htarget
    exact htarget.elim

/-- A step of a walk only adds nodes. -/
theorem advance_kept (kinds : List EventKind) (errand : DirTree.Errand)
    (k : DirTree.Walk Ground) : (DirTree.advance kinds errand k).2.tree.root = k.tree.root ∧
      (DirTree.advance kinds errand k).2.tree.maxDepth = k.tree.maxDepth := by
  rcases DirTree.advance_cases kinds errand k with ⟨dir, depth, -, heq⟩ | ⟨warnings, heq⟩
  · rw [heq]
    rcases DirTree.enter_cases kinds dir depth k with
      ⟨_, _, -, henter⟩ | ⟨_, _, _, _, -, -, henter⟩ <;> rw [henter]
    · exact ⟨rfl, rfl⟩
    · exact ⟨DirTree.setNode_root _ _ _, DirTree.setNode_maxDepth _ _ _⟩
  · rw [heq]
    exact ⟨rfl, rfl⟩

/-- How a watch is set up stays as it is, save for the nodes of a tree. -/
theorem perform_sameSetup (h : perform behaviour job w = some d) : SameSetup w d.state := by
  cases perform_outcome h with
  | walked _ errand _ _ tree _ htarget hadvance
  | walkBroken _ errand _ _ tree _ htarget hadvance =>
    -- only a walk writes to the target
    have hkept := advance_kept w.kinds errand (.start w.ground tree)
    rw [hadvance] at hkept
    refine ⟨?_, rfl, rfl, rfl⟩
    rw [htarget]
    exact ⟨hkept.1.symm, hkept.2.symm⟩
  | _ => exact ⟨.refl _, rfl, rfl, rfl⟩

/-! ### Jobs of the desk -/

/-- A job of the desk that only concerns the journal. -/
theorem perform_record {job : Desk.Job Wish} (hjob : ∀ g, Desk.operate g job = some (g, []))
    (hplain : ∀ r x, job ≠ .request r x) (w : Watch) :
    perform behaviour (.desk job) w = some (.andThen
      { w with desk := { w.desk with journal := (Desk.record behaviour w.desk.journal job).1 } }
      ((Desk.record behaviour w.desk.journal job).2.map .desk)) := by
  have hdesk : Desk.perform behaviour job w.desk =
      some ({ w.desk with journal := (Desk.record behaviour w.desk.journal job).1 },
        (Desk.record behaviour w.desk.journal job).2) := by
    unfold Desk.perform
    dsimp only
    split
    · next hnone => rw [hnone]
    · next g hg => rw [hjob, hg, Option.map_some, List.append_nil]
  have hperform : perform behaviour (.desk job) w = (Desk.perform behaviour job w.desk).map
      fun r => .andThen { w with desk := r.1 } (r.2.map .desk) := by
    cases job with
    | request r x => exact absurd rfl (hplain r x)
    | _ => rfl
  rw [hperform, hdesk]
  rfl

/-! ### Jobs beside the loop -/

theorem Follows.inner {j : Job} (h : Follows w job j) (hjob : job.inner = true)
    (hstarted : w.started = true) : j.inner = true := by
  cases h with
  | claimed _ hfresh => exact absurd (hstarted.symm.trans hfresh) (by simp)
  | stop _ hj =>
    simp only [List.mem_cons, List.not_mem_nil, or_false] at hj
    rcases hj with rfl | rfl | rfl <;> rfl
  | broken _ _ _ _ hj =>
    rcases List.mem_cons.mp hj with rfl | hj
    · rfl
    · rw [List.mem_singleton.mp hj]
      rfl
  | walk purpose =>
    cases purpose with
    | start caller => exact absurd hjob (by simp [Job.inner])
    | pickup event path => rfl
  | _ => first | rfl | exact absurd hjob (by simp [Job.inner])

/-- A job beside the loop is followed by such jobs alone, and starts no thread. -/
theorem perform_inner (h : perform behaviour job w = some d) (hinner : job.inner = true)
    (hstarted : w.started = true) : (∀ j ∈ d.next, j.inner = true) ∧ d.spawned = [] := by
  have hthreads := perform_threadEffect h
  refine ⟨fun j hj => (hthreads.next j hj).inner hinner hstarted, hthreads.spawned.resolve_right ?_⟩
  rintro ⟨-, caller, rfl⟩
  exact absurd hinner (by simp [Job.inner])

end Watch

end ChangeWatch
