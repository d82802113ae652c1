import ChangeWatch.Proofs.Watch.Delivering.Owing
import ChangeWatch.Proofs.Watch.Lifecycle.Deeds

/-!
# Kinds without a callback

A watch may have to register directories for changes of a kind that nobody has set a callback
for.  Then such changes are handled like all others, up to the moment at which they would be
handed to a callback: no job hands one on (`Unheard`, `perform_unheard`), so none is ever told
(`run_unheard`), whatever goes on at the watch.
-/

namespace ChangeWatch

/-- Changes of one kind are followed. -/
def Scope.only (kind : EventKind) : Scope Unit :=
  ⟨fun k => k = kind, fun _ => (), fun _ _ _ => True⟩

namespace Watch

variable {behaviour : Behaviour Wish} {w : Watch} {job : Job} {d : Done Watch Job}
  {kind : EventKind}

/-- A job that hands no change of a kind to a callback.  Entries are found because of creations
alone, and they are handed on as creations. -/
def Unheard (kind : EventKind) : Job → Prop
  | .pickUp _ _ event _ | .walk (.pickup event _) _ _ | .survey event _ _ _ => event.kind = .create
  | .dispatch event _ found => event.kind = .create ∨ found = []
  | .announce .. => kind ≠ .create
  | .desk (.call _ x _) => x.kind ≠ kind
  | .desk (.offer d _) | .desk (.commit d _) | .desk (.begin d) => d.context.kind ≠ kind
  | _ => True

/-- At the desk this says that nothing of the kind is owed, or gathered. -/
theorem unheard_desk (w : Watch) (job : Desk.Job Wish) : Unheard kind (.desk job) ↔
    (Scope.only kind).Fit w (.desk job) ∧ (Scope.only kind).owed w (.desk job) = [] := by
  have howed : ∀ callback x, (Scope.only kind).ran (.ran callback x) = [] ↔ x.kind ≠ kind := by
    intro callback x
    by_cases hkind : x.kind = kind <;> simp [Scope.ran, Scope.only, hkind]
  cases job with
  | call callback x onPanic => exact (howed callback x).symm.trans (iff_of_eq (true_and _)).symm
  | offer d caller | commit d caller | begin d =>
    simp [Unheard, Scope.Fit, Scope.only, Scope.owed]
  | _ => simp [Unheard, Scope.Fit, Scope.owed]

/-- What follows a job hands on no change of a kind, unless the job hands it to its callback. -/
theorem follows_unheard {j : Job} (h : Follows w job j) (hjob : Unheard kind job)
    (hdispatch : ∀ event path found, job ≠ .dispatch event path found)
    (hannounce : ∀ callback path, job ≠ .announce callback path)
    (hdesk : ∀ x : Desk.Job Wish, (∀ r y, x ≠ .request r y) → job ≠ .desk x) : Unheard kind j := by
  cases h with
  | rootRefused _ _ hj | walkFailed _ _ _ _ hj | submitRefused _ _ hj =>
    simp only [startFailed, List.mem_cons, List.not_mem_nil, or_false] at hj
    rcases hj with rfl | rfl <;> trivial
  | stop _ hj =>
    simp only [List.mem_cons, List.not_mem_nil, or_false] at hj
    rcases hj with rfl | rfl | rfl <;> trivial
  | taken _ hj | received _ hj =>
    rcases mem_afterTaken hj with ⟨_, _, rfl⟩ | ⟨_, rfl⟩ | rfl | rfl | rfl <;> trivial
  | broken _ _ _ _ hj =>
    simp only [List.mem_cons, List.not_mem_nil, or_false] at hj
    rcases hj with rfl | rfl
    · trivial
    · exact Or.inr rfl
  | created _ _ _ hcreate => exact hcreate
  | resolved => exact Or.inr rfl
  | pickup | survey | surveyOn => exact hjob
  | walk purpose => cases purpose <;> exact hjob
  | pickedUp | surveyed => exact Or.inl hjob
  | gathered | handedOver | announced => exact absurd rfl (hdispatch _ _ _)
  | called => exact absurd rfl (hannounce _ _)
  | desk job j hplain => exact absurd rfl (hdesk job hplain)
  | _ => trivial

/-- What is handed on has a callback for it. -/
theorem unheard_handOverAll (hhandler : w.handlers.get kind = none) {event : RawEvent}
    {path : Path} {found : List Path} (hjob : event.kind = .create ∨ found = []) :
    ∀ j ∈ w.handOverAll event path found, Unheard kind j := by
  intro j hj
  unfold handOverAll at hj
  split at hj
  · exact absurd hj List.not_mem_nil
  · next callback hcallback =>
    have hother : event.kind ≠ kind := by
      rintro rfl
      exact absurd (hhandler.symm.trans hcallback) (by simp)
    rcases List.mem_cons.mp hj with rfl | hj
    · unfold handOver
      split <;> exact hother
    · obtain ⟨p, hp, rfl⟩ := List.mem_map.mp hj
      rcases hjob with hcreate | rfl
      · exact fun heq => hother (hcreate.trans heq.symm)
      · exact absurd hp List.not_mem_nil

/-! ### Jobs -/

/-- A job that hands nothing of a kind to a callback is followed by such jobs, and tells nothing
of it. -/
theorem perform_unheard (h : perform behaviour job w = some d) (hjob : Unheard kind job)
    (hhandler : w.handlers.get kind = none) (htold : (Scope.only kind).told w = []) :
    (Scope.only kind).told d.state = [] ∧ ∀ j ∈ d.next, Unheard kind j := by
  have haside : (∀ event path found, job ≠ .dispatch event path found) →
      (∀ callback path, job ≠ .announce callback path) →
      (∀ x : Desk.Job Wish, (∀ r y, x ≠ .request r y) → job ≠ .desk x) →
      (Scope.only kind).told d.state = [] ∧ ∀ j ∈ d.next, Unheard kind j :=
    fun hdispatch hannounce hdesk => ⟨(Scope.perform_told h hdesk).trans htold,
      fun j hj =>
        follows_unheard ((perform_threadEffect h).next j hj) hjob hdispatch hannounce hdesk⟩
  cases perform_outcome h with
  | dispatched => exact ⟨htold, unheard_handOverAll hhandler hjob⟩
  | announced =>
    refine ⟨htold, fun j hj => ?_⟩
    rw [List.mem_singleton.mp hj]
    exact Ne.symm hjob
  | @desk x _ _ _ hx =>
    -- the desk passes on what it owes, and of the kind it owes nothing
    obtain ⟨hfit, howed⟩ := (unheard_desk w x).mp hjob
    obtain ⟨⟨new, htold', hpaid⟩, hnext⟩ := Scope.owed_desk hx hfit
    obtain ⟨rfl, hsilent⟩ := List.append_eq_nil_iff.mp (howed.symm.trans hpaid).symm
    refine ⟨by rw [htold', htold]; rfl, fun j hj => ?_⟩
    obtain ⟨y, hy, rfl⟩ := List.mem_map.mp hj
    exact (unheard_desk w y).mpr ⟨hnext _ hj, List.flatMap_eq_nil_iff.mp hsilent _ hj⟩
  | startWished x | stopWished x =>
    exact haside (by simp) (by simp) fun y hy heq => hy _ x (Job.desk.inj heq).symm
  | _ => exact haside (by simp) (by simp) (by simp)

/-- Nothing of a kind is given to the scheduler by such a job. -/
theorem unheard_gathers (h : perform behaviour job w = some d) (hjob : Unheard kind job)
    (hw : (Scope.only kind).Gathers w.desk) : (Scope.only kind).Gathers d.state.desk := by
  cases perform_controlEffect h with
  | stop | close | receive => exact hw
  | calm _ hcalm =>
    intro g hg
    rw [hcalm.debouncer] at hg
    exact hw g hg
  | @desk x => exact Scope.perform_gathers h ((unheard_desk w x).mp hjob).1 hw

/-! ### Runs -/

/-- Nothing of a kind was told, is handed on, or waits. -/
structure Silent (kind : EventKind) (p : Running) : Prop where
  handler : p.state.handlers.get kind = none
  told : (Scope.only kind).told p.state = []
  gathers : (Scope.only kind).Gathers p.state.desk
  jobs : ∀ j ∈ p.jobs, Unheard kind j
  parked : ∀ j ∈ p.state.executor.parked, j = .run

variable {p q : Running} {i : Nat}

theorem Silent.step (hp : Silent kind p) (hstep : p.step (machine behaviour) i = some q) :
    Silent kind q := by
  obtain ⟨job, d, hd, hjobs⟩ := Pool.jobs_of_step hstep
  have hd : perform behaviour job p.state = some d := hd
  have hjob := hp.jobs job hjobs.before
  obtain ⟨htold, hnext⟩ := perform_unheard hd hjob hp.handler hp.told
  have hearns := (Lifecycle.perform_lifecycleEffect hd).earns
  obtain ⟨state, threads⟩ := q
  obtain rfl : state = d.state := hjobs.state
  refine ⟨?_, htold, unheard_gathers hd hjob hp.gathers, fun j hj => ?_, fun j hj => ?_⟩
  · rw [(perform_sameSetup hd).handlers]
    exact hp.handler
  · rcases hjobs.known j hj with hj | hj | ⟨t, ht, hjt⟩
    · exact hnext j hj
    · exact hp.jobs j hj
    · rw [(hearns.spawned t ht j hjt).1]
      trivial
  · exact (hearns.parked j hj).elim (hp.parked j) fun h => h.1

theorem Silent.outside {e : Lifecycle.Outside} (hp : Silent kind p)
    (h : Lifecycle.outside e p = some q) : Silent kind q := by
  -- what comes is put on threads of its own
  have hcomes : ∀ {more : List Job}, (∀ j ∈ more, Unheard kind j) →
      ∀ j ∈ (p.spawn more).jobs, Unheard kind j := fun hmore j hj =>
    (Pool.mem_jobs_spawn.mp hj).elim (hp.jobs j) (hmore j)
  cases e with
  | start | stop =>
    obtain rfl := Option.some.inj h
    exact ⟨hp.handler, hp.told, hp.gathers,
      hcomes fun j hj => List.mem_singleton.mp hj ▸ trivial, hp.parked⟩
  | unpark =>
    obtain rfl := Option.some.inj h
    refine ⟨hp.handler, hp.told, hp.gathers, fun j hj => ?_, fun j hj => absurd hj List.not_mem_nil⟩
    obtain ⟨t, ht, hjt⟩ := Pool.mem_jobs.mp hj
    rcases List.mem_append.mp ht with ht | ht
    · exact hp.jobs j (Pool.mem_jobs.mpr ⟨t, ht, hjt⟩)
    · obtain ⟨job, hjob, rfl⟩ := List.mem_map.mp ht
      rw [List.mem_singleton.mp hjt, hp.parked job hjob]
      trivial
  | dispatch n =>
    obtain ⟨r, hr, rfl⟩ := Option.map_eq_some_iff.mp h
    obtain ⟨g, x, hg, hx, rfl⟩ := Stopping.takeUp?_eq_some hr
    have htask := hp.gathers g hg x (List.mem_of_getElem? hx)
    refine ⟨hp.handler, hp.told, ?_, hcomes fun j hj => ?_, hp.parked⟩
    · intro g' hg' y hy
      obtain rfl := Option.some.inj hg'
      exact hp.gathers g hg y (List.mem_of_mem_eraseIdx hy)
    · rw [List.mem_singleton.mp hj]
      exact (unheard_desk p.state (.begin x.task)).mpr ⟨htask, rfl⟩
  | ground g =>
    simp only [Lifecycle.outside] at h
    split at h
    · exact absurd h (by simp)
    · obtain rfl := Option.some.inj h
      exact ⟨hp.handler, hp.told, hp.gathers, hp.jobs, hp.parked⟩

/-- Whatever happens, nothing of a kind is told that has no callback. -/
theorem Silent.move {a : Move Lifecycle.Outside} (hp : Silent kind p)
    (h : (Lifecycle.setting behaviour).move a p = some q) : Silent kind q := by
  cases a with
  | job i => exact hp.step h
  | outside e => exact hp.outside h

variable {strategy : Strategy} {handlers : Handlers} {options : Options} {disk : Disk}

theorem silent_new (hhandler : handlers.get kind = none)
    (hnew : Watch.new strategy handlers options disk = .ok w) :
    Silent kind (Running.ofWatch w) := by
  have hfresh := fresh_of_new hnew
  refine ⟨?_, ?_, ?_, fun j hj => absurd hj List.not_mem_nil, ?_⟩
  · rw [Running.ofWatch, hfresh.handlers_eq]
    exact hhandler
  · have hjournal : w.desk.journal = .empty := by
      unfold Watch.new at hnew
      split at hnew
      · exact absurd hnew (by simp)
      · obtain rfl := Except.ok.inj hnew
        rfl
    rw [Scope.told, Running.ofWatch, hjournal]
    rfl
  · intro g hg
    obtain rfl := eq_of_debouncerFor (hfresh.debouncer_eq ▸ hg)
    exact fun x hx => absurd hx List.not_mem_nil
  · rw [Running.ofWatch, hfresh.parked_eq]
    exact fun j hj => absurd hj List.not_mem_nil

/-- No callback was told of any change of a kind. -/
def Untold (kind : EventKind) (p : Running) : Prop :=
  ∀ callback x, .ran callback x ∈ p.state.desk.journal.notes → x.kind ≠ kind

theorem Silent.untold (hp : Silent kind p) : Untold kind p := by
  rintro callback x hran rfl
  have hnone := List.flatMap_eq_nil_iff.mp hp.told _ hran
  simp [Scope.ran, Scope.only] at hnone

/-- In every run, no change of a kind without a callback is handed to any callback. -/
theorem run_unheard (hhandler : handlers.get kind = none)
    (hnew : Watch.new strategy handlers options disk = .ok w)
    {moves : List (Move Lifecycle.Outside)}
    (hrun : (Lifecycle.setting behaviour).run? moves (Running.ofWatch w) = some p) :
    Untold kind p :=
  (Setting.preserved (fun _ _ _ hr hmove => hr.move hmove) (silent_new hhandler hnew) hrun).untold

end Watch

end ChangeWatch
