import ChangeWatch.Proofs.Watch.Stopping.Phases

/-!
# What a stop brings about, step by step

Setting the flag, marking the service closed, waking the taker and shutting the
debouncer down are steps of their own, and other threads may take steps between
any two of them.  `Underway` says of each of these things that it is there already
or that the step that brings it about is still to be done by some thread, and
every move keeps it (`move_underway`).
-/

namespace ChangeWatch.Stopping

open Watch

variable {behaviour : Behaviour Wish} {w : Watch} {job : Job} {d : Done Watch Job} {k : Nat}

/-! ### What a stop brings about -/

/-- Each thing that a stop is to bring about is there, or the step that brings it
about is still to be done. -/
structure Underway (k : Nat) (p : Running) : Prop where
  untouched : p.state.stopped = false → p.state.ground.service.isClosed = false ∧
    p.state.desk.Open ∧ ∀ j ∈ p.jobs, j.stops = false
  closing : p.state.stopped = true →
    p.state.ground.service.isClosed = true ∨ Job.close .mark ∈ p.jobs
  /-- A loop that waits at a closed service is going to be woken. -/
  waking : p.state.ground.service.isClosed = true →
    (∃ step, p.state.ground.service.wakes step = true ∧ Job.close step ∈ p.jobs) ∨
      .closed ∈ p.state.ground.service.signals ∨ loopThread k p ≠ [.receive]
  tidy : p.state.desk.Tidy
  shutting : p.state.stopped = true → p.state.desk.Shut ∨ Job.desk .shutdown ∈ p.jobs

/-- A loop that waits after a step either found the service open in this step, or
has waited before it. -/
def WaitsOn (k : Nat) (p q : Running) (job : Job) : Prop :=
  loopThread k q = [.receive] → q.state.ground.service.isClosed = false ∨
    (loopThread k p = [.receive] ∧ job ≠ .receive)

/-- A step keeps waking a loop, if it leaves the service alike and is no step of
closing itself. -/
theorem Underway.waking_of_alike {p q : Running} (hp : Underway k p)
    (hstep : Pool.JobStep p q job d) (hwaits : WaitsOn k p q job)
    (halike : q.state.ground.service.Alike p.state.ground.service)
    (hjob : ∀ step, job ≠ .close step) (hclosed : q.state.ground.service.isClosed = true) :
    (∃ step, q.state.ground.service.wakes step = true ∧ Job.close step ∈ q.jobs) ∨
      .closed ∈ q.state.ground.service.signals ∨ loopThread k q ≠ [.receive] := by
  rw [halike.closed] at hclosed
  rcases hp.waking hclosed with ⟨step, hwakes, hmem⟩ | hsignal | hthread
  · rcases hstep.kept _ hmem with heq | hmem
    · exact absurd heq.symm (hjob step)
    · exact Or.inl ⟨step, (halike.wakes step).trans hwakes, hmem⟩
  · exact Or.inr (Or.inl (halike.signals ▸ hsignal))
  · refine Or.inr (Or.inr fun hwait => ?_)
    rcases hwaits hwait with hopen | ⟨hbefore, -⟩
    · rw [halike.closed, hclosed] at hopen
      exact absurd hopen (by simp)
    · exact hthread hbefore

/-- A step that changes neither flag nor service nor debouncer. -/
theorem Underway.calm {p q : Running} (hp : Underway k p) (hstep : Pool.JobStep p q job d)
    (hcalm : Calm p.state d) (hjob : job.closes = false) (hwaits : WaitsOn k p q job) :
    Underway k q := by
  have hstopped : q.state.stopped = p.state.stopped := hstep.state ▸ hcalm.stopped
  have halike : q.state.ground.service.Alike p.state.ground.service := hstep.state ▸ hcalm.service
  have hdesk : q.state.desk.debouncer = p.state.desk.debouncer := hstep.state ▸ hcalm.debouncer
  -- the job that is done is none of those that a stop waits for
  have hkept : ∀ j ∈ p.jobs, j.closes = true → j ∈ q.jobs := by
    intro j hj hcloses
    rcases hstep.kept j hj with rfl | hmem
    · exact absurd (hcloses.symm.trans hjob) (by simp)
    · exact hmem
  refine ⟨?_, ?_, ?_, ?_, ?_⟩
  · intro hrunning
    obtain ⟨hopen, hdeskOpen, hjobs⟩ := hp.untouched (hstopped.symm.trans hrunning)
    refine ⟨halike.closed.trans hopen, fun g hg => hdeskOpen g (hdesk.symm.trans hg), ?_⟩
    intro j hj
    rcases hstep.known j hj with hj | hj | ⟨t, ht, hjt⟩
    · exact (hcalm.next j hj).1
    · exact hjobs j hj
    · exact (hcalm.spawned t ht j hjt).1
  · intro hs
    rcases hp.closing (hstopped.symm.trans hs) with hclosed | hmem
    · exact Or.inl (halike.closed.trans hclosed)
    · exact Or.inr (hkept _ hmem rfl)
  · refine hp.waking_of_alike hstep hwaits halike ?_
    rintro step rfl
    exact absurd hjob (by simp [Job.closes])
  · exact fun g hg => hp.tidy g (hdesk.symm.trans hg)
  · intro hs
    rcases hp.shutting (hstopped.symm.trans hs) with hshut | hmem
    · exact Or.inl fun g hg => hshut g (hdesk.symm.trans hg)
    · exact Or.inr (hkept _ hmem rfl)

/-- A call of `stop` that sets the flag leaves all else still to be done. -/
theorem Underway.stop {p q : Running} (hp : Underway k p)
    (hstep : Pool.JobStep p q .stop
      (.andThen { p.state with stopped := true } [.close .mark, .closed, .desk .shutdown]))
    (hrunning : p.state.stopped = false) : Underway k q := by
  obtain ⟨hopen, hdesk, -⟩ := hp.untouched hrunning
  have hstate : q.state = { p.state with stopped := true } := hstep.state
  have hclosed : q.state.ground.service.isClosed = false := by
    rw [hstate]
    exact hopen
  refine ⟨?_, ?_, ?_, ?_, ?_⟩
  · intro hs
    rw [hstate] at hs
    exact absurd hs (by simp)
  · exact fun _ => Or.inr (hstep.added _ (by simp [Done.andThen]))
  · intro hs
    rw [hclosed] at hs
    exact absurd hs (by simp)
  · rw [hstate]
    exact hp.tidy
  · exact fun _ => Or.inr (hstep.added _ (by simp [Done.andThen]))

/-- A step of closing leads on to the signal, or a loop that waits is woken by what
was there before. -/
theorem Underway.waking_of_close {p q : Running} {step : CloseStep} (hp : Underway k p)
    (hstep : Pool.JobStep p q (.close step)
      (.andThen (p.state.withService (p.state.ground.service.closeStep step).1)
        ((p.state.ground.service.closeStep step).2.toList.map .close)))
    (hwaits : WaitsOn k p q (.close step)) (hclosed : q.state.ground.service.isClosed = true) :
    (∃ step, q.state.ground.service.wakes step = true ∧ Job.close step ∈ q.jobs) ∨
      .closed ∈ q.state.ground.service.signals ∨ loopThread k q ≠ [.receive] := by
  have hservice : q.state.ground.service = (p.state.ground.service.closeStep step).1 := by
    rw [hstep.state]
    rfl
  obtain ⟨⟨more, hmore⟩, hwakes⟩ := p.state.ground.service.closeStep_grows step
  have hnext : ∀ step', (p.state.ground.service.closeStep step).2 = some step' →
      Job.close step' ∈ q.jobs := by
    intro step' heq
    refine hstep.added _ ?_
    show Job.close step' ∈ (p.state.ground.service.closeStep step).2.toList.map .close
    rw [heq]
    exact List.mem_singleton_self _
  cases hbefore : p.state.ground.service.isClosed with
  | true =>
    rcases hp.waking hbefore with ⟨step', hwake, hmem⟩ | hsignal | hthread
    · -- what is still to be done for the signal is this step, or it is kept
      rcases hstep.kept _ hmem with heq | hmem
      · obtain rfl := Job.close.inj heq
        rcases Service.closeStep_wakes hwake with hsignal | ⟨next, hsome, hwake'⟩
        · exact Or.inr (Or.inl (hservice ▸ hsignal))
        · exact Or.inl ⟨next, hservice ▸ (hwakes next).trans hwake', hnext next hsome⟩
      · exact Or.inl ⟨step', hservice ▸ (hwakes step').trans hwake, hmem⟩
    · refine Or.inr (Or.inl ?_)
      rw [hservice, hmore]
      exact List.mem_append_left _ hsignal
    · refine Or.inr (Or.inr fun hwait => ?_)
      rcases hwaits hwait with hopen | ⟨hwaited, -⟩
      · exact absurd (hclosed.symm.trans hopen) (by simp)
      · exact hthread hwaited
  | false =>
    -- only the first step closes an open service
    by_cases hmark : step = .mark
    · subst hmark
      obtain ⟨next, hsome, hwake⟩ := p.state.ground.service.closeStep_mark.2.2.2 hbefore
      exact Or.inl ⟨next, hservice ▸ (hwakes next).trans hwake, hnext next hsome⟩
    · rw [hservice, (Service.closeStep_ne_mark _ hmark).1, hbefore] at hclosed
      exact absurd hclosed (by simp)

/-- A step of closing. -/
theorem Underway.close {p q : Running} {step : CloseStep} (hp : Underway k p)
    (hstep : Pool.JobStep p q (.close step)
      (.andThen (p.state.withService (p.state.ground.service.closeStep step).1)
        ((p.state.ground.service.closeStep step).2.toList.map .close)))
    (hwaits : WaitsOn k p q (.close step)) : Underway k q := by
  have hstate : q.state = p.state.withService (p.state.ground.service.closeStep step).1 :=
    hstep.state
  have hstopped : q.state.stopped = p.state.stopped := by rw [hstate]; rfl
  have hservice : q.state.ground.service = (p.state.ground.service.closeStep step).1 := by
    rw [hstate]; rfl
  have hdesk : q.state.desk = p.state.desk := by rw [hstate]; rfl
  -- nobody closes a service before the flag is set
  have hs : p.state.stopped = true := by
    cases hs : p.state.stopped with
    | true => rfl
    | false => exact absurd ((hp.untouched hs).2.2 _ hstep.before) (by simp [Job.stops])
  refine ⟨?_, ?_, hp.waking_of_close hstep hwaits, ?_, ?_⟩
  · intro hrunning
    rw [hstopped, hs] at hrunning
    exact absurd hrunning (by simp)
  · intro _
    rw [hservice]
    by_cases hmark : step = .mark
    · subst hmark
      exact Or.inl (Service.closeStep_mark _).1
    · rw [(Service.closeStep_ne_mark _ hmark).1]
      rcases hp.closing hs with hclosed | hmem
      · exact Or.inl hclosed
      · rcases hstep.kept _ hmem with heq | hmem
        · exact absurd (Job.close.inj heq).symm hmark
        · exact Or.inr hmem
  · rw [hdesk]
    exact hp.tidy
  · intro _
    rw [hdesk]
    rcases hp.shutting hs with hshut | hmem
    · exact Or.inl hshut
    · rcases hstep.kept _ hmem with heq | hmem
      · exact absurd heq (by simp)
      · exact Or.inr hmem

/-- Something is taken from the queue. -/
theorem Underway.receive {p q : Running} {taken : Taken} {service : Service}
    (hp : Underway k p) (hreceive : p.state.ground.service.receive = some (taken, service))
    (hstep : Pool.JobStep p q .receive
      (.andThen (p.state.withService service) (afterTaken taken)))
    (hwaits : WaitsOn k p q .receive) : Underway k q := by
  obtain ⟨signal, -, -, hclosed, -, -⟩ := Service.receive_eq_some hreceive
  have hstate : q.state = p.state.withService service := hstep.state
  have hstopped : q.state.stopped = p.state.stopped := by rw [hstate]; rfl
  have hdesk : q.state.desk = p.state.desk := by rw [hstate]; rfl
  have hsame : q.state.ground.service.isClosed = p.state.ground.service.isClosed := by
    rw [hstate]
    exact hclosed
  have hkept : ∀ j ∈ p.jobs, j.stops = true → j ∈ q.jobs := by
    intro j hj hstops
    rcases hstep.kept j hj with rfl | hmem
    · exact absurd hstops (by simp [Job.stops])
    · exact hmem
  refine ⟨?_, ?_, ?_, ?_, ?_⟩
  · intro hrunning
    obtain ⟨hopen, hdeskOpen, hjobs⟩ := hp.untouched (hstopped.symm.trans hrunning)
    refine ⟨hsame.trans hopen, by rw [hdesk]; exact hdeskOpen, ?_⟩
    intro j hj
    rcases hstep.known j hj with hj | hj | ⟨t, ht, -⟩
    · exact (afterTaken_plain hj).1
    · exact hjobs j hj
    · exact absurd ht List.not_mem_nil
  · intro hs
    rcases hp.closing (hstopped.symm.trans hs) with hc | hmem
    · exact Or.inl (hsame.trans hc)
    · exact Or.inr (hkept _ hmem rfl)
  · intro hc
    -- a loop that has just taken something does not wait
    refine Or.inr (Or.inr fun hwait => ?_)
    rcases hwaits hwait with hopen | ⟨-, hne⟩
    · rw [hc] at hopen
      exact absurd hopen (by simp)
    · exact hne rfl
  · rw [hdesk]
    exact hp.tidy
  · intro hs
    rw [hdesk]
    rcases hp.shutting (hstopped.symm.trans hs) with hshut | hmem
    · exact Or.inl hshut
    · exact Or.inr (hkept _ hmem rfl)

/-- A job of the desk. -/
theorem Underway.desk {p q : Running} {job : Desk.Job Wish} {desk : Desk}
    {next : List (Desk.Job Wish)} (hp : Underway k p)
    (hperform : Desk.perform behaviour job p.state.desk = some (desk, next))
    (hstep : Pool.JobStep p q (.desk job) (.andThen { p.state with desk } (next.map .desk)))
    (hwaits : WaitsOn k p q (.desk job)) : Underway k q := by
  have hstate : q.state = { p.state with desk } := hstep.state
  have hstopped : q.state.stopped = p.state.stopped := by rw [hstate]
  have halike : q.state.ground.service.Alike p.state.ground.service := by
    rw [hstate]
    exact .refl _
  have hdesk : q.state.desk = desk := by rw [hstate]
  -- the service is as it was; of the desk it matters whether this job shuts it down
  refine ⟨?_, ?_, ?_, ?_, ?_⟩
  · intro hrunning
    obtain ⟨hopen, hdeskOpen, hjobs⟩ := hp.untouched (hstopped.symm.trans hrunning)
    have hjob : job ≠ .shutdown := by
      rintro rfl
      exact absurd (hjobs _ hstep.before) (by simp [Job.stops])
    refine ⟨halike.closed.trans hopen, ?_, ?_⟩
    · rw [hdesk]
      exact Desk.perform_open hperform hdeskOpen hjob
    · intro j hj
      rcases hstep.known j hj with hj | hj | ⟨t, ht, -⟩
      · obtain ⟨x, hx, rfl⟩ := List.mem_map.mp hj
        cases x with
        | shutdown => exact absurd hx (Desk.perform_next hperform)
        | _ => rfl
      · exact hjobs j hj
      · exact absurd ht List.not_mem_nil
  · intro hs
    rcases hp.closing (hstopped.symm.trans hs) with hclosed | hmem
    · exact Or.inl (halike.closed.trans hclosed)
    · rcases hstep.kept _ hmem with heq | hmem
      · exact absurd heq (by simp)
      · exact Or.inr hmem
  · exact hp.waking_of_alike hstep hwaits halike (by simp)
  · rw [hdesk]
    exact Desk.perform_tidy hperform hp.tidy
  · intro hs
    rw [hdesk]
    rcases hp.shutting (hstopped.symm.trans hs) with hshut | hmem
    · exact Or.inl (Desk.perform_of_shut hperform hshut).1
    · rcases hstep.kept _ hmem with heq | hmem
      · obtain rfl := Job.desk.inj heq
        exact Or.inl (Desk.perform_shutdown hperform hp.tidy)
      · exact Or.inr hmem

/-- A step of any thread. -/
theorem step_underway {h : Hand} {p q : Running} {i : Nat} (hp : Underway k p)
    (hlooping : Looping k h p) (hstep : p.step (machine behaviour) i = some q) :
    Underway k q := by
  obtain ⟨job, rest, d, hi, hperform, rfl⟩ := Pool.step_eq_some hstep
  have hjobs : Pool.JobStep p ⟨d.state, p.threads.set i (d.next ++ rest) ++ d.spawned⟩ job d :=
    Pool.jobs_of_set hi
  obtain ⟨t, ht, hphase⟩ := hlooping.loop
  have hwaits : WaitsOn k p ⟨d.state, p.threads.set i (d.next ++ rest) ++ d.spawned⟩ job := by
    intro hwait
    by_cases hmine : i = k
    · -- the loop itself went on to wait, and so it found the service open
      subst hmine
      obtain rfl := Option.some.inj (ht.symm.trans hi)
      have hnow : (p.threads.set i (d.next ++ rest) ++ d.spawned)[i]? = some (d.next ++ rest) :=
        Pool.getElem?_set_append hi
      rw [loopThread, hnow, Option.getD_some] at hwait
      exact Or.inl ((loopStep hphase hperform hlooping.started).waits hwait)
    · have hkept : (p.threads.set i (d.next ++ rest) ++ d.spawned)[k]? = some t :=
        Pool.getElem?_set_append_ne ht hmine
      rw [loopThread, hkept, Option.getD_some] at hwait
      refine Or.inr ⟨by rw [loopThread, ht, Option.getD_some, hwait], ?_⟩
      rintro rfl
      have hinner := hlooping.others i _ hmine hi .receive List.mem_cons_self
      exact absurd hinner (by simp [Job.inner])
  cases perform_controlEffect hperform with
  | stop hrunning => exact hp.stop hjobs hrunning
  | close step => exact hp.close hjobs hwaits
  | receive hreceive => exact hp.receive hreceive hjobs hwaits
  | desk hdesk => exact hp.desk hdesk hjobs hwaits
  | calm hjob hcalm => exact hp.calm hjobs hcalm hjob hwaits

/-- What it means that a dispatch is taken up: it waited, and waits no more. -/
theorem takeUp?_eq_some {desk : Desk} {n : Nat} {r : Dispatch × Desk}
    (h : takeUp? desk n = some r) : ∃ g w, desk.debouncer = some g ∧
      g.scheduler.waiting[n]? = some w ∧ r = (w.task, { desk with
        debouncer := some { g with
          scheduler := { g.scheduler with
            now := max g.scheduler.now w.due
            waiting := g.scheduler.waiting.eraseIdx n } } }) := by
  obtain ⟨g, hg, h⟩ := Option.bind_eq_some_iff.mp h
  obtain ⟨w, hw, h⟩ := Option.bind_eq_some_iff.mp h
  exact ⟨g, w, hg, hw, (Option.some.inj h).symm⟩

/-- One more thread that is no part of a stop. -/
theorem Underway.spawn {h : Hand} {p : Running} (hp : Underway k p) (hlooping : Looping k h p)
    {jobs : List Job} (hjobs : ∀ j ∈ jobs, j.inner = true ∧ j.stops = false) :
    Underway k (p.spawn jobs) := by
  obtain ⟨t, ht, -⟩ := hlooping.loop
  have hthread : loopThread k (p.spawn jobs) = loopThread k p := by
    rw [loopThread, loopThread, Pool.getElem?_spawn ht, ht]
  have hkept : ∀ j ∈ p.jobs, j ∈ (p.spawn jobs).jobs := fun j hj => Pool.mem_jobs_spawn.mpr (Or.inl hj)
  refine ⟨?_, ?_, ?_, hp.tidy, ?_⟩
  · intro hrunning
    obtain ⟨hopen, hdesk, hold⟩ := hp.untouched hrunning
    refine ⟨hopen, hdesk, ?_⟩
    intro j hj
    rcases Pool.mem_jobs_spawn.mp hj with hj | hj
    · exact hold j hj
    · exact (hjobs j hj).2
  · exact fun hs => (hp.closing hs).imp_right (hkept _)
  · intro hc
    rw [hthread]
    refine (hp.waking hc).imp_left ?_
    rintro ⟨step, hwakes, hj⟩
    exact ⟨step, hwakes, hkept _ hj⟩
  · exact fun hs => (hp.shutting hs).imp_right (hkept _)

/-- A dispatch is taken up. -/
theorem Underway.dispatch {p : Running} {n : Nat} {r : Dispatch × Desk} (hp : Underway k p)
    (h : takeUp? p.state.desk n = some r) :
    Underway k ⟨{ p.state with desk := r.2 }, p.threads⟩ := by
  obtain ⟨g, w, hg, hw, rfl⟩ := takeUp?_eq_some h
  -- something waits, so nobody has shut the debouncer down
  have hwaiting : g.scheduler.waiting ≠ [] := List.ne_nil_of_mem (List.mem_of_getElem? hw)
  have hdown : g.shutDown ≠ true := fun hdown => hwaiting (hp.tidy g hg hdown)
  refine ⟨?_, hp.closing, hp.waking, ?_, ?_⟩
  · intro hrunning
    obtain ⟨hopen, -, hold⟩ := hp.untouched hrunning
    refine ⟨hopen, ?_, hold⟩
    intro g₁ hg₁
    obtain rfl := Option.some.inj hg₁
    exact Bool.eq_false_iff.mpr hdown
  · intro g₁ hg₁ hdown₁
    obtain rfl := Option.some.inj hg₁
    exact absurd hdown₁ hdown
  · exact fun hs => (hp.shutting hs).imp_left fun hshut => absurd (hshut g hg).1 hdown

/-- The disk changes, and the queue grows. -/
theorem Underway.ground {p : Running} {g : Ground} (hp : Underway k p)
    (h : longer p.state.ground.service g.service = true) :
    Underway k (p.modify (·.withGround g)) := by
  unfold longer at h
  rw [Bool.and_eq_true, Bool.and_eq_true] at h
  obtain ⟨⟨hclosed, hsignals⟩, hwakes⟩ := h
  have hclosed : p.state.ground.service.isClosed = g.service.isClosed := of_decide_eq_true hclosed
  obtain ⟨more, hmore⟩ := List.isPrefixOf_iff_prefix.mp hsignals
  have hwakes : ∀ step, p.state.ground.service.wakes step = g.service.wakes step := by
    intro step
    have hstep := List.all_eq_true.mp hwakes step (by cases step <;> simp)
    exact of_decide_eq_true hstep
  refine ⟨?_, ?_, ?_, hp.tidy, hp.shutting⟩
  · intro hrunning
    obtain ⟨hopen, hrest⟩ := hp.untouched hrunning
    exact ⟨hclosed.symm.trans hopen, hrest⟩
  · exact fun hs => (hp.closing hs).imp_left fun hc => hclosed.symm.trans hc
  · intro hc
    rcases hp.waking (hclosed.trans hc) with ⟨step, hwake, hmem⟩ | hsignal | hthread
    · exact Or.inl ⟨step, (hwakes step).symm.trans hwake, hmem⟩
    · refine Or.inr (Or.inl ?_)
      show Signal.closed ∈ g.service.signals
      rw [← hmore]
      exact List.mem_append_left _ hsignal
    · exact Or.inr (Or.inr hthread)

/-- Every move keeps a stop under way. -/
theorem move_underway {h : Hand} {p q : Running} {a : Move Outside} (hp : Underway k p)
    (hlooping : Looping k h p) (hmove : (setting behaviour).move a p = some q) :
    Underway k q := by
  cases a with
  | job i => exact step_underway hp hlooping hmove
  | outside e =>
    cases e with
    | stop =>
      obtain rfl := Option.some.inj hmove
      exact hp.spawn hlooping (by simp [Job.inner, Job.stops])
    | start =>
      obtain rfl := Option.some.inj hmove
      exact hp.spawn hlooping (by simp [Job.inner, Job.stops])
    | dispatch n =>
      obtain ⟨r, hr, rfl⟩ := Option.map_eq_some_iff.mp hmove
      have hlooping' : Looping k h ⟨{ p.state with desk := r.2 }, p.threads⟩ :=
        ⟨hlooping.started, hlooping.loop, hlooping.others⟩
      exact (hp.dispatch hr).spawn hlooping' (by simp [Job.inner, Job.stops])
    | ground g =>
      simp only [Setting.move, setting, outside] at hmove
      split at hmove
      · next hlonger =>
        obtain rfl := Option.some.inj hmove
        exact hp.ground hlonger
      · exact absurd hmove (by simp)

end ChangeWatch.Stopping
