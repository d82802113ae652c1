import ChangeWatch.Proofs.Watch.Lifecycle.Deeds

/-!
# What a stop brings about, whoever does it

Whoever sets the stop flag closes the service and shuts the debouncer down, in
steps of their own.  Each of the two is done, once the flag is set, or a job that
does it is still to be done by some thread (`Teardown`).  So when no job of a stop
is left, all is done.

Unlike `Stopping.Underway` this does not look at the loop, and the service may be
closed from outside before.
-/

namespace ChangeWatch.Lifecycle

open Watch

variable {behaviour : Behaviour Wish} {w : Watch} {job : Job} {d : Done Watch Job} {i : Nat}
  {p q : Running} {L : List (Nat × Seen)}

/-- What a job does to what a stop is to shut: the flag, the service and the desk. -/
structure StopEffect (w : Watch) (job : Job) (d : Done Watch Job) : Prop where
  stopped : w.stopped = true → d.state.stopped = true
  /-- Before the flag is set nothing is shut down. -/
  untouched : d.state.stopped = false → job.stops = false → w.desk.Open →
    d.state.desk.Open ∧ (∀ j ∈ d.next, j.stops = false) ∧ ∀ t ∈ d.spawned, ∀ j ∈ t, j.stops = false
  /-- Whoever sets the flag does the rest. -/
  claims : w.stopped = false → d.state.stopped = true →
    .close .mark ∈ d.next ∧ .desk .shutdown ∈ d.next
  closed : w.ground.service.isClosed = true ∨ job = .close .mark →
    d.state.ground.service.isClosed = true
  shut : w.desk.Tidy → w.desk.Shut ∨ job = .desk .shutdown → d.state.desk.Shut
  tidy : w.desk.Tidy → d.state.desk.Tidy
  single : w.desk.Single → d.state.desk.Single

/-- A job of the desk shuts the debouncer down if it is the shutdown, and else leaves it open. -/
theorem stopEffect_desk {job : Desk.Job Wish} {desk : Desk} {next : List (Desk.Job Wish)}
    (h : Desk.perform behaviour job w.desk = some (desk, next)) :
    StopEffect w (.desk job) (.andThen { w with desk } (next.map .desk)) := by
  refine ⟨id, ?_, fun hrunning hs => absurd (hrunning.symm.trans hs) (by simp),
    fun hc => hc.resolve_right (by simp), ?_, Desk.perform_tidy h, Desk.perform_single h⟩
  · intro _ hjob hopen
    have hne : job ≠ .shutdown := by
      rintro rfl
      exact absurd hjob (by simp [Job.stops])
    refine ⟨Desk.perform_open h hopen hne, ?_, by simp [Done.andThen]⟩
    intro j hj
    obtain ⟨x, hx, rfl⟩ := List.mem_map.mp hj
    cases x with
    | shutdown => exact absurd hx (Desk.perform_next h)
    | _ => rfl
  · intro htidy hs
    rcases hs with hshut | heq
    · exact (Desk.perform_of_shut h hshut).1
    · obtain rfl := Job.desk.inj heq
      exact Desk.perform_shutdown h htidy

/-- A calm job has the service and the debouncer as they were. -/
theorem stopEffect_calm (hcalm : Calm w d) (hjob : job.closes = false) : StopEffect w job d := by
  have hdesk : ∀ {g}, d.state.desk.debouncer = some g → w.desk.debouncer = some g :=
    fun hg => hcalm.debouncer.symm.trans hg
  refine ⟨fun hs => hcalm.stopped.trans hs, ?_, ?_, ?_, ?_, fun htidy g hg => htidy g (hdesk hg),
    fun hsingle g hg => hsingle g (hdesk hg)⟩
  · intro _ _ hopen
    exact ⟨fun g hg => hopen g (hdesk hg), fun j hj => (hcalm.next j hj).1,
      fun t ht j hj => (hcalm.spawned t ht j hj).1⟩
  · intro hrunning hs
    rw [hcalm.stopped, hrunning] at hs
    exact absurd hs (by simp)
  · rintro (hc | rfl)
    · exact hcalm.service.closed.trans hc
    · exact absurd hjob (by simp [Job.closes])
  · rintro - (hshut | rfl)
    · exact fun g hg => hshut g (hdesk hg)
    · exact absurd hjob (by simp [Job.closes])

theorem perform_stopEffect (h : perform behaviour job w = some d) : StopEffect w job d := by
  cases perform_controlEffect h with
  | stop hrunning =>
    -- the flag is set before anything is shut
    exact ⟨fun _ => rfl, fun hs => absurd hs (by simp [Done.andThen]),
      fun _ _ => by simp [Done.andThen], fun hc => hc.resolve_right (by simp),
      fun _ hs => hs.resolve_right (by simp), id, id⟩
  | close step =>
    refine ⟨id, fun _ hjob => absurd hjob (by simp [Job.stops]),
      fun hrunning hs => absurd (hrunning.symm.trans hs) (by simp), ?_,
      fun _ hs => hs.resolve_right (by simp), id, id⟩
    -- only the mark closes a service, and what is closed stays closed
    intro hc
    show (w.ground.service.closeStep step).1.isClosed = true
    by_cases hmark : step = .mark
    · rw [hmark]
      exact (Service.closeStep_mark _).1
    · rw [(Service.closeStep_ne_mark _ hmark).1]
      exact hc.resolve_right fun heq => hmark (Job.close.inj heq)
  | receive hreceive =>
    obtain ⟨-, -, -, hclosed, -, -⟩ := Service.receive_eq_some hreceive
    refine ⟨id, ?_, fun hrunning hs => absurd (hrunning.symm.trans hs) (by simp),
      fun hc => hclosed.trans (hc.resolve_right (by simp)),
      fun _ hs => hs.resolve_right (by simp), id, id⟩
    intro _ _ hopen
    exact ⟨hopen, fun j hj => (afterTaken_plain hj).1, by simp [Done.andThen]⟩
  | desk hdesk => exact stopEffect_desk hdesk
  | calm hjob hcalm => exact stopEffect_calm hcalm hjob

/-- Each part of a stop is done, or is still to be done by some thread. -/
structure Teardown (L : List (Nat × Seen)) (p : Running) : Prop where
  untouched : p.state.stopped = false → p.state.desk.Open ∧ ∀ j ∈ p.jobs, j.stops = false
  closing : p.state.stopped = true →
    (.closing ∈ L.map (·.2) ∧ p.state.ground.service.isClosed = true) ∨ Job.close .mark ∈ p.jobs
  shutting : p.state.stopped = true → p.state.desk.Shut ∨ Job.desk .shutdown ∈ p.jobs
  tidy : p.state.desk.Tidy
  single : p.state.desk.Single

/-- A step of a thread. -/
theorem Teardown.step (hp : Teardown L p) (hstep : p.step (machine behaviour) i = some q) :
    Teardown (L ++ Setting.noted note (.job i : Move Outside) p) q := by
  obtain ⟨job, rest, d, hi, hd, rfl⟩ := Pool.step_eq_some hstep
  have heffect := perform_stopEffect hd
  have hjobs : Pool.JobStep p ⟨d.state, p.threads.set i (d.next ++ rest) ++ d.spawned⟩ job d :=
    Pool.jobs_of_set hi
  rw [Setting.noted_job hi]
  refine ⟨?_, ?_, ?_, heffect.tidy hp.tidy, heffect.single hp.single⟩
  · intro hrunning
    have hbefore : p.state.stopped = false := by
      cases hs : p.state.stopped with
      | false => rfl
      | true => exact absurd (hrunning.symm.trans (heffect.stopped hs)) (by simp)
    obtain ⟨hopen, hold⟩ := hp.untouched hbefore
    obtain ⟨hopen', hnext, hspawned⟩ := heffect.untouched hrunning (hold job hjobs.before) hopen
    refine ⟨hopen', ?_⟩
    intro j hj
    rcases hjobs.known j hj with hj | hj | ⟨t, ht, hjt⟩
    · exact hnext j hj
    · exact hold j hj
    · exact hspawned t ht j hjt
  · intro hstopped
    rw [List.map_append, map_snd_note]
    cases hs : p.state.stopped with
    | false => exact Or.inr (hjobs.added _ (heffect.claims hs hstopped).1)
    | true =>
      rcases hp.closing hs with ⟨hseen, hclosed⟩ | hmem
      · exact Or.inl ⟨List.mem_append_left _ hseen, heffect.closed (Or.inl hclosed)⟩
      · rcases hjobs.kept _ hmem with heq | hmem
        · -- it is this step that closes the service
          refine Or.inl ⟨List.mem_append_right _ ?_, heffect.closed (Or.inr heq.symm)⟩
          rw [← heq]
          exact List.mem_singleton_self _
        · exact Or.inr hmem
  · intro hstopped
    cases hs : p.state.stopped with
    | false => exact Or.inr (hjobs.added _ (heffect.claims hs hstopped).2)
    | true =>
      rcases hp.shutting hs with hshut | hmem
      · exact Or.inl (heffect.shut hp.tidy (Or.inl hshut))
      · rcases hjobs.kept _ hmem with heq | hmem
        · exact Or.inl (heffect.shut hp.tidy (Or.inr heq.symm))
        · exact Or.inr hmem

/-- Something comes from outside. -/
theorem Teardown.arrival {more : List Job} (hp : Teardown L p)
    (hparked : ∀ j ∈ p.state.executor.parked, j = .run) (h : Arrival p more q) :
    Teardown L q := by
  have hkept : ∀ j ∈ p.jobs, j ∈ q.jobs := by
    intro j hj
    rw [h.jobs]
    exact List.mem_append_left _ hj
  refine ⟨?_, ?_, ?_, ?_, ?_⟩
  · intro hrunning
    obtain ⟨hopen, hold⟩ := hp.untouched (h.stopped.symm.trans hrunning)
    refine ⟨?_, ?_⟩
    · intro g' hg'
      obtain ⟨g, hg, hdown, -, -⟩ := h.debouncer hg'
      exact hdown.trans (hopen g hg)
    · intro j hj
      rw [h.jobs] at hj
      rcases List.mem_append.mp hj with hj | hj
      · exact hold j hj
      · exact (h.aside hparked j hj).2.1
  · intro hs
    rcases hp.closing (h.stopped.symm.trans hs) with ⟨hseen, hclosed⟩ | hmem
    · exact Or.inl ⟨hseen, h.closed hclosed⟩
    · exact Or.inr (hkept _ hmem)
  · intro hs
    refine (hp.shutting (h.stopped.symm.trans hs)).imp (fun hshut g' hg' => ?_) (hkept _)
    obtain ⟨g, hg, hdown, -, hempty⟩ := h.debouncer hg'
    exact ⟨hdown.trans (hshut g hg).1, hempty (hshut g hg).2⟩
  · intro g' hg' hdown'
    obtain ⟨g, hg, hdown, -, hempty⟩ := h.debouncer hg'
    exact hempty (hp.tidy g hg (hdown.symm.trans hdown'))
  · intro g' hg'
    obtain ⟨g, hg, hdown, hshutdowns, -⟩ := h.debouncer hg'
    rw [hshutdowns, hdown]
    exact hp.single g hg

/-- Every move keeps what a stop brings about. -/
theorem move_teardown {a : Move Outside} (hp : Teardown L p) (htally : Tally L p)
    (hmove : (setting behaviour).move a p = some q) :
    Teardown (L ++ Setting.noted note a p) q := by
  cases a with
  | job i => exact hp.step hmove
  | outside e =>
    obtain ⟨more, harrival⟩ := outside_arrival hmove
    rw [Setting.noted_outside, List.append_nil]
    exact hp.arrival htally.parked harrival

end ChangeWatch.Lifecycle
