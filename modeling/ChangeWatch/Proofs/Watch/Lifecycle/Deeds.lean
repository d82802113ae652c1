import ChangeWatch.Proofs.Watch.Lifecycle.Seen

/-!
# What a watch does at most once

Registering the root, submitting the loop, a start that succeeds and closing the
service are `Deed`s.  Each is claimed by setting a flag, and from then on it is
done already, or one job is left that leads to it: the deeds done and the jobs that
await them are at most one, and none before the claim (`LifecycleEffect.deed`).  The loop
comes from a registration and a submission that succeeded (`LifecycleEffect.earns`).

All this is kept in one invariant, of what is seen and of what is still to be done
(`Tally`, `move_tally`).  What comes from outside keeps it because it is no part of a
call that has claimed anything (`Arrival`).
-/

namespace ChangeWatch.Lifecycle

open Watch

variable {behaviour : Behaviour Wish} {w : Watch} {job : Job} {d : Done Watch Job} {i : Nat}
  {p q : Running} {told : List Seen} {L : List (Nat × Seen)}

/-! ### Deeds -/

/-- What is done at most once in the life of a watch. -/
inductive Deed where
  /-- The strategy is asked to register the root. -/
  | registration
  /-- The executor is given the loop. -/
  | submission
  /-- A call of `start` returns without an error. -/
  | success
  /-- The service is asked to close. -/
  | closing
  deriving DecidableEq, Repr

namespace Deed

/-- The deed is done when this is seen. -/
def isDone : Deed → Seen → Bool
  | .registration, .registering => true
  | .submission, .submitted _ => true
  | .success, .answered none => true
  | .closing, .closing => true
  | _, _ => false

/-- A job that does the deed, or leads to one that does. -/
def awaits : Deed → Job → Bool
  | .registration, .startUnlessStopped _ | .registration, .registerRoot _ => true
  | .submission, .startUnlessStopped _ | .submission, .registerRoot _
  | .submission, .walk (.start _) .. | .submission, .submit _ => true
  | .success, .startUnlessStopped _ | .success, .registerRoot _
  | .success, .walk (.start _) .. | .success, .submit _ | .success, .started _ none => true
  | .closing, .close .mark => true
  | _, _ => false

/-- Whether someone has claimed to do the deed. -/
def claimed : Deed → Watch → Bool
  | .closing, w => w.stopped
  | _, w => w.started

theorem awaits_eq_false (deed : Deed) (hopens : job.opens = false) (hmark : job ≠ .close .mark) :
    deed.awaits job = false := by
  cases job with
  | close step => cases step <;> cases deed <;> first | rfl | exact absurd rfl hmark
  | walk purpose agenda registered =>
    cases purpose with
    | start caller => exact absurd hopens (by simp [Job.opens])
    | pickup event path => cases deed <;> rfl
  | startUnlessStopped caller => exact absurd hopens (by simp [Job.opens])
  | registerRoot caller => exact absurd hopens (by simp [Job.opens])
  | submit caller => exact absurd hopens (by simp [Job.opens])
  | started caller error => exact absurd hopens (by simp [Job.opens])
  | _ => cases deed <;> rfl

theorem countP_awaits_eq_zero (deed : Deed) {jobs : List Job}
    (h : ∀ j ∈ jobs, j.opens = false ∧ j ≠ .close .mark) : jobs.countP deed.awaits = 0 := by
  refine List.countP_eq_zero.mpr fun j hj => ?_
  obtain ⟨hopens, hmark⟩ := h j hj
  rw [deed.awaits_eq_false hopens hmark]
  exact Bool.false_ne_true

/-- Nothing of all this is done in the middle of a registration. -/
theorem countP_glimpses (deed : Deed) {glimpses : List Seen}
    (h : ∀ x ∈ glimpses, x.isGlimpse = true) : glimpses.countP deed.isDone = 0 := by
  refine List.countP_eq_zero.mpr fun x hx => ?_
  cases x with
  | looked start footing => cases deed <;> simp [isDone]
  | enrolled dir depth key => cases deed <;> simp [isDone]
  | refused dir e => cases deed <;> simp [isDone]
  | _ => exact absurd (h _ hx) (by simp [Seen.isGlimpse])

end Deed

/-- What a job does, and what it leads to, was awaited of the job, unless the job has
just made the claim. -/
theorem LifecycleEffect.deed (h : LifecycleEffect w job told d) (deed : Deed) :
    told.countP deed.isDone + d.next.countP deed.awaits +
        d.spawned.flatten.countP deed.awaits + (deed.claimed w).toNat ≤
      (if deed.awaits job then 1 else 0) + (deed.claimed d.state).toNat := by
  cases h with
  | claims caller hfresh =>
    cases deed <;> simp [Done.andThen, Deed.isDone, Deed.awaits, Deed.claimed, hfresh]
  | stops hrunning =>
    cases deed <;>
      simp [Done.andThen, List.countP_cons, Deed.isDone, Deed.awaits, Deed.claimed, hrunning]
  | registers hsame hglimpses hregistration =>
    have hstarted := hsame.started
    have hstopped := hsame.stopped
    have hzero := deed.countP_glimpses hglimpses
    rw [List.countP_cons, List.countP_append, hzero]
    cases hregistration <;> cases deed <;>
      simp [Done.andThen, startFailed, List.countP_cons, Deed.isDone, Deed.awaits, Deed.claimed,
        hstarted, hstopped]
  | walks hsame hglimpses hregistration =>
    have hstarted := hsame.started
    have hstopped := hsame.stopped
    have hzero := deed.countP_glimpses hglimpses
    rw [List.countP_append, hzero]
    cases hregistration <;> cases deed <;>
      simp [Done.andThen, startFailed, List.countP_cons, Deed.isDone, Deed.awaits, Deed.claimed,
        hstarted, hstopped]
  | answers caller error =>
    cases error <;> cases deed <;>
      simp [Done.just, Watch.note, Deed.isDone, Deed.awaits, Deed.claimed]
  | closes step =>
    -- the later steps of closing are not the first
    have hlater : ((w.ground.service.closeStep step).2.toList.map Job.close).countP
        deed.awaits = 0 := by
      refine deed.countP_awaits_eq_zero fun j hj => ?_
      obtain ⟨next, hnext, rfl⟩ := List.mem_map.mp hj
      have hless := Service.closeStep_next (Option.mem_toList.mp hnext)
      refine ⟨rfl, ?_⟩
      rintro heq
      obtain rfl := Job.close.inj heq
      cases step <;> exact absurd hless (by decide)
    have hclaimed : deed.claimed (w.withService (w.ground.service.closeStep step).1) =
        deed.claimed w := by cases deed <;> rfl
    show _ + ((w.ground.service.closeStep step).2.toList.map Job.close).countP deed.awaits + _ +
      _ ≤ _ + (deed.claimed (w.withService (w.ground.service.closeStep step).1)).toNat
    rw [hlater, hclaimed]
    cases step <;> cases deed <;> simp [Done.andThen, Deed.isDone, Deed.awaits]
  | isAside haside hsame hspawned hnext =>
    have hzero : d.next.countP deed.awaits = 0 :=
      deed.countP_awaits_eq_zero fun j hj => ⟨(hnext j hj).1, (hnext j hj).2.1⟩
    have hclaimed : deed.claimed d.state = deed.claimed w := by
      cases deed <;> first | exact hsame.started | exact hsame.stopped
    have htold : (if job.loops then [Seen.looping] else []).countP deed.isDone = 0 := by
      split <;> cases deed <;> rfl
    rw [hzero, hspawned, hclaimed, htold]
    simp
  | _ =>
    cases deed <;>
      simp [Done.andThen, Done.just, startFailed, Deed.isDone, Deed.awaits, Deed.claimed]

/-! ### Flags and the loop -/

theorem not_mem_glimpses {glimpses : List Seen} {x : Seen} (hx : x.isGlimpse = false)
    (h : ∀ x ∈ glimpses, x.isGlimpse = true) : x ∉ glimpses :=
  fun hmem => absurd (hx.symm.trans (h x hmem)) (by simp)

/-- The flags are set by the calls that are seen, and by nothing else. -/
theorem LifecycleEffect.flags (h : LifecycleEffect w job told d) :
    (d.state.started = true ↔ w.started = true ∨ .called ∈ told) ∧
      (d.state.stopped = true ↔ w.stopped = true ∨ .stopping ∈ told) := by
  cases h with
  | claims caller hfresh => simp [Done.andThen]
  | repeats caller hstarted => simp [Done.andThen, hstarted]
  | stops hrunning => simp [Done.andThen]
  | stopsAgain hstopped => simp [Done.just, hstopped]
  | registers hsame hglimpses hregistration =>
    have hstarted := hsame.started
    have hstopped := hsame.stopped
    have hcalled := not_mem_glimpses (x := .called) rfl hglimpses
    have hstopping := not_mem_glimpses (x := .stopping) rfl hglimpses
    cases hregistration <;> simp [Done.andThen, hstarted, hstopped, hcalled, hstopping]
  | walks hsame hglimpses hregistration =>
    have hstarted := hsame.started
    have hstopped := hsame.stopped
    have hcalled := not_mem_glimpses (x := .called) rfl hglimpses
    have hstopping := not_mem_glimpses (x := .stopping) rfl hglimpses
    cases hregistration <;> simp [Done.andThen, hstarted, hstopped, hcalled, hstopping]
  | closes step => cases step <;> simp [Done.andThen, withService]
  | isAside haside hsame hspawned hnext =>
    have hstarted := hsame.started
    have hstopped := hsame.stopped
    rw [hstarted, hstopped]
    split <;> simp
  | _ => simp [Done.andThen, Done.just, Watch.note]

/-- What leads to a loop: a submission follows a registration that succeeded, and a
loop is begun, or parked, by a submission that did. -/
structure Earns (w : Watch) (job : Job) (told : List Seen) (d : Done Watch Job) : Prop where
  submit : ∀ caller, .submit caller ∈ d.next → .registered none ∈ told
  loops : ∀ j ∈ d.next, j.loops = true → job.loops = true
  spawned : ∀ t ∈ d.spawned, ∀ j ∈ t,
    j = .run ∧ (∃ caller, job = .submit caller) ∧ .submitted none ∈ told
  parked : ∀ j ∈ d.state.executor.parked, j ∈ w.executor.parked ∨
    j = .run ∧ (∃ caller, job = .submit caller) ∧ .submitted none ∈ told
  looping : .looping ∈ told → job.loops = true

theorem Registration.earns {caller : Caller} {next : List Job}
    (h : Registration caller told next) :
    (∀ caller, .submit caller ∈ next → .registered none ∈ told) ∧
      (∀ j ∈ next, j.loops = false) ∧ .looping ∉ told := by
  cases h <;> simp [startFailed, Job.loops]

theorem LifecycleEffect.earns (h : LifecycleEffect w job told d) : Earns w job told d := by
  -- a loop is put into a thread or parked by a submission only, and a submission follows
  -- only where the registration was seen to end well
  cases h with
  | registers hsame hglimpses hregistration =>
    obtain ⟨hsubmit, hloops, hquiet⟩ := hregistration.earns
    have hlooping := not_mem_glimpses (x := .looping) rfl hglimpses
    refine ⟨fun caller hj => ?_, fun j hj hl => ?_, by simp [Done.andThen],
      fun j hj => Or.inl (hsame.executor ▸ hj), by simp [hlooping, hquiet]⟩
    · exact List.mem_cons_of_mem _ (List.mem_append_right _ (hsubmit caller hj))
    · exact absurd (hl.symm.trans (hloops j hj)) (by simp)
  | walks hsame hglimpses hregistration =>
    obtain ⟨hsubmit, hloops, hquiet⟩ := hregistration.earns
    have hlooping := not_mem_glimpses (x := .looping) rfl hglimpses
    refine ⟨fun caller hj => ?_, fun j hj hl => ?_, by simp [Done.andThen],
      fun j hj => Or.inl (hsame.executor ▸ hj), by simp [hlooping, hquiet]⟩
    · exact List.mem_append_right _ (hsubmit caller hj)
    · exact absurd (hl.symm.trans (hloops j hj)) (by simp)
  | @runs caller executor hparked =>
    refine ⟨by simp, by simp [Job.loops], ?_, fun j hj => Or.inl (hparked ▸ hj), by simp⟩
    intro t ht j hj
    rw [List.mem_singleton.mp ht] at hj
    exact ⟨List.mem_singleton.mp hj, ⟨caller, rfl⟩, by simp⟩
  | @parks caller executor hparked =>
    refine ⟨by simp [Done.andThen], by simp [Done.andThen, Job.loops], by simp [Done.andThen], ?_,
      by simp⟩
    intro j hj
    have hmem : j ∈ executor.parked := hj
    rw [hparked] at hmem
    rcases List.mem_append.mp hmem with hmem | hmem
    · exact Or.inl hmem
    · exact Or.inr ⟨List.mem_singleton.mp hmem, ⟨caller, rfl⟩, by simp⟩
  | refuses caller e hparked =>
    exact ⟨by simp [Done.andThen, startFailed], by simp [Done.andThen, startFailed, Job.loops],
      by simp [Done.andThen], fun j hj => Or.inl (hparked ▸ hj), by simp⟩
  | closes step =>
    refine ⟨?_, ?_, by simp [Done.andThen], fun j hj => Or.inl hj, ?_⟩
    · intro caller hj
      obtain ⟨next, -, heq⟩ := List.mem_map.mp hj
      exact absurd heq (by simp)
    · intro j hj hl
      obtain ⟨next, -, rfl⟩ := List.mem_map.mp hj
      exact absurd hl (by simp [Job.loops])
    · split <;> simp
  | @isAside job d haside hsame hspawned hnext =>
    refine ⟨?_, fun j hj => (hnext j hj).2.2, by simp [hspawned],
      fun j hj => Or.inl (hsame.executor ▸ hj), ?_⟩
    · intro caller hj
      exact absurd (hnext _ hj).1 (by simp [Job.opens])
    · intro hl
      split at hl
      · next hloops => exact hloops
      · exact absurd hl List.not_mem_nil
  | _ =>
    exact ⟨by simp [Done.andThen, Done.just], by simp [Done.andThen, Done.just, Job.loops],
      by simp [Done.andThen, Done.just], fun j hj => Or.inl hj, by simp⟩

/-! ### What comes from outside -/

/-- What comes from outside: a call, what was parked, or a dispatch that is taken up, on
threads of their own, at a watch that is as it was with regard to its setup and to a
stop. -/
structure Arrival (p : Running) (more : List Job) (q : Running) : Prop where
  jobs : q.jobs = p.jobs ++ more
  comes : ∀ j ∈ more, j ∈ p.state.executor.parked ∨ j = .start .owner ∨ j = .stop ∨
    ∃ d, j = .desk (.begin d)
  setup : SameSetup p.state q.state
  started : q.state.started = p.state.started
  stopped : q.state.stopped = p.state.stopped
  parked : ∀ j ∈ q.state.executor.parked, j ∈ p.state.executor.parked
  closed : p.state.ground.service.isClosed = true → q.state.ground.service.isClosed = true
  desk : q.state.desk = p.state.desk ∨ ∃ n r, Stopping.takeUp? p.state.desk n = some r ∧
    q.state.desk = r.2 ∧ more = [.desk (.begin r.1)]

/-- Everything that can come from outside is such an arrival. -/
theorem outside_arrival {e : Outside} (h : outside e p = some q) : ∃ more, Arrival p more q := by
  cases e with
  | start | stop =>
    obtain rfl := Option.some.inj h
    exact ⟨_, p.jobs_spawn _, by simp, .refl _, rfl, rfl, fun j hj => hj, id, Or.inl rfl⟩
  | unpark =>
    obtain rfl := Option.some.inj h
    refine ⟨p.state.executor.parked, ?_, fun j hj => Or.inl hj, ⟨.refl _, rfl, rfl, rfl⟩, rfl, rfl,
      fun j hj => absurd hj List.not_mem_nil, id, Or.inl rfl⟩
    show (p.threads ++ p.state.executor.parked.map fun job => [job]).flatten =
      p.threads.flatten ++ p.state.executor.parked
    rw [List.flatten_append, ← List.flatMap_def, List.flatMap_singleton']
  | dispatch n =>
    obtain ⟨r, hr, rfl⟩ := Option.map_eq_some_iff.mp h
    exact ⟨_, Pool.jobs_spawn _ _, by simp, ⟨.refl _, rfl, rfl, rfl⟩, rfl, rfl, fun j hj => hj, id,
      Or.inr ⟨n, r, hr, rfl, rfl⟩⟩
  | ground g =>
    simp only [outside] at h
    split at h
    · exact absurd h (by simp)
    · next hopen =>
      obtain rfl := Option.some.inj h
      refine ⟨[], (List.append_nil _).symm, by simp, ⟨.refl _, rfl, rfl, rfl⟩, rfl, rfl,
        fun j hj => hj, ?_, Or.inl rfl⟩
      intro hclosed
      rw [hclosed, Bool.true_and, Bool.not_eq_true', Bool.not_eq_false] at hopen
      exact hopen

/-- Where only loops are parked, what comes is no part of a call that has made its claim,
and a loop only if it was parked. -/
theorem Arrival.aside {more : List Job} (h : Arrival p more q)
    (hparked : ∀ j ∈ p.state.executor.parked, j = .run) : ∀ j ∈ more,
      j.opens = false ∧ j.stops = false ∧ (j.loops = true → j ∈ p.state.executor.parked) := by
  intro j hj
  rcases h.comes j hj with hj | rfl | rfl | ⟨d, rfl⟩
  · obtain rfl := hparked j hj
    exact ⟨rfl, rfl, fun _ => hj⟩
  · simp [Job.opens, Job.stops, Job.loops]
  · simp [Job.opens, Job.stops, Job.loops]
  · simp [Job.opens, Job.stops, Job.loops]

/-- What comes shuts no debouncer down, and gives it nothing to wait for. -/
theorem Arrival.debouncer {more : List Job} (h : Arrival p more q) {g' : Debouncer}
    (hg' : q.state.desk.debouncer = some g') : ∃ g, p.state.desk.debouncer = some g ∧
      g'.shutDown = g.shutDown ∧ g'.scheduler.shutdowns = g.scheduler.shutdowns ∧
      (g.scheduler.waiting = [] → g'.scheduler.waiting = []) := by
  rcases h.desk with hsame | ⟨n, r, hr, hdesk, -⟩
  · rw [hsame] at hg'
    exact ⟨g', hg', rfl, rfl, id⟩
  · obtain ⟨g, w, hg, hw, rfl⟩ := Stopping.takeUp?_eq_some hr
    rw [hdesk] at hg'
    obtain rfl := Option.some.inj hg'
    have hwaiting : g.scheduler.waiting ≠ [] := List.ne_nil_of_mem (List.mem_of_getElem? hw)
    exact ⟨g, hg, rfl, rfl, fun hempty => absurd hempty hwaiting⟩

/-! ### The tally -/

theorem map_snd_note (i : Nat) (job : Job) (w : Watch) : (note i job w).map (·.2) = seen job w := by
  unfold note
  rw [List.map_map]
  exact List.map_id _

theorem countP_note (deed : Deed) (i : Nat) (job : Job) (w : Watch) :
    (note i job w).countP (fun entry => deed.isDone entry.2) =
      (seen job w).countP deed.isDone := by
  rw [← map_snd_note i job w, List.countP_map]
  rfl

/-- What was seen so far accounts for the flags, for the jobs of a call that has made
its claim and for those of the loop. -/
structure Tally (L : List (Nat × Seen)) (p : Running) : Prop where
  deeds : ∀ deed : Deed, L.countP (fun entry => deed.isDone entry.2) +
    p.jobs.countP deed.awaits ≤ (deed.claimed p.state).toNat
  called : p.state.started = true ↔ .called ∈ L.map (·.2)
  stopping : p.state.stopped = true ↔ .stopping ∈ L.map (·.2)
  parked : ∀ j ∈ p.state.executor.parked, j = .run
  submit : ∀ caller, .submit caller ∈ p.jobs → .registered none ∈ L.map (·.2)
  loops : ∀ j, j ∈ p.jobs ∨ j ∈ p.state.executor.parked → j.loops = true →
    .registered none ∈ L.map (·.2) ∧ .submitted none ∈ L.map (·.2)
  looping : .looping ∈ L.map (·.2) →
    .registered none ∈ L.map (·.2) ∧ .submitted none ∈ L.map (·.2)

/-- A step of a thread keeps the tally. -/
theorem Tally.step (hp : Tally L p) (hstep : p.step (machine behaviour) i = some q) :
    Tally (L ++ Setting.noted note (.job i : Move Outside) p) q := by
  obtain ⟨job, rest, d, hi, hd, rfl⟩ := Pool.step_eq_some hstep
  have heffect := perform_lifecycleEffect hd
  have hjobs : Pool.JobStep p ⟨d.state, p.threads.set i (d.next ++ rest) ++ d.spawned⟩ job d :=
    Pool.jobs_of_set hi
  obtain ⟨hstarted, hstopped⟩ := heffect.flags
  have hearns := heffect.earns
  have hmap : (L ++ note i job p.state).map (·.2) = L.map (·.2) ++ seen job p.state := by
    rw [List.map_append, map_snd_note]
  -- what follows a submission was submitted after the root was registered
  have hsubmitted : ∀ caller, job = .submit caller → .submitted none ∈ seen job p.state →
      .registered none ∈ L.map (·.2) ++ seen job p.state ∧
        .submitted none ∈ L.map (·.2) ++ seen job p.state := by
    rintro caller rfl hseen
    exact ⟨List.mem_append_left _ (hp.submit caller hjobs.before), List.mem_append_right _ hseen⟩
  have hkept : .registered none ∈ L.map (·.2) ∧ .submitted none ∈ L.map (·.2) →
      .registered none ∈ L.map (·.2) ++ seen job p.state ∧
        .submitted none ∈ L.map (·.2) ++ seen job p.state :=
    fun h => ⟨List.mem_append_left _ h.1, List.mem_append_left _ h.2⟩
  rw [Setting.noted_job hi]
  refine ⟨?_, ?_, ?_, ?_, ?_, ?_, ?_⟩
  · intro deed
    have hbefore := hp.deeds deed
    have hdeed := heffect.deed deed
    have hcount := Pool.countP_of_set (s := p.state) (d := d) deed.awaits hi
    have hp' : (Pool.jobs ⟨p.state, p.threads⟩).countP deed.awaits = p.jobs.countP deed.awaits :=
      rfl
    rw [List.countP_append, countP_note]
    show _ + _ + _ ≤ (deed.claimed d.state).toNat
    omega
  · rw [hmap, List.mem_append, ← hp.called]
    exact hstarted
  · rw [hmap, List.mem_append, ← hp.stopping]
    exact hstopped
  · intro j hj
    rcases hearns.parked j hj with hj | ⟨rfl, -, -⟩
    · exact hp.parked j hj
    · rfl
  · intro caller hj
    rw [hmap, List.mem_append]
    rcases hjobs.known _ hj with hj | hj | ⟨t, ht, hjt⟩
    · exact Or.inr (hearns.submit caller hj)
    · exact Or.inl (hp.submit caller hj)
    · exact absurd (hearns.spawned t ht _ hjt).1 (by simp)
  · intro j hj hloops
    rw [hmap]
    rcases hj with hj | hj
    · rcases hjobs.known j hj with hj | hj | ⟨t, ht, hjt⟩
      · exact hkept (hp.loops job (Or.inl hjobs.before) (hearns.loops j hj hloops))
      · exact hkept (hp.loops j (Or.inl hj) hloops)
      · obtain ⟨-, ⟨caller, hjob⟩, hseen⟩ := hearns.spawned t ht j hjt
        exact hsubmitted caller hjob hseen
    · rcases hearns.parked j hj with hj | ⟨-, ⟨caller, hjob⟩, hseen⟩
      · exact hkept (hp.loops j (Or.inr hj) hloops)
      · exact hsubmitted caller hjob hseen
  · intro hlooping
    rw [hmap] at hlooping ⊢
    rcases List.mem_append.mp hlooping with hlooping | hlooping
    · exact hkept (hp.looping hlooping)
    · exact hkept (hp.loops job (Or.inl hjobs.before) (hearns.looping hlooping))

/-- What comes from outside keeps the tally. -/
theorem Tally.arrival {more : List Job} (hp : Tally L p) (h : Arrival p more q) : Tally L q := by
  have haside := h.aside hp.parked
  have hnone : ∀ deed : Deed, more.countP deed.awaits = 0 := by
    intro deed
    refine deed.countP_awaits_eq_zero fun j hj => ⟨(haside j hj).1, ?_⟩
    rintro rfl
    exact absurd (haside _ hj).2.1 (by simp [Job.stops])
  refine ⟨?_, h.started ▸ hp.called, h.stopped ▸ hp.stopping,
    fun j hj => hp.parked j (h.parked j hj), ?_, ?_, hp.looping⟩
  · intro deed
    have hclaimed : deed.claimed q.state = deed.claimed p.state := by
      cases deed <;> first | exact h.started | exact h.stopped
    rw [h.jobs, List.countP_append, hnone deed, hclaimed]
    exact hp.deeds deed
  · intro caller hj
    rw [h.jobs] at hj
    rcases List.mem_append.mp hj with hj | hj
    · exact hp.submit caller hj
    · exact absurd (haside _ hj).1 (by simp [Job.opens])
  · intro j hj hloops
    rcases hj with hj | hj
    · rw [h.jobs] at hj
      rcases List.mem_append.mp hj with hj | hj
      · exact hp.loops j (Or.inl hj) hloops
      · exact hp.loops j (Or.inr ((haside j hj).2.2 hloops)) hloops
    · exact hp.loops j (Or.inr (h.parked j hj)) hloops

/-- Every move keeps the tally. -/
theorem move_tally {a : Move Outside} (hp : Tally L p)
    (hmove : (setting behaviour).move a p = some q) :
    Tally (L ++ Setting.noted note a p) q := by
  cases a with
  | job i => exact hp.step hmove
  | outside e =>
    obtain ⟨more, harrival⟩ := outside_arrival hmove
    rw [Setting.noted_outside, List.append_nil]
    exact hp.arrival harrival

end ChangeWatch.Lifecycle
