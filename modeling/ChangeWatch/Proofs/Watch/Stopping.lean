import ChangeWatch.Proofs.Watch.Stopping.Underway

/-!
# What can still happen after a stop

From what is left of the loop's thread (`Looping`) and from what a stop has
brought about or is still to bring about (`Underway`) follows, for all runs, what
`stop_bounds_loop` says: how little the loop does once the flag is set, that it
never waits in vain, and that no dispatch is accepted or taken up when the call of
`stop` is done (`Over`).
-/

namespace ChangeWatch.Stopping

open Watch

variable {behaviour : Behaviour Wish} {w : Watch} {job : Job} {d : Done Watch Job} {k : Nat}

/-! ### After the call of `stop` is done -/

/-- Nothing waits any more, so many dispatches were accepted, and so many are still
to be begun at most. -/
structure Over (n : Nat) (begun : List Job) (p : Running) : Prop where
  shut : p.state.desk.Shut
  accepted : p.state.desk.accepted = n
  begun : ∀ j ∈ p.jobs, j.begins = true → j ∈ begun

/-- A step of any thread neither accepts a dispatch nor takes one up. -/
theorem step_over {n : Nat} {begun : List Job} {p q : Running} {i : Nat} (hp : Over n begun p)
    (hstep : p.step (machine behaviour) i = some q) : Over n begun q := by
  obtain ⟨job, d, hperform, hjobs⟩ := Pool.jobs_of_step hstep
  obtain ⟨hdesk, hnext, hspawned⟩ : (d.state.desk.Shut ∧ d.state.desk.accepted = n) ∧
      (∀ j ∈ d.next, j.begins = false) ∧ ∀ t ∈ d.spawned, ∀ j ∈ t, j.begins = false := by
    cases perform_controlEffect hperform with
    | stop hrunning =>
      exact ⟨⟨hp.shut, hp.accepted⟩, by simp [Done.andThen, Job.begins], by simp [Done.andThen]⟩
    | close step =>
      refine ⟨⟨hp.shut, hp.accepted⟩, ?_, by simp [Done.andThen]⟩
      intro j hj
      obtain ⟨next, -, rfl⟩ := List.mem_map.mp hj
      rfl
    | receive hreceive =>
      exact ⟨⟨hp.shut, hp.accepted⟩, fun j hj => (afterTaken_plain hj).2,
        by simp [Done.andThen]⟩
    | desk hdesk =>
      -- the debouncer is shut down, and stays so
      obtain ⟨hshut, haccepted, hnext⟩ := Desk.perform_of_shut hdesk hp.shut
      refine ⟨⟨hshut, haccepted.trans hp.accepted⟩, ?_, by simp [Done.andThen]⟩
      intro j hj
      obtain ⟨x, hx, rfl⟩ := List.mem_map.mp hj
      have hplain := hnext x hx
      cases x with
      | begin dispatch => exact absurd hplain (by simp [Desk.Job.isBegin])
      | _ => rfl
    | calm _ hcalm =>
      refine ⟨⟨fun g hg => hp.shut g (hcalm.debouncer.symm.trans hg), ?_⟩,
        fun j hj => (hcalm.next j hj).2, fun t ht j hj => (hcalm.spawned t ht j hj).2⟩
      unfold Desk.accepted
      rw [hcalm.debouncer]
      exact hp.accepted
  refine ⟨hjobs.state ▸ hdesk.1, hjobs.state ▸ hdesk.2, ?_⟩
  intro j hj hbegins
  rcases hjobs.known j hj with hj | hj | ⟨t, ht, hjt⟩
  · exact absurd (hbegins.symm.trans (hnext j hj)) (by simp)
  · exact hp.begun j hj hbegins
  · exact absurd (hbegins.symm.trans (hspawned t ht j hjt)) (by simp)

/-- What comes from outside does not either, and the scheduler has nothing to take
up. -/
theorem move_over {n : Nat} {begun : List Job} {p q : Running} {a : Move Outside}
    (hp : Over n begun p) (hmove : (setting behaviour).move a p = some q) :
    Over n begun q ∧ ∀ m, a ≠ .outside (.dispatch m) := by
  have hspawn : ∀ jobs : List Job, (∀ j ∈ jobs, j.begins = false) → Over n begun (p.spawn jobs) := by
    intro jobs hjobs
    refine ⟨hp.shut, hp.accepted, ?_⟩
    intro j hj hbegins
    rcases Pool.mem_jobs_spawn.mp hj with hj | hj
    · exact hp.begun j hj hbegins
    · exact absurd (hbegins.symm.trans (hjobs j hj)) (by simp)
  cases a with
  | job i => exact ⟨step_over hp hmove, by simp⟩
  | outside e =>
    cases e with
    | stop =>
      obtain rfl := Option.some.inj hmove
      exact ⟨hspawn _ (by simp [Job.begins]), by simp⟩
    | start =>
      obtain rfl := Option.some.inj hmove
      exact ⟨hspawn _ (by simp [Job.begins]), by simp⟩
    | dispatch m =>
      obtain ⟨r, hr, -⟩ := Option.map_eq_some_iff.mp hmove
      obtain ⟨g, w, hg, hw, -⟩ := takeUp?_eq_some hr
      exact absurd (hp.shut g hg).2 (List.ne_nil_of_mem (List.mem_of_getElem? hw))
    | ground g =>
      simp only [Setting.move, setting, outside] at hmove
      split at hmove
      · obtain rfl := Option.some.inj hmove
        exact ⟨⟨hp.shut, hp.accepted, hp.begun⟩, by simp⟩
      · exact absurd hmove (by simp)

/-- During a run in which nothing waits any more nothing is accepted or taken up. -/
theorem run_over {n : Nat} {begun : List Job} {moves : List (Move Outside)} :
    ∀ {p q : Running}, Over n begun p → (setting behaviour).run? moves p = some q →
      Over n begun q ∧ ∀ m, .outside (.dispatch m) ∉ moves := by
  induction moves with
  | nil =>
    intro p q hp hrun
    obtain rfl := Option.some.inj hrun
    exact ⟨hp, fun _ => List.not_mem_nil⟩
  | cons a rest ih =>
    intro p q hp hrun
    obtain ⟨r, hr, hrest⟩ := Setting.run?_cons.mp hrun
    obtain ⟨hover, hfirst⟩ := move_over hp hr
    obtain ⟨hend, hlater⟩ := ih hover hrest
    refine ⟨hend, ?_⟩
    intro m hmem
    rcases List.mem_cons.mp hmem with heq | hmem
    · exact hfirst m heq.symm
    · exact hlater m hmem

/-! ### What a stop comes to -/

theorem Poised.looping {p : Running} (h : Poised k p) : Looping k ⟨none, none⟩ p :=
  ⟨h.started, ⟨_, h.loop, .fresh⟩, fun i t hi ht j hj => (h.others i t hi ht j hj).1⟩

theorem Poised.underway {p : Running} (h : Poised k p) : Underway k p := by
  have hjobs : ∀ j ∈ p.jobs, j.stops = false := by
    intro j hj
    obtain ⟨t, ht, hjt⟩ := Pool.mem_jobs.mp hj
    obtain ⟨i, hi⟩ := List.getElem?_of_mem ht
    by_cases hmine : i = k
    · subst hmine
      obtain rfl := Option.some.inj (h.loop.symm.trans hi)
      rw [List.mem_singleton.mp hjt]
      rfl
    · exact (h.others i t hmine hi j hjt).2
  refine ⟨fun _ => ⟨h.service, h.desk, hjobs⟩, ?_, ?_, h.desk.tidy, ?_⟩
  · intro hs
    exact absurd (h.running.symm.trans hs) (by simp)
  · intro hc
    exact absurd (h.service.symm.trans hc) (by simp)
  · intro hs
    exact absurd (h.running.symm.trans hs) (by simp)

/-- A run keeps a stop under way. -/
theorem run_underway {moves : List (Move Outside)} :
    ∀ {h : Hand} {p q : Running}, Looping k h p → Underway k p →
      (setting behaviour).run? moves p = some q → Underway k q := by
  induction moves with
  | nil =>
    intro h p q _ hp hrun
    obtain rfl := Option.some.inj hrun
    exact hp
  | cons a rest ih =>
    intro h p q hlooping hp hrun
    obtain ⟨r, hr, hrest⟩ := Setting.run?_cons.mp hrun
    exact ih (move_looping hlooping hr).looping (move_underway hp hlooping hr) hrest

/-- As long as nothing is taken, all that is handled belongs to one batch. -/
theorem Orderly.one_batch {log : List Seen} : ∀ {h : Hand}, Orderly h log →
    (∀ x ∈ log, x.isTook = false) →
    (∀ key event, .handled key event ∈ log → h.Holds key event) ∧
      ∀ front c x back, log = front ++ .ran c x :: back →
        ∃ key event, (front.foldl Hand.after h).event = some (key, event) ∧ h.Holds key event := by
  induction log with
  | nil =>
    intro h _ _
    refine ⟨by simp, ?_⟩
    intro front c x back heq
    exact absurd heq (by simp)
  | cons y rest ih =>
    intro h horderly hnone
    obtain ⟨hfirst, hrest⟩ := horderly
    -- nothing but taking changes the batch in hand
    have hholds : ∀ key event, (h.after y).Holds key event → h.Holds key event := by
      cases y with
      | took t => exact absurd (hnone _ List.mem_cons_self) (by simp [Seen.isTook])
      | handled key event => exact fun _ _ hh => hh
      | ran c x => exact fun _ _ hh => hh
    obtain ⟨hhandled, hran⟩ := ih hrest fun x hx => hnone x (List.mem_cons_of_mem _ hx)
    constructor
    · intro key event hmem
      rcases List.mem_cons.mp hmem with rfl | hmem
      · exact hfirst
      · exact hholds key event (hhandled key event hmem)
    · intro front c x back heq
      cases front with
      | nil =>
        obtain ⟨rfl, -⟩ := List.cons.inj heq
        exact hfirst
      | cons z front =>
        obtain ⟨rfl, hback⟩ := List.cons.inj heq
        obtain ⟨key, event, hevent, hh⟩ := hran front c x back hback
        exact ⟨key, event, hevent, hholds key event hh⟩

/-- A call of `stop` that is done leaves no loop waiting in vain. -/
theorem Underway.not_stuck {p : Running} (hp : Underway k p) (hdone : Completed p)
    (hwait : p.threads[k]? = some [.receive]) : (p.step (machine behaviour) k).isSome = true := by
  obtain ⟨hstopped, hjobs⟩ := hdone
  have hclosed : p.state.ground.service.isClosed = true := by
    rcases hp.closing hstopped with hclosed | hmem
    · exact hclosed
    · exact absurd (hjobs _ hmem) (by simp [Job.stops])
  -- no step of closing is left to be done, so the signal is there
  have hsignal : Signal.closed ∈ p.state.ground.service.signals := by
    rcases hp.waking hclosed with ⟨step, -, hmem⟩ | hsignal | hthread
    · exact absurd (hjobs _ hmem) (by simp [Job.stops])
    · exact hsignal
    · exact absurd (by rw [loopThread, hwait, Option.getD_some]) hthread
  cases hreceive : p.state.ground.service.receive with
  | none =>
    rw [Service.receive_eq_none.mp hreceive] at hsignal
    exact absurd hsignal List.not_mem_nil
  | some r =>
    have hperform : (machine behaviour).perform .receive p.state =
        some (.andThen (p.state.withService r.2) (afterTaken r.1)) := by
      show p.state.ground.service.receive.map _ = _
      rw [hreceive]
      rfl
    rw [Pool.step, hwait]
    dsimp only
    rw [hperform]
    rfl

/-- What can still happen after a stop.  Once the flag is set at most one call of
`take` returns to the loop, before anything else that is seen of it, and whatever
the loop handles and runs belongs to the one batch that is then in hand.  The loop
comes to its end only when the watch is stopped.  When the call that set the flag
is done, the loop does not wait in vain, nothing is accepted for later, and nothing
that was accepted is taken up. -/
theorem stop_bounds_loop {p₀ p₁ p₂ : Running} {before after : List (Move Outside)}
    (h₀ : Poised k p₀) (h₁ : (setting behaviour).run? before p₀ = some p₁)
    (h₂ : (setting behaviour).run? after p₁ = some p₂) :
    let seen₁ := loopLog behaviour k before p₀
    let seen₂ := loopLog behaviour k after p₁
    (p₁.state.stopped = true → ∃ taken later, seen₂ = taken ++ later ∧
      taken.length ≤ 1 ∧ (∀ x ∈ taken, x.isTook = true) ∧ (∀ x ∈ later, x.isTook = false) ∧
      (∀ key event, .handled key event ∈ later → (handAfter (seen₁ ++ taken)).Holds key event) ∧
      ∀ front c x back, later = front ++ .ran c x :: back → ∃ key event,
        (handAfter (seen₁ ++ taken ++ front)).event = some (key, event) ∧
        (handAfter (seen₁ ++ taken)).Holds key event) ∧
    (p₁.threads[k]? = some [] → p₁.state.stopped = true) ∧
    (Completed p₁ →
      (p₁.threads[k]? = some [.receive] → (p₁.step (machine behaviour) k).isSome = true) ∧
      p₂.state.desk.accepted = p₁.state.desk.accepted ∧
      (∀ n, .outside (.dispatch n) ∉ after) ∧
      ∀ j ∈ p₂.jobs, j.begins = true → j ∈ p₁.jobs) := by
  intro seen₁ seen₂
  obtain ⟨-, hlooping⟩ := run_looping h₀.looping h₁
  have hunderway := run_underway h₀.looping h₀.underway h₁
  refine ⟨?_, ?_, ?_⟩
  · -- the order of what is seen: at most one batch, and then what is done with it
    intro hstopped
    obtain ⟨horderly, -⟩ := run_looping hlooping h₂
    obtain ⟨taken, later, hlog, hlength, htaken, hlater, -⟩ := run_took hlooping hstopped h₂
    have hrest : Orderly (handAfter (seen₁ ++ taken)) later := by
      rw [hlog] at horderly
      rw [handAfter, List.foldl_append]
      exact horderly.rest
    obtain ⟨hhandled, hran⟩ := hrest.one_batch hlater
    refine ⟨taken, later, hlog, hlength, htaken, hlater, hhandled, ?_⟩
    intro front c x back heq
    rw [handAfter, List.foldl_append]
    exact hran front c x back heq
  · -- a loop without jobs is one that saw the flag
    intro hend
    obtain ⟨t, ht, hphase⟩ := hlooping.loop
    obtain rfl := Option.some.inj (ht.symm.trans hend)
    exact hphase.stopped_of_nil
  · -- the desk is shut, and a shut desk accepts nothing and begins nothing
    intro hdone
    have hshut : p₁.state.desk.Shut := by
      rcases hunderway.shutting hdone.1 with hshut | hmem
      · exact hshut
      · exact absurd (hdone.2 _ hmem) (by simp [Job.stops])
    obtain ⟨hover, hnone⟩ := run_over ⟨hshut, rfl, fun j hj _ => hj⟩ h₂
    exact ⟨hunderway.not_stuck hdone, hover.accepted, hnone, hover.begun⟩

/-- A loop that waited before the stop is woken: the flag is set, the service is
closed and the debouncer is shut down while it waits. -/
theorem stop_wakes_waiting_loop : ∃ p₀ p₁ before, Poised 0 p₀ ∧
    (setting fun _ _ _ => .none).run? before p₀ = some p₁ ∧ Completed p₁ ∧
    p₁.threads[0]? = some [.receive] ∧
    (p₁.step (machine fun _ _ _ => .none) 0).isSome = true := by
  let w : Watch := {
    strategy := ⟨.tree ⟨.here, 1, []⟩, .none⟩
    handlers := ⟨some ⟨0⟩, none, none, none⟩
    kinds := [.create], delay := .zero, backend := .default
    ground := ⟨.memory (.new .none), .empty⟩
    executor := .new .ownThread, desk := ⟨some (.new ⟨5⟩ .queueing), .empty⟩
    started := true, stopped := false, handled := 0 }
  let before : List (Move Outside) :=
    [.job 0, .job 0, .outside .stop, .job 1, .job 1, .job 1, .job 1, .job 1]
  have hpoised : Poised 0 ⟨w, [[.run]]⟩ := by
    refine ⟨rfl, rfl, rfl, ?_, rfl, ?_⟩
    · intro g hg
      obtain rfl := Option.some.inj hg
      rfl
    · intro i t hi ht
      obtain ⟨i, rfl⟩ := Nat.exists_eq_succ_of_ne_zero hi
      exact absurd ht (by simp)
  have hrun : ∃ p₁, (setting fun _ _ _ => .none).run? before ⟨w, [[.run]]⟩ = some p₁ ∧
      Completed p₁ ∧ p₁.threads[0]? = some [.receive] :=
    ⟨_, rfl, ⟨rfl, by decide⟩, rfl⟩
  obtain ⟨p₁, hrun, hdone, hwait⟩ := hrun
  have hstay : (setting fun _ _ _ => .none).run? [] p₁ = some p₁ := rfl
  exact ⟨_, p₁, before, hpoised, hrun, hdone, hwait,
    ((stop_bounds_loop hpoised hrun hstay).2.2 hdone).1 hwait⟩

end ChangeWatch.Stopping
