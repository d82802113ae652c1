import ChangeWatch.Proofs.Watch.Outcomes

/-!
# What follows a job

A job puts others in front of what its thread still has to do.  `Follows` lists which
can follow which, with what is handed on from the one to the other: a call of `start`
goes from its claim to the registration, the walk and the submission, an event from
its resolution to a pickup or a dispatch, a batch back to the queue.

`perform_threadEffect` says that there is nothing else, and that only a submission starts a
thread.  What holds of every job that follows is then a matter of the cases of
`Follows`, whatever the watch does besides.
-/

namespace ChangeWatch.Watch

variable {behaviour : Behaviour Wish} {w : Watch} {job : Job} {d : Done Watch Job}

/-- Which job can follow which at a watch. -/
inductive Follows (w : Watch) : Job → Job → Prop
  -- a call of `start`
  | claimed (caller : Caller) : w.started = false →
      Follows w (.start caller) (.startUnlessStopped caller)
  | repeated (caller : Caller) : w.started = true →
      Follows w (.start caller) (.started caller (some .alreadyStarted))
  | inTime (caller : Caller) : w.stopped = false →
      Follows w (.startUnlessStopped caller) (.registerRoot caller)
  | late (caller : Caller) : w.stopped = true →
      Follows w (.startUnlessStopped caller) (.started caller (some .alreadyStopped))
  | root (caller : Caller) (agenda : List DirTree.Errand) :
      Follows w (.registerRoot caller) (.walk (.start caller) agenda [])
  | registered (caller : Caller) : Follows w (.registerRoot caller) (.submit caller)
  | rootRefused (caller : Caller) (e : WatchError) {j : Job} : j ∈ startFailed caller e →
      Follows w (.registerRoot caller) j
  | walked (caller : Caller) (agenda : List DirTree.Errand) (dirs : List Path) :
      Follows w (.walk (.start caller) agenda dirs) (.submit caller)
  | walkFailed (caller : Caller) (agenda : List DirTree.Errand) (dirs : List Path)
      (e : WatchError) {j : Job} : j ∈ startFailed caller e →
      Follows w (.walk (.start caller) agenda dirs) j
  | submitted (caller : Caller) : Follows w (.submit caller) (.started caller none)
  | submitRefused (caller : Caller) (e : WatchError) {j : Job} : j ∈ startFailed caller e →
      Follows w (.submit caller) j
  -- a call of `stop`
  | stop {j : Job} : w.stopped = false → j ∈ [.close .mark, .closed, .desk .shutdown] →
      Follows w .stop j
  | close {step next : CloseStep} : next ∈ (w.ground.service.closeStep step).2 →
      Follows w (.close step) (.close next)
  -- the loop
  | run : w.stopped = false → Follows w .run .take
  | again : w.stopped = false → Follows w .recheck .take
  | wait : Follows w .take .receive
  | taken (taken : Taken) {j : Job} : j ∈ afterTaken taken → Follows w .take j
  | received (taken : Taken) {j : Job} : j ∈ afterTaken taken → Follows w .receive j
  -- an event
  | panic (key : Key) (event : RawEvent) :
      Follows w (.handle key event) (.desk (.warn .eventPanicked))
  | created (key : Key) (event : RawEvent) (path : Path) : event.kind = .create →
      Follows w (.handle key event) (.pickUp w.handled key event path)
  | resolved (key : Key) (event : RawEvent) (path : Path) : event.kind ≠ .create →
      Follows w (.handle key event) (.dispatch event path [])
  -- what appeared
  | pickup (count : Nat) (key : Key) (event : RawEvent) (path : Path)
      (agenda : List DirTree.Errand) :
      Follows w (.pickUp count key event path) (.walk (.pickup event path) agenda [])
  | pickedUp (count : Nat) (key : Key) (event : RawEvent) (path : Path) (found : List Path) :
      Follows w (.pickUp count key event path) (.dispatch event path found)
  | pickupWarned (count : Nat) (key : Key) (event : RawEvent) (path : Path)
      (warning : Warning) :
      Follows w (.pickUp count key event path) (.desk (.warn warning))
  | walk (purpose : Purpose) (agenda agenda' : List DirTree.Errand) (dirs dirs' : List Path) :
      Follows w (.walk purpose agenda dirs) (.walk purpose agenda' dirs')
  | survey (event : RawEvent) (path : Path) (agenda : List DirTree.Errand) (dirs : List Path) :
      Follows w (.walk (.pickup event path) agenda dirs) (.survey event path dirs [])
  | broken (event : RawEvent) (path : Path) (agenda : List DirTree.Errand) (dirs : List Path)
      {j : Job} : j ∈ [.desk (.warn .unregistered), .dispatch event path []] →
      Follows w (.walk (.pickup event path) agenda dirs) j
  | surveyOn (event : RawEvent) (path dir : Path) (dirs found found' : List Path) :
      Follows w (.survey event path (dir :: dirs) found) (.survey event path dirs found')
  | surveyed (event : RawEvent) (path : Path) (found : List Path) :
      Follows w (.survey event path [] found) (.dispatch event path found)
  -- the callback
  | gathered (event : RawEvent) (path : Path) (found : List Path) (callback : Callback)
      (context : Context) : w.gathers event.kind = true →
      Follows w (.dispatch event path found)
        (.desk (.offer ⟨event.gatherKey, context, callback⟩ .loop))
  | handedOver (event : RawEvent) (path : Path) (found : List Path) (callback : Callback)
      (context : Context) : w.gathers event.kind = false →
      Follows w (.dispatch event path found) (.desk (.call callback context .callbackPanicked))
  | announced (event : RawEvent) (path : Path) (found : List Path) (callback : Callback)
      {p : Path} : p ∈ found → Follows w (.dispatch event path found) (.announce callback p)
  | called (callback : Callback) (path : Path) (context : Context) :
      Follows w (.announce callback path) (.desk (.call callback context .callbackPanicked))
  | wishStart (x : Context) : Follows w (.desk (.request .start x)) (.start .callback)
  | wishStop (x : Context) : Follows w (.desk (.request .stop x)) .stop
  | desk (job j : Desk.Job Wish) : (∀ r x, job ≠ .request r x) → Follows w (.desk job) (.desk j)

/-! ### Some jobs in full -/

/-- What follows something that was taken. -/
theorem mem_afterTaken {taken : Taken} {j : Job} (h : j ∈ afterTaken taken) :
    (∃ key event, j = .handle key event) ∨ (∃ key, j = .reset key) ∨ j = .recheck ∨
      j = .desk (.warn .backendError) ∨ j = .stop := by
  cases taken with
  | batch b =>
    rcases List.mem_append.mp h with h | h
    · obtain ⟨event, -, rfl⟩ := List.mem_map.mp h
      exact Or.inl ⟨_, _, rfl⟩
    · rcases List.mem_cons.mp h with rfl | h
      · exact Or.inr (Or.inl ⟨_, rfl⟩)
      · exact Or.inr (Or.inr (Or.inl (List.mem_singleton.mp h)))
  | failure e =>
    rcases List.mem_cons.mp h with rfl | h
    · exact Or.inr (Or.inr (Or.inr (Or.inl rfl)))
    · exact Or.inr (Or.inr (Or.inl (List.mem_singleton.mp h)))
  | closed => exact Or.inr (Or.inr (Or.inr (Or.inr (List.mem_singleton.mp h))))

theorem follows_afterResolve (key : Key) (event : RawEvent) (r : Resolution) :
    ∀ j ∈ afterResolve w.handled key event r, Follows w (.handle key event) j := by
  intro j hj
  cases r with
  | panicked =>
    rw [List.mem_singleton.mp hj]
    exact .panic key event
  | irrelevant => exact absurd hj List.not_mem_nil
  | path p =>
    simp only [afterResolve] at hj
    split at hj
    · next hcreate =>
      rw [List.mem_singleton.mp hj]
      exact .created key event p hcreate
    · next hother =>
      rw [List.mem_singleton.mp hj]
      exact .resolved key event p hother

theorem follows_pickUp (count : Nat) (key : Key) (event : RawEvent) (path : Path) :
    ∀ j ∈ w.pickUp count key event path, Follows w (.pickUp count key event path) j := by
  intro j hj
  have hdispatch : ∀ found, Follows w (.pickUp count key event path) (.dispatch event path found) :=
    .pickedUp count key event path
  unfold pickUp at hj
  split at hj
  · next pickup _ =>
    cases pickup with
    | found paths =>
      rw [List.mem_singleton.mp hj]
      exact hdispatch paths
    | failed e =>
      rcases List.mem_cons.mp hj with rfl | hj
      · exact .pickupWarned count key event path _
      · rw [List.mem_singleton.mp hj]
        exact hdispatch []
    | panicked =>
      rw [List.mem_singleton.mp hj]
      exact .pickupWarned count key event path _
  · split at hj
    · rw [List.mem_singleton.mp hj]
      exact hdispatch []
    · split at hj
      · rw [List.mem_singleton.mp hj]
        exact hdispatch []
      · rw [List.mem_singleton.mp hj]
        exact .pickup count key event path _

theorem follows_afterBrokenWalk (purpose : Purpose) (agenda : List DirTree.Errand)
    (dirs : List Path) (e : WatchError) :
    ∀ j ∈ afterBrokenWalk e purpose, Follows w (.walk purpose agenda dirs) j := by
  intro j hj
  cases purpose with
  | start caller => exact .walkFailed caller agenda dirs e hj
  | pickup event path => exact .broken event path agenda dirs hj

theorem follows_handOverAll (event : RawEvent) (path : Path) (found : List Path) :
    ∀ j ∈ w.handOverAll event path found, Follows w (.dispatch event path found) j := by
  intro j hj
  unfold handOverAll at hj
  split at hj
  · exact absurd hj List.not_mem_nil
  · next callback _ =>
    rcases List.mem_cons.mp hj with rfl | hj
    · unfold handOver
      split
      · next hgathers => exact .gathered event path found callback _ hgathers
      · next hnow => exact .handedOver event path found callback _ (Bool.eq_false_iff.mpr hnow)
    · obtain ⟨p, hp, rfl⟩ := List.mem_map.mp hj
      exact .announced event path found callback hp

/-! ### Every job -/

/-- What a job does to the threads: what follows it in its own, and no other thread unless
it submits the loop. -/
structure ThreadEffect (w : Watch) (job : Job) (d : Done Watch Job) : Prop where
  next : ∀ j ∈ d.next, Follows w job j
  spawned : d.spawned = [] ∨ d.spawned = [[.run]] ∧ ∃ caller, job = .submit caller

/-- A job that starts no thread. -/
theorem ThreadEffect.andThen {w' : Watch} {next : List Job} (h : ∀ j ∈ next, Follows w job j) :
    ThreadEffect w job (.andThen w' next) :=
  ⟨h, Or.inl rfl⟩

/-- A job that is followed by one other. -/
theorem ThreadEffect.one {w' : Watch} {j : Job} (h : Follows w job j) :
    ThreadEffect w job (.andThen w' [j]) :=
  .andThen fun _ hj => List.mem_singleton.mp hj ▸ h

/-- A job that nothing follows. -/
theorem ThreadEffect.just (w' : Watch) : ThreadEffect w job (.just w') :=
  ⟨fun _ hj => absurd hj List.not_mem_nil, Or.inl rfl⟩

/-- Every job is followed by such jobs alone. -/
theorem perform_threadEffect (h : perform behaviour job w = some d) : ThreadEffect w job d := by
  cases perform_outcome h with
  -- a call of `start`
  | claimed caller hfresh => exact .one (.claimed caller hfresh)
  | repeated caller hstarted => exact .one (.repeated caller hstarted)
  | inTime caller hrunning => exact .one (.inTime caller hrunning)
  | late caller hstopped => exact .one (.late caller hstopped)
  | fileRegistered caller => exact .one (.registered caller)
  | fileRefused caller => exact .andThen fun j hj => .rootRefused caller _ hj
  | walkBegun caller => exact .one (.root caller _)
  | ran caller =>
    -- the one job that starts a thread
    refine ⟨fun j hj => ?_, Or.inr ⟨rfl, caller, rfl⟩⟩
    rw [List.mem_singleton.mp hj]
    exact .submitted caller
  | parked caller => exact .one (.submitted caller)
  | refused caller => exact .andThen fun j hj => .submitRefused caller _ hj
  -- a call of `stop`
  | stopped hrunning => exact .andThen fun j hj => .stop hrunning hj
  | closing step =>
    refine .andThen fun j hj => ?_
    obtain ⟨next, hnext, rfl⟩ := List.mem_map.mp hj
    exact .close (Option.mem_toList.mp hnext)
  -- the loop
  | run hrunning => exact .one (.run hrunning)
  | again hrunning => exact .one (.again hrunning)
  | taken => exact .andThen fun j hj => .taken _ hj
  | waiting => exact .one .wait
  | received => exact .andThen fun j hj => .received _ hj
  -- an event and what appeared
  | handled key event => exact .andThen (follows_afterResolve key event _)
  | pickedUp count key event path => exact .andThen (follows_pickUp count key event path)
  | walked purpose _ _ dirs => exact .one (.walk purpose _ _ dirs _)
  | walkBroken purpose _ _ dirs => exact .andThen (follows_afterBrokenWalk purpose _ dirs _)
  | walkEnded purpose agenda dirs =>
    cases purpose with
    | start caller => exact .one (.walked caller agenda dirs)
    | pickup event path => exact .one (.survey event path agenda dirs)
  | surveyed event path found => exact .one (.surveyed event path found)
  | listed event path dir dirs found => exact .one (.surveyOn event path dir dirs found _)
  -- the callback
  | dispatched event path found => exact .andThen (follows_handOverAll event path found)
  | announced callback path => exact .one (.called callback path _)
  | startWished x => exact .one (.wishStart x)
  | stopWished x => exact .one (.wishStop x)
  | desk hplain =>
    refine .andThen fun j hj => ?_
    obtain ⟨x, -, rfl⟩ := List.mem_map.mp hj
    exact .desk _ x hplain
  | answered | stoppedBefore | closeFailed | closed | runStopped | reset | loopEnded =>
    -- nothing follows
    exact .just _

end ChangeWatch.Watch
