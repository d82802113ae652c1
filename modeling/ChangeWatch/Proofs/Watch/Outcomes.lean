import ChangeWatch.Watch.Loop

/-!
# What a job can come to

`Outcome` lists every way in which a job of a watch can go, each with the watch it leaves
behind, the jobs that follow and the thread it starts, if any.  `perform_outcome` says that
there is no other way.  It is the one place where `perform` is taken apart for all jobs at
once: whatever is to hold of every job is shown by the cases of `Outcome`.

Each of the modules about a running watch keeps of an outcome what it needs, under a name
that ends in `Effect` and begins with what the effect is on: the threads (`ThreadEffect`),
the flags, the queue and the debouncer (`ControlEffect`), the registrations and the nodes
(`NodeEffect`), and so on.
-/

namespace ChangeWatch.Watch

variable {behaviour : Behaviour Wish} {w : Watch} {job : Job} {d : Done Watch Job}

/-- A watch that has given further warnings. -/
def warned (w : Watch) (warnings : List Warning) : Watch :=
  { w with
    desk := { w.desk with
      journal := { w.desk.journal with warnings := w.desk.journal.warnings ++ warnings } } }

/-- Warnings given one by one. -/
theorem foldl_warn (warnings : List Warning) (w : Watch) :
    warnings.foldl warn w = w.warned warnings := by
  induction warnings generalizing w with
  | nil => simp [warned]
  | cons a rest ih =>
    rw [List.foldl_cons, ih]
    simp [warned, warn, Journal.warn]

/-- The ways in which the jobs of a watch can go. -/
inductive Outcome (behaviour : Behaviour Wish) (w : Watch) : Job → Done Watch Job → Prop
  -- a call of `start`
  | claimed (caller : Caller) : w.started = false →
      Outcome behaviour w (.start caller)
        (.andThen { w with started := true } [.startUnlessStopped caller])
  | repeated (caller : Caller) : w.started = true →
      Outcome behaviour w (.start caller) (.andThen w [.started caller (some .alreadyStarted)])
  | inTime (caller : Caller) : w.stopped = false →
      Outcome behaviour w (.startUnlessStopped caller) (.andThen w [.registerRoot caller])
  | late (caller : Caller) : w.stopped = true →
      Outcome behaviour w (.startUnlessStopped caller)
        (.andThen w [.started caller (some .alreadyStopped)])
  | fileRegistered (caller : Caller) (t : FileTarget) {key : Key} {ground : Ground} :
      w.strategy.target = .file t → t.register w.ground w.kinds = (.ok key, ground) →
      Outcome behaviour w (.registerRoot caller) (.andThen (w.withGround ground) [.submit caller])
  | fileRefused (caller : Caller) (t : FileTarget) {e : WatchError} {ground : Ground} :
      w.strategy.target = .file t → t.register w.ground w.kinds = (.error e, ground) →
      Outcome behaviour w (.registerRoot caller)
        (.andThen (w.withGround ground) (startFailed caller e))
  | walkBegun (caller : Caller) (t : DirTree) : w.strategy.target = .tree t →
      Outcome behaviour w (.registerRoot caller)
        (.andThen w [.walk (.start caller) [.look t.root 0] []])
  | ran (caller : Caller) {name : Option String} {executor : Executor Job} :
      w.executor.execute .run = (.ok (.thread name), executor) →
      Outcome behaviour w (.submit caller) ⟨{ w with executor }, [.started caller none], [[.run]]⟩
  | parked (caller : Caller) {executor : Executor Job} :
      w.executor.execute .run = (.ok .parked, executor) →
      Outcome behaviour w (.submit caller) (.andThen { w with executor } [.started caller none])
  | refused (caller : Caller) {e : WatchError} {executor : Executor Job} :
      w.executor.execute .run = (.error e, executor) →
      Outcome behaviour w (.submit caller) (.andThen { w with executor } (startFailed caller e))
  | answered (caller : Caller) (error : Option WatchError) :
      Outcome behaviour w (.started caller error) (.just (w.note (.started caller error)))
  -- a call of `stop`
  | stopped : w.stopped = false →
      Outcome behaviour w .stop
        (.andThen { w with stopped := true } [.close .mark, .closed, .desk .shutdown])
  | stoppedBefore : w.stopped = true → Outcome behaviour w .stop (.just w)
  | closing (step : CloseStep) :
      Outcome behaviour w (.close step)
        (.andThen (w.withService (w.ground.service.closeStep step).1)
          ((w.ground.service.closeStep step).2.toList.map .close))
  | closeFailed : w.ground.service.closeError?.isSome = true →
      Outcome behaviour w .closed (.just (w.warn .unclosed))
  | closed : w.ground.service.closeError?.isSome = false → Outcome behaviour w .closed (.just w)
  -- the loop
  | run : w.stopped = false → Outcome behaviour w .run (.andThen w [.take])
  | runStopped : w.stopped = true → Outcome behaviour w .run (.andThen w [])
  | taken {taken : Taken} {service : Service} : w.ground.service.enter = (some taken, service) →
      Outcome behaviour w .take (.andThen (w.withService service) (afterTaken taken))
  | waiting {service : Service} : w.ground.service.enter = (none, service) →
      Outcome behaviour w .take (.andThen (w.withService service) [.receive])
  | received {taken : Taken} {service : Service} :
      w.ground.service.receive = some (taken, service) →
      Outcome behaviour w .receive (.andThen (w.withService service) (afterTaken taken))
  | reset (key : Key) :
      Outcome behaviour w (.reset key)
        (.just (w.withService (w.ground.service.reset w.ground.disk key).2))
  | again : w.stopped = false → Outcome behaviour w .recheck (.andThen w [.take])
  | loopEnded : w.stopped = true → Outcome behaviour w .recheck (.andThen w [])
  -- an event and what appeared
  | handled (key : Key) (event : RawEvent) :
      Outcome behaviour w (.handle key event)
        (.andThen { w with handled := w.handled + 1 }
          (afterResolve w.handled key event (w.strategy.resolve w.handled key event)))
  | pickedUp (count : Nat) (key : Key) (event : RawEvent) (path : Path) :
      Outcome behaviour w (.pickUp count key event path)
        (.andThen w (w.pickUp count key event path))
  | walked (purpose : Purpose) (errand : DirTree.Errand) (rest : List DirTree.Errand)
      (registered : List Path) (tree : DirTree) (k : DirTree.Walk Ground)
      {more : List DirTree.Errand} : w.strategy.target = .tree tree →
      DirTree.advance w.kinds errand (.start w.ground tree) = (more, k) → k.failure = none →
      Outcome behaviour w (.walk purpose (errand :: rest) registered)
        (.andThen (((w.withGround k.site).withTarget (.tree k.tree)).warned k.warnings)
          [.walk purpose (more ++ rest) (registered ++ k.registered)])
  | walkBroken (purpose : Purpose) (errand : DirTree.Errand) (rest : List DirTree.Errand)
      (registered : List Path) (tree : DirTree) (k : DirTree.Walk Ground)
      {more : List DirTree.Errand} {e : WatchError} : w.strategy.target = .tree tree →
      DirTree.advance w.kinds errand (.start w.ground tree) = (more, k) → k.failure = some e →
      Outcome behaviour w (.walk purpose (errand :: rest) registered)
        (.andThen (((w.withGround k.site).withTarget (.tree k.tree)).warned k.warnings)
          (afterBrokenWalk e purpose))
  | walkEnded (purpose : Purpose) (agenda : List DirTree.Errand) (registered : List Path) :
      (agenda = [] ∨ ∀ t, w.strategy.target ≠ .tree t) →
      Outcome behaviour w (.walk purpose agenda registered)
        (.andThen w (afterWalk registered purpose))
  | surveyed (event : RawEvent) (path : Path) (found : List Path) :
      Outcome behaviour w (.survey event path [] found) (.andThen w [.dispatch event path found])
  | listed (event : RawEvent) (path dir : Path) (dirs found : List Path) :
      Outcome behaviour w (.survey event path (dir :: dirs) found)
        (.andThen (w.warned (DirTree.survey w.ground.disk (found, []) dir).2)
          [.survey event path dirs (DirTree.survey w.ground.disk (found, []) dir).1])
  -- the callback
  | dispatched (event : RawEvent) (path : Path) (found : List Path) :
      Outcome behaviour w (.dispatch event path found)
        (.andThen w (w.handOverAll event path found))
  | announced (callback : Callback) (path : Path) :
      Outcome behaviour w (.announce callback path)
        (.andThen w [.desk (.call callback (.observe w.ground.disk .create path)
          .callbackPanicked)])
  | startWished (x : Context) :
      Outcome behaviour w (.desk (.request .start x)) (.andThen w [.start .callback])
  | stopWished (x : Context) :
      Outcome behaviour w (.desk (.request .stop x)) (.andThen w [.stop])
  | desk {job : Desk.Job Wish} {desk : Desk} {next : List (Desk.Job Wish)} :
      (∀ r x, job ≠ .request r x) → Desk.perform behaviour job w.desk = some (desk, next) →
      Outcome behaviour w (.desk job) (.andThen { w with desk } (next.map .desk))

/-! ### Jobs with several ways to go -/

theorem outcome_registerRoot (caller : Caller) :
    Outcome behaviour w (.registerRoot caller) (w.registerRoot caller) := by
  unfold registerRoot
  split
  · next t htarget =>
    split
    · next hregister => exact .fileRegistered caller t htarget hregister
    · next hregister => exact .fileRefused caller t htarget hregister
  · next t htarget => exact .walkBegun caller t htarget

theorem outcome_submit (caller : Caller) :
    Outcome behaviour w (.submit caller) (w.submit caller) := by
  unfold submit
  split
  · next hexecute => exact .ran caller hexecute
  · next hexecute => exact .parked caller hexecute
  · next hexecute => exact .refused caller hexecute

theorem outcome_walkOn (purpose : Purpose) (errand : DirTree.Errand) (rest : List DirTree.Errand)
    (registered : List Path) {tree : DirTree} (htarget : w.strategy.target = .tree tree) :
    Outcome behaviour w (.walk purpose (errand :: rest) registered)
      (w.walkOn purpose errand rest registered tree) := by
  obtain ⟨more, k, hadvance⟩ :
      ∃ more k, DirTree.advance w.kinds errand (.start w.ground tree) = (more, k) := ⟨_, _, rfl⟩
  unfold walkOn
  rw [hadvance]
  dsimp only
  rw [foldl_warn]
  split
  · next e hbroken =>
    exact .walkBroken purpose errand rest registered tree k htarget hadvance hbroken
  · next hwhole => exact .walked purpose errand rest registered tree k htarget hadvance hwhole

theorem outcome_walk (purpose : Purpose) (agenda : List DirTree.Errand) (registered : List Path)
    (h : perform behaviour (.walk purpose agenda registered) w = some d) :
    Outcome behaviour w (.walk purpose agenda registered) d := by
  cases agenda with
  | nil =>
    obtain rfl := Option.some.inj h
    exact .walkEnded purpose [] registered (Or.inl rfl)
  | cons errand rest =>
    cases htarget : w.strategy.target with
    | file t =>
      simp only [perform, htarget] at h
      obtain rfl := Option.some.inj h
      exact .walkEnded purpose _ registered (Or.inr (by simp [htarget]))
    | tree t =>
      simp only [perform, htarget] at h
      obtain rfl := Option.some.inj h
      exact outcome_walkOn purpose errand rest registered htarget

/-- What a callback asks for is done by the watch, and any other job of the desk by the
desk. -/
theorem outcome_desk {job : Desk.Job Wish} (h : perform behaviour (.desk job) w = some d) :
    Outcome behaviour w (.desk job) d := by
  have hdesk : (∀ r x, job ≠ .request r x) → (Desk.perform behaviour job w.desk).map
      (fun r => Done.andThen { w with desk := r.1 } (r.2.map .desk)) = some d →
      Outcome behaviour w (.desk job) d := by
    intro hplain h
    obtain ⟨r, hr, rfl⟩ := Option.map_eq_some_iff.mp h
    exact .desk hplain hr
  cases job with
  | request r x =>
    cases r <;> obtain rfl := Option.some.inj h
    · exact .startWished x
    · exact .stopWished x
  | _ => exact hdesk (by simp) h

/-! ### All jobs -/

/-- A job goes in one of these ways. -/
theorem perform_outcome (h : perform behaviour job w = some d) : Outcome behaviour w job d := by
  -- each of these makes at most one choice; the jobs that make more of them were settled above
  cases job with
  | start caller =>
    simp only [perform] at h
    split at h <;> obtain rfl := Option.some.inj h
    · next hstarted => exact .repeated caller hstarted
    · next hfresh => exact .claimed caller (Bool.eq_false_iff.mpr hfresh)
  | startUnlessStopped caller =>
    simp only [perform] at h
    split at h <;> obtain rfl := Option.some.inj h
    · next hstopped => exact .late caller hstopped
    · next hrunning => exact .inTime caller (Bool.eq_false_iff.mpr hrunning)
  | registerRoot caller =>
    obtain rfl := Option.some.inj h
    exact outcome_registerRoot caller
  | submit caller =>
    obtain rfl := Option.some.inj h
    exact outcome_submit caller
  | started caller error =>
    obtain rfl := Option.some.inj h
    exact .answered caller error
  | stop =>
    simp only [perform] at h
    split at h <;> obtain rfl := Option.some.inj h
    · next hstopped => exact .stoppedBefore hstopped
    · next hrunning => exact .stopped (Bool.eq_false_iff.mpr hrunning)
  | close step =>
    obtain rfl := Option.some.inj h
    exact .closing step
  | closed =>
    simp only [perform] at h
    split at h <;> obtain rfl := Option.some.inj h
    · next hfailed => exact .closeFailed hfailed
    · next hdone => exact .closed (Bool.eq_false_iff.mpr hdone)
  | run =>
    obtain rfl := Option.some.inj h
    split
    · next hstopped => exact .runStopped hstopped
    · next hrunning => exact .run (Bool.eq_false_iff.mpr hrunning)
  | take =>
    simp only [perform] at h
    split at h <;> obtain rfl := Option.some.inj h
    · next henter => exact .taken henter
    · next henter => exact .waiting henter
  | receive =>
    obtain ⟨r, hr, rfl⟩ := Option.map_eq_some_iff.mp h
    exact .received hr
  | handle key event =>
    obtain rfl := Option.some.inj h
    exact .handled key event
  | pickUp count key event path =>
    obtain rfl := Option.some.inj h
    exact .pickedUp count key event path
  | walk purpose agenda registered => exact outcome_walk purpose agenda registered h
  | survey event path dirs found =>
    cases dirs with
    | nil =>
      obtain rfl := Option.some.inj h
      exact .surveyed event path found
    | cons dir dirs =>
      obtain rfl := Option.some.inj h
      rw [foldl_warn]
      exact .listed event path dir dirs found
  | dispatch event path found =>
    obtain rfl := Option.some.inj h
    exact .dispatched event path found
  | announce callback path =>
    obtain rfl := Option.some.inj h
    exact .announced callback path
  | reset key =>
    obtain rfl := Option.some.inj h
    exact .reset key
  | recheck =>
    obtain rfl := Option.some.inj h
    split
    · next hstopped => exact .loopEnded hstopped
    · next hrunning => exact .again (Bool.eq_false_iff.mpr hrunning)
  | desk job => exact outcome_desk h

/-- In each of these ways a job can go. -/
theorem Outcome.performed (h : Outcome behaviour w job d) : perform behaviour job w = some d := by
  cases h with
  | claimed _ hfresh => simp [perform, hfresh]
  | repeated _ hstarted => simp [perform, hstarted]
  | inTime _ hrunning => simp [perform, hrunning]
  | late _ hstopped => simp [perform, hstopped]
  | fileRegistered _ _ htarget hregister => simp [perform, registerRoot, htarget, hregister]
  | fileRefused _ _ htarget hregister => simp [perform, registerRoot, htarget, hregister]
  | walkBegun _ _ htarget => simp [perform, registerRoot, htarget]
  | ran _ hexecute | parked _ hexecute | refused _ hexecute => simp [perform, submit, hexecute]
  | stopped hrunning => simp [perform, hrunning]
  | stoppedBefore hstopped => simp [perform, hstopped]
  | closeFailed hfailed => simp only [perform, hfailed, if_true]
  | closed hdone => simp only [perform, hdone, Bool.false_eq_true, if_false]
  | run hrunning | again hrunning => simp [perform, hrunning]
  | runStopped hstopped | loopEnded hstopped => simp [perform, hstopped]
  | taken henter | waiting henter => simp only [perform, henter]
  | received hreceive => simp only [perform, hreceive, Option.map_some]
  | walked _ _ _ _ _ _ htarget hadvance hwhole =>
    simp only [perform, htarget, walkOn, hadvance, hwhole, foldl_warn]
  | walkBroken _ _ _ _ _ _ htarget hadvance hbroken =>
    simp only [perform, htarget, walkOn, hadvance, hbroken, foldl_warn]
  | walkEnded _ agenda _ hended =>
    cases agenda with
    | nil => rfl
    | cons errand rest =>
      cases htarget : w.strategy.target with
      | file t => simp only [perform, htarget]
      | tree t => exact absurd htarget (hended.resolve_left (by simp) t)
  | listed => simp only [perform, foldl_warn]
  | @desk job _ _ hplain hdesk =>
    cases job with
    | request r x => exact absurd rfl (hplain r x)
    | _ => simp only [perform, hdesk, Option.map_some]
  | _ => rfl

end ChangeWatch.Watch
