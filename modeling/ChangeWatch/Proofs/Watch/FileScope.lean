import ChangeWatch.Proofs.Service.Alone
import ChangeWatch.Proofs.Watch.Delivering
import ChangeWatch.Proofs.Watch.Resolving

/-!
# A watch over a file keeps to the file

The directory that holds the file is the only one that is registered, so what is reported has a
place if it is of an entry of this directory, and an entry is told apart by its name
(`FileTarget.resolve_entry`).  What is due because of a report, then, are the changes of it that
are of the path of the file, however it is spelled, and have a callback (`tellings`); a rescan
is due the callback for overflows (`owed_tellings`).

Without a delay nothing is gathered, so callbacks are told of all this in order and of nothing
else, as long as the directory stays where it is (`run_tells_file`); and it stays registered
from the moment the loop is there until the watch is stopped (`Scoped`).
-/

namespace ChangeWatch

namespace FileTarget

variable {t : FileTarget} {disk disk' : Disk} {p : Path}

/-- A target that was made ready: its path is that of an entry of its directory. -/
structure Prepared (t : FileTarget) : Prop where
  path_eq : t.path = t.parent.child t.name
  normal : Path.Normal t.name

theorem prepared_of_ok (h : prepare disk p = (.ok t, disk')) : t.Prepared := by
  unfold prepare at h
  split at h
  · exact absurd (Prod.mk.inj h).1 (by simp)
  · next name hname =>
    split at h
    · exact absurd (Prod.mk.inj h).1 (by simp)
    · dsimp only at h
      split at h
      · exact absurd (Prod.mk.inj h).1 (by simp)
      · obtain ⟨heq, -⟩ := Prod.mk.inj h
        obtain rfl := Except.ok.inj heq
        exact ⟨rfl, Path.normal_fileName hname⟩

theorem Prepared.components (ht : t.Prepared) :
    t.path.components = t.parent.components ++ [.name t.name] := by
  rw [ht.path_eq]
  exact t.parent.components_child ht.normal

/-- An event of an entry of the directory concerns the file if it is of its name. -/
theorem Prepared.resolve_entry (ht : t.Prepared) (kind : EventKind) {name : Bytes}
    (hname : Path.Normal name) :
    t.resolve ⟨kind, some ⟨name⟩⟩ = if name = t.name then some t.path else none := by
  have hlast : (t.parent.child name).fileName = some name :=
    Path.fileName_of_components (t.parent.components_child hname)
  show (if (t.parent.child name).fileName = some t.name then some (t.parent.child name) else none) =
    _
  rw [hlast]
  by_cases heq : name = t.name
  · rw [if_pos heq, if_pos (congrArg some heq), heq, ht.path_eq]
  · rw [if_neg heq, if_neg fun h => heq (Option.some.inj h)]

end FileTarget

/-- The kinds of some callbacks are those that have one. -/
theorem Handlers.mem_kinds {handlers : Handlers} {kind : EventKind} :
    kind ∈ handlers.kinds ↔ (handlers.get kind).isSome = true := by
  unfold kinds
  rw [List.mem_filter]
  exact and_iff_right kind.mem_all

namespace Notified

open Watch

variable {behaviour : Behaviour Wish} {w : Watch} {job : Job} {d : Done Watch Job}
  {s s' : NotifyingService} {t : FileTarget} {handlers : Handlers} {p q : Running}

/-! ### What is due -/

/-- All that callbacks are told. -/
def calls : Scope Path where
  tracks _ := true
  view := id
  knows _ _ _ := True

/-- The callback of a kind, if there is one, is told of the file. -/
def telling (handlers : Handlers) (t : FileTarget) (kind : EventKind) :
    List (Callback × EventKind × Path) :=
  (handlers.get kind).toList.map fun c => (c, kind, t.path)

/-- What is to be told of a report at a watch over a file: each change of the path of the file, or
that changes were missed. -/
def tellings (handlers : Handlers) (t : FileTarget) (disk : Disk) (report : Report) :
    List (Callback × EventKind × Path) :=
  if report.rescan then telling handlers t .overflow
  else ((report.changes disk).filter fun change => change.2.same t.path).flatMap fun change =>
    telling handlers t change.1

/-- What is to be told because of a move: what the backend reports while the directory of the file
is registered. -/
def concerning (handlers : Handlers) (t : FileTarget) :
    Move Outside → Running → List (Callback × EventKind × Path)
  | .job _, _ => []
  | .outside e, p =>
    match p.state.ground.service with
    | .notifying s =>
      if (s.registry.keyOf? t.parent).isSome then
        (e.reports p.state.ground).flatMap (tellings handlers t (e.diskAfter p.state.ground))
      else []
    | .memory _ => []

/-- An event is due the callback of its kind, if it concerns the file. -/
theorem dueEvent_calls (htarget : w.strategy.target = .file t) (key : Key) (event : RawEvent) :
    calls.dueEvent w key event = (t.resolve event).toList.flatMap fun path =>
      (w.handlers.get event.kind).toList.map fun c => (c, event.kind, path) := by
  unfold Scope.dueEvent
  rw [htarget]
  rfl

/-- What is owed because of a report is what is to be told of it. -/
theorem owed_tellings (ht : t.Prepared) (htarget : w.strategy.target = .file t)
    {r : Registry} {key : Key} (hr : r.Only t.parent ⟨key, w.handlers.kinds⟩) (disk : Disk)
    (report : Report) :
    ((r.translate disk report).map .batch).flatMap (calls.owedSignal w) =
      tellings w.handlers t disk report := by
  rw [Scope.owed_batches]
  unfold tellings
  cases hscan : report.rescan with
  | true =>
    obtain ⟨key', hkey⟩ := hr.exists_rescanKey report.paths
    rw [r.translate_rescan disk hscan, hkey]
    show calls.dueEvent w key' .overflow ++ [] = _
    rw [dueEvent_calls htarget, List.append_nil]
    exact List.append_nil _
  | false =>
    rw [r.translate_entries disk hscan, if_neg Bool.false_ne_true]
    induction report.changes disk with
    | nil => rfl
    | cons change rest ih =>
      have hsame : change.2.same t.path = true ↔
          change.2.components = t.parent.components ++ [.name t.name] := by
        rw [Path.same_iff, ht.components]
      rw [List.filter_cons]
      rcases hr.locate_cases change with ⟨name, hname, hplace, -, hlocate⟩ | ⟨hlocate, hother⟩
      · -- an entry of the directory is told apart by its name
        rw [List.filterMap_cons_some hlocate, List.flatMap_cons, ih, dueEvent_calls htarget,
          ht.resolve_entry change.1 hname]
        by_cases heq : name = t.name
        · rw [if_pos heq, if_pos (hsame.mpr (heq ▸ hplace)), List.flatMap_cons]
          exact congrArg (· ++ _) (List.append_nil _)
        · rw [if_neg heq, if_neg fun h => heq ?_]
          · rfl
          · simpa using hplace.symm.trans (hsame.mp h)
      · rw [List.filterMap_cons_none hlocate, ih]
        by_cases hpath : change.2.same t.path = true
        · -- nobody asked for changes of this kind
          have hnone : w.handlers.get change.1 = none := by
            by_contra hsome
            refine hother (Handlers.mem_kinds.mpr ?_) _ (hsame.mp hpath)
            exact Option.isSome_iff_ne_none.mpr hsome
          rw [if_pos hpath, List.flatMap_cons]
          unfold telling
          rw [hnone]
          rfl
        · rw [if_neg hpath]

/-! ### What is registered -/

/-- A job that is done only after the root is registered. -/
def listens : Job → Bool
  | .submit _ | .walk (.start _) .. => true
  | job => job.loops

theorem follows_listens {j : Job} (h : Follows w job j) (hj : listens j = true) :
    listens job = true ∨ ∃ caller, job = .registerRoot caller := by
  have hfailed : ∀ {caller : Caller} {e : WatchError}, j ∉ startFailed caller e := by
    intro caller e hmem
    rcases List.mem_cons.mp hmem with rfl | hmem
    · exact absurd hj (by simp [listens, Job.loops])
    · rw [List.mem_singleton.mp hmem] at hj
      exact absurd hj (by simp [listens, Job.loops])
  cases h with
  | rootRefused _ _ hmem | walkFailed _ _ _ _ hmem | submitRefused _ _ hmem =>
    exact absurd hmem hfailed
  | stop _ hmem =>
    simp only [List.mem_cons, List.not_mem_nil, or_false] at hmem
    rcases hmem with rfl | rfl | rfl <;> exact absurd hj (by simp [listens, Job.loops])
  | broken _ _ _ _ hmem =>
    simp only [List.mem_cons, List.not_mem_nil, or_false] at hmem
    rcases hmem with rfl | rfl <;> exact absurd hj (by simp [listens, Job.loops])
  | walk purpose =>
    cases purpose with
    | start caller => exact Or.inl rfl
    | pickup event path => exact absurd hj (by simp [listens, Job.loops])
  | _ =>
    first
      | exact Or.inl rfl
      | exact Or.inr ⟨_, rfl⟩
      | exact absurd hj (by simp [listens, Job.loops])

/-- A watch over a file, at a directory that stays where it is. -/
structure Scoped (t : FileTarget) (handlers : Handlers) (p : Running) : Prop where
  target : p.state.strategy.target = .file t
  handlers_eq : p.state.handlers = handlers
  kinds_eq : p.state.kinds = handlers.kinds
  place : p.state.ground.disk.isDir t.parent = true
  service : ∃ s, p.state.ground.service = .notifying s ∧
    s.registry.Alone t.parent handlers.kinds ∧
    -- once the loop is on its way the directory is registered, until the watch is stopped
    (p.state.stopped = false →
      (∃ j, (j ∈ p.jobs ∨ j ∈ p.state.executor.parked) ∧ listens j = true) →
      s.Attached t.parent handlers.kinds)
  parked : ∀ j ∈ p.state.executor.parked, j = .run
  unclosed : p.state.stopped = false → ∀ step, .close step ∉ p.jobs

/-- What a job makes of the registration: nothing, unless it registers the directory or closes the
service. -/
theorem ServiceEffect.alone (h : ServiceEffect w s job s') (htarget : w.strategy.target = .file t)
    (hkinds : w.kinds = handlers.kinds) (hplace : w.ground.disk.isDir t.parent = true)
    (hs : s.registry.Alone t.parent handlers.kinds) :
    s'.registry.Alone t.parent handlers.kinds ∧ ((∀ step, job ≠ .close step) →
      s.Attached t.parent handlers.kinds → s'.Attached t.parent handlers.kinds) := by
  cases h with
  | file caller ht =>
    obtain rfl := Target.file.inj (htarget.symm.trans ht)
    rw [hkinds]
    obtain ⟨halone, hattached, -⟩ := NotifyingService.register_alone hs w.ground.disk
    exact ⟨halone, fun _ => hattached⟩
  | directory _ _ _ _ _ ht => exact absurd (htarget.symm.trans ht) (by simp)
  | reset key =>
    rw [NotifyingService.reset_alone hs hplace key]
    exact ⟨hs, fun _ => id⟩
  | close step =>
    refine ⟨?_, fun hclose => absurd rfl (hclose step)⟩
    cases step with
    | forget => exact Or.inl ⟨rfl, rfl⟩
    | _ => exact hs
  | receive hqueue => exact ⟨hs, fun _ => id⟩
  | aside => exact ⟨hs, fun _ => id⟩

/-- A registration that succeeds attaches the service to the directory. -/
theorem registerRoot_attaches {caller : Caller}
    (h : perform behaviour (.registerRoot caller) w = some d)
    (htarget : w.strategy.target = .file t) (hkinds : w.kinds = handlers.kinds)
    (hs : w.ground.service = .notifying s) (halone : s.registry.Alone t.parent handlers.kinds)
    (hs' : d.state.ground.service = .notifying s') {j : Job} (hj : j ∈ d.next)
    (hlistens : listens j = true) : s'.Attached t.parent handlers.kinds := by
  have hground : w.ground = ⟨.notifying s, w.ground.disk⟩ := by
    rw [← hs]
  have hregister : t.register w.ground handlers.kinds =
      ((s.register w.ground.disk t.parent handlers.kinds).1,
        ⟨.notifying (s.register w.ground.disk t.parent handlers.kinds).2, w.ground.disk⟩) := by
    rw [hground]
    rfl
  obtain ⟨-, -, hattaches⟩ := NotifyingService.register_alone halone w.ground.disk
  obtain rfl := Option.some.inj h
  unfold registerRoot at hj hs'
  simp only [htarget, hkinds, hregister] at hj hs'
  cases hanswer : (s.register w.ground.disk t.parent handlers.kinds).1 with
  | ok key =>
    rw [hanswer] at hs'
    obtain rfl := Service.notifying.inj hs'
    exact hattaches key hanswer
  | error e =>
    rw [hanswer] at hj
    rcases List.mem_cons.mp hj with rfl | hj
    · exact absurd hlistens (by simp [listens, Job.loops])
    · rw [List.mem_singleton.mp hj] at hlistens
      exact absurd hlistens (by simp [listens, Job.loops])

/-- A call of `stop` sets the flag before it closes anything. -/
theorem not_close_of_running (h : perform behaviour job w = some d)
    (hclose : ∀ step, job ≠ .close step) (hrunning : d.state.stopped = false) (step : CloseStep) :
    .close step ∉ d.next := by
  intro hmem
  have hfailed : ∀ {caller : Caller} {e : WatchError}, .close step ∉ startFailed caller e := by
    intro caller e
    simp [startFailed]
  cases hfollows : (perform_threadEffect h).next _ hmem with
  | stop hbefore _ =>
    simp only [perform, hbefore, Bool.false_eq_true, if_false] at h
    obtain rfl := Option.some.inj h
    exact absurd hrunning (by simp [Done.andThen])
  | close _ => exact hclose _ rfl
  | rootRefused _ _ hj | walkFailed _ _ _ _ hj | submitRefused _ _ hj => exact hfailed hj
  | taken _ hj | received _ hj =>
    rcases mem_afterTaken hj with ⟨_, _, heq⟩ | ⟨_, heq⟩ | heq | heq | heq <;>
      exact absurd heq (by simp)
  | broken _ _ _ _ hj => exact absurd hj (by simp)

theorem Scoped.step {i : Nat} (hp : Scoped t handlers p)
    (hstep : p.step (machine behaviour) i = some q) : Scoped t handlers q := by
  obtain ⟨s, hs, halone, hattached⟩ := hp.service
  obtain ⟨job, rest, d, hi, hd, rfl⟩ := Pool.step_eq_some hstep
  have hjobs : Pool.JobStep p ⟨d.state, p.threads.set i (d.next ++ rest) ++ d.spawned⟩ job d :=
    Pool.jobs_of_set hi
  obtain ⟨s', hground, heffect⟩ := perform_serviceEffect hd hs
  obtain ⟨halone', hkept⟩ := heffect.alone hp.target hp.kinds_eq hp.place halone
  have hsetup := perform_sameSetup hd
  -- a stopped watch stays stopped
  have hrunning : d.state.stopped = false → p.state.stopped = false := by
    intro hstopped
    refine Bool.eq_false_iff.mpr fun hbefore => ?_
    have hafter := (Lifecycle.perform_lifecycleEffect hd).flags.2.mpr (Or.inl hbefore)
    exact absurd (hafter.symm.trans hstopped) (by simp)
  refine ⟨hsetup.file hp.target, hsetup.handlers.trans hp.handlers_eq,
    (perform_kinds hd).trans hp.kinds_eq, ?_, ⟨s', ?_, halone', ?_⟩, ?_, ?_⟩
  · rw [hground]
    exact hp.place
  · rw [hground]
  · -- whoever listens comes from one that listened already, or from the registration that
    -- just attached the directory
    rintro hstopped ⟨j, hj, hlistens⟩
    have hstopped' := hrunning hstopped
    have hclose : ∀ step, job ≠ .close step := by
      rintro step rfl
      exact hp.unclosed hstopped' step hjobs.before
    have hlistening : ∀ {j : Job}, j ∈ p.jobs ∨ j ∈ p.state.executor.parked → listens j = true →
        s'.Attached t.parent handlers.kinds :=
      fun hj hlistens => hkept hclose (hattached hstopped' ⟨_, hj, hlistens⟩)
    have hself : listens job = true → s'.Attached t.parent handlers.kinds :=
      hlistening (Or.inl hjobs.before)
    rcases hj with hj | hj
    · rcases hjobs.known j hj with hj | hj | ⟨thread, hthread, -⟩
      · rcases follows_listens ((perform_threadEffect hd).next j hj) hlistens with
          hjob | ⟨caller, rfl⟩
        · exact hself hjob
        · have hdone : perform behaviour (.registerRoot caller) p.state = some d := hd
          exact registerRoot_attaches hdone hp.target hp.kinds_eq hs halone (by rw [hground]) hj
            hlistens
      · exact hlistening (Or.inl hj) hlistens
      · rcases (perform_threadEffect hd).spawned with hnone | ⟨-, caller, rfl⟩
        · exact absurd (hnone ▸ hthread) List.not_mem_nil
        · exact hself rfl
    · rcases (Lifecycle.perform_lifecycleEffect hd).earns.parked j hj with
        hj | ⟨-, ⟨caller, rfl⟩, -⟩
      · exact hlistening (Or.inr hj) hlistens
      · exact hself rfl
  · -- only the loop is parked
    intro j hj
    rcases (Lifecycle.perform_lifecycleEffect hd).earns.parked j hj with hj | ⟨hrun, -, -⟩
    · exact hp.parked j hj
    · exact hrun
  · -- as long as the watch runs nobody closes its service
    intro hstopped step hmem
    have hbefore := hp.unclosed (hrunning hstopped)
    rcases hjobs.known _ hmem with hmem | hmem | ⟨thread, hthread, hmem⟩
    · refine not_close_of_running hd (fun step' heq => ?_) hstopped step hmem
      exact hbefore step' (heq ▸ hjobs.before)
    · exact hbefore step hmem
    · rcases (perform_threadEffect hd).spawned with hnone | ⟨hloop, -⟩
      · exact absurd (hnone ▸ hthread) List.not_mem_nil
      · rw [hloop] at hthread
        rw [List.mem_singleton.mp hthread] at hmem
        exact absurd (List.mem_singleton.mp hmem) (by simp)

/-- The directory is still there after a move. -/
def stays (dir : Path) : Move Outside → Bool
  | .outside (.change disk _) => disk.isDir dir
  | _ => true

theorem Scoped.outside {e : Outside} (hp : Scoped t handlers p) (h : Notified.outside e p = some q)
    (hstays : stays t.parent (.outside e) = true) : Scoped t handlers q := by
  obtain ⟨s, hs, halone, hattached⟩ := hp.service
  obtain ⟨more, harrival⟩ := Lifecycle.outside_arrival h
  obtain ⟨s', complaints, hground, hsupplied⟩ := outside_service h hs
  have hregistry := hsupplied.registry
  have haside := harrival.aside hp.parked
  refine ⟨harrival.setup.file hp.target, harrival.setup.handlers.trans hp.handlers_eq,
    (outside_kinds h).trans hp.kinds_eq, ?_, ⟨s', by rw [hground], by rwa [hregistry], ?_⟩,
    fun j hj => hp.parked j (harrival.parked j hj), ?_⟩
  · rw [hground]
    cases e with
    | change disk changes => exact hstays
    | _ => exact hp.place
  · -- nothing that comes listens, so whoever listens was there before
    rintro hstopped ⟨j, hj, hlistens⟩
    have hbefore : j ∈ p.jobs ∨ j ∈ p.state.executor.parked := by
      rcases hj with hj | hj
      · rw [harrival.jobs] at hj
        rcases List.mem_append.mp hj with hj | hj
        · exact Or.inl hj
        · rcases harrival.comes j hj with hj | rfl | rfl | ⟨x, rfl⟩
          · exact Or.inr hj
          all_goals exact absurd hlistens (by simp [listens, Job.loops])
      · exact Or.inr (harrival.parked j hj)
    obtain ⟨hheld, honly⟩ := hattached (harrival.stopped ▸ hstopped) ⟨j, hbefore, hlistens⟩
    refine ⟨?_, by rwa [hregistry]⟩
    rw [Option.isSome_iff_ne_none] at hheld ⊢
    exact fun hnone => hheld (hsupplied.backend.mp hnone)
  · intro hstopped step hmem
    rw [harrival.jobs] at hmem
    rcases List.mem_append.mp hmem with hmem | hmem
    · exact hp.unclosed (harrival.stopped ▸ hstopped) step hmem
    · exact absurd (haside _ hmem).2.1 (by simp [Job.stops])

/-- What is due because of a move is what the backend reports of the file in it. -/
theorem Scoped.news (hp : Scoped t handlers p) (ht : t.Prepared) (a : Move Outside) :
    calls.news a p = concerning handlers t a p := by
  obtain ⟨s, hs, halone, -⟩ := hp.service
  cases a with
  | job i => rfl
  | outside e =>
    simp only [Scope.news, Scope.newsOf, concerning, hs]
    unfold signalsOf
    rw [List.flatMap_assoc]
    rcases halone with hvacant | ⟨key, honly⟩
    · have hnil := hvacant.keyEntries_eq
      rw [hvacant.coherent.keyOf?_eq_none hnil]
      refine List.flatMap_eq_nil_iff.mpr fun report _ => ?_
      rw [hvacant.coherent.translate_eq_nil hnil]
      rfl
    · rw [honly.keyOf?_eq, Option.isSome_some, if_pos rfl]
      refine List.flatMap_congr fun report _ => ?_
      rw [← hp.handlers_eq] at honly ⊢
      exact owed_tellings ht hp.target honly _ report

/-- A watch over a file is told of, as long as its directory stays where it is. -/
theorem scoped_sustained (behaviour : Behaviour Wish) (ht : t.Prepared) (handlers : Handlers) :
    calls.Sustained behaviour (fun a => stays t.parent a = true) (Scoped t handlers)
      (concerning handlers t) := by
  refine ⟨fun p a q hstays hp hmove => ⟨?_, fun key event _ => ⟨trivial, ?_⟩⟩,
    fun _ _ _ _ _ _ _ _ _ _ => trivial, fun p a _ hp => hp.news ht a⟩
  · cases a with
    | job i => exact hp.step hmove
    | outside e => exact hp.outside hmove hstays
  · have hsetup := move_sameSetup hmove
    rw [dueEvent_calls hp.target, dueEvent_calls (hsetup.file hp.target), hsetup.handlers]

/-! ### All runs -/

variable {path : Path} {before disk : Disk} {options : Watch.Options} {moves : List (Move Outside)}

/-- A watch over a file that was just built, on a service at which nothing is registered. -/
theorem scoped_new (hnew : Watch.new ⟨.file t, .none⟩ handlers options disk = .ok w)
    (hservice : options.service.getD (.notifying .new) = .notifying s)
    (hvacant : s.registry.Vacant) (hplace : disk.isDir t.parent = true) :
    w.ground.service = .notifying s ∧ Scoped t handlers (Running.ofWatch w) := by
  have hfresh := fresh_of_new hnew
  have hbuilt : w.kinds = handlers.kinds ∧ w.ground = ⟨.notifying s, disk⟩ := by
    unfold Watch.new at hnew
    split at hnew
    · exact absurd hnew (by simp)
    · obtain rfl := Except.ok.inj hnew
      exact ⟨rfl, by rw [hservice]⟩
  obtain ⟨hkinds, hground⟩ := hbuilt
  have hs : w.ground.service = .notifying s := by rw [hground]
  have hidle : ∀ j, ¬ (j ∈ (Running.ofWatch w).jobs ∨
      j ∈ (Running.ofWatch w).state.executor.parked) := by
    rintro j (hj | hj)
    · exact absurd hj List.not_mem_nil
    · rw [show (Running.ofWatch w).state.executor.parked = [] from hfresh.parked_eq] at hj
      exact absurd hj List.not_mem_nil
  have htarget : w.strategy.target = .file t := by rw [hfresh.strategy_eq]
  refine ⟨hs, htarget, hfresh.handlers_eq, hkinds, ?_, ⟨s, hs, Or.inl hvacant, ?_⟩, ?_, ?_⟩
  · show w.ground.disk.isDir t.parent = true
    rw [hground]
    exact hplace
  · rintro - ⟨j, hj, -⟩
    exact absurd hj (hidle j)
  · exact fun j hj => absurd (Or.inr hj) (hidle j)
  · exact fun _ step hj => absurd (Or.inl hj) (hidle _)

theorem prompt_new (hnew : Watch.new ⟨.file t, .none⟩ handlers options disk = .ok w)
    (hdelay : options.delay.isZero = true) : calls.Prompt w := by
  have hfresh := fresh_of_new hnew
  have htarget : w.strategy.target = .file t := by rw [hfresh.strategy_eq]
  refine ⟨by rw [hfresh.strategy_eq], fun kind _ => Or.inr ?_, fun _ => ⟨t, htarget⟩⟩
  rw [hfresh.delay_eq]
  exact hdelay

/-- As long as the loop is there and the watch is not stopped, the directory is registered. -/
theorem Scoped.registered (hp : Scoped t handlers p) (hs : p.state.ground.service = .notifying s)
    (hrunning : p.state.stopped = false) (hloops : ∃ j ∈ p.jobs, j.loops = true) :
    (s.registry.keyOf? t.parent).isSome = true ∧ s.backend.isSome = true := by
  obtain ⟨s', hs', -, hattached⟩ := hp.service
  obtain rfl := Service.notifying.inj (hs'.symm.trans hs)
  obtain ⟨j, hj, hloops⟩ := hloops
  have hlistens : listens j = true := by
    cases j with
    | submit | walk => exact absurd hloops (by simp [Job.loops])
    | _ => exact hloops
  obtain ⟨hheld, key, honly⟩ := hattached hrunning ⟨j, Or.inl hj, hlistens⟩
  exact ⟨by rw [honly.keyOf?_eq]; rfl, hheld⟩

/-- In every run of a watch over a file that was made ready, without a delay, on a service of its
own and at a directory that stays where it is: callbacks are told of the changes of this file that
the backend reports, by whatever spelling, once each and in order, and of nothing else; all but
the end of it, and all of it when the loop waits at an empty queue.  Whoever handles an event tells
what is due of it without waiting for anything; and from the moment the loop is there until the
watch is stopped, the directory is registered and the backend is held. -/
theorem run_tells_file (hprepare : FileTarget.prepare before path = (.ok t, disk))
    (hnew : Watch.new ⟨.file t, .none⟩ handlers options disk = .ok w)
    (hdelay : options.delay.isZero = true)
    (hservice : options.service.getD (.notifying .new) = .notifying s)
    (hvacant : s.registry.Vacant) (hqueue : s.queue = []) (hplace : disk.isDir t.parent = true)
    (hstays : ∀ a ∈ moves, stays t.parent a = true)
    (hrun : (setting behaviour).run? moves (Running.ofWatch w) = some p) :
    ∃ s', p.state.ground.service = .notifying s' ∧
      (p.state.stopped = false → (∃ j ∈ p.jobs, j.loops = true) →
        (s'.registry.keyOf? t.parent).isSome = true ∧ s'.backend.isSome = true) ∧
      (∀ i key event rest, p.threads[i]? = some (.handle key event :: rest) → ∃ n ≤ 4, ∃ q,
        (setting behaviour).run? (List.replicate n (.job i)) p = some q ∧
        calls.told q.state = calls.told p.state ++
          (t.resolve event).toList.flatMap fun path =>
            (handlers.get event.kind).toList.map fun c => (c, event.kind, path)) ∧
      ∃ rest, calls.told p.state ++ rest =
          (setting behaviour).trail (concerning handlers t) moves (Running.ofWatch w) ∧
        ([.receive] ∈ p.threads → s'.queue = [] → rest = []) := by
  have ht := FileTarget.prepared_of_ok hprepare
  obtain ⟨hs, hbegin⟩ := scoped_new hnew hservice hvacant hplace
  -- the account of the whole run
  obtain ⟨hscoped, horderly, rest, htold, hidle⟩ :=
    (scoped_sustained behaviour ht handlers).told hstays hnew hs hqueue
      (prompt_new hnew hdelay) hbegin hrun
  obtain ⟨s', hs', -⟩ := hscoped.service
  refine ⟨s', hs', hscoped.registered hs', fun i key event more hi => ?_, rest, htold,
    fun hwaits hempty => ?_⟩
  · obtain ⟨n, hn, q, hq, htells⟩ := horderly.prompt.tells_event behaviour rfl hi
    refine ⟨n, hn, q, hq, ?_⟩
    rw [htells, dueEvent_calls hscoped.target, hscoped.handlers_eq]
  · refine hidle hwaits ?_
    rw [hs']
    exact hempty

/-! ### A file and its siblings -/

/-- The file `f` in the root. -/
def lonelyFile : FileTarget :=
  ⟨Location.toPath [[119], [102]], Location.toPath [[119]], [102]⟩

/-- A watch over this file, with callbacks for all kinds but one, that was not started yet. -/
def fileWatch : Watch where
  strategy := ⟨.file lonelyFile, .none⟩
  handlers := ⟨some ⟨0⟩, none, some ⟨2⟩, some ⟨3⟩⟩
  kinds := [.create, .delete, .overflow]
  delay := .zero
  backend := .default
  ground := ⟨.notifying .new, bareDisk⟩
  executor := .new .ownThread
  desk := ⟨none, .empty⟩
  started := false
  stopped := false
  handled := 0

/-- The watch is started, and the disk changes.  The file, spelled with two slashes, gives way to a
sibling and is there again, spelled with a dot and a slash at the end; it changes; and a rescan is
asked for. -/
def givingWay : List (Move Outside) :=
  .outside .start :: List.replicate 5 (.job 0) ++ List.replicate 2 (.job 1) ++
    [.outside (.change fullDisk []),
      .outside (.report ⟨.rename .both, [⟨[47, 119, 47, 47, 102]⟩, Location.toPath [[119], [103]],
        ⟨[47, 119, 47, 46, 47, 102, 47]⟩], false⟩),
      .outside (.report ⟨.change, [Location.toPath [[119], [102]]], false⟩),
      .outside (.report ⟨.any, [], true⟩)] ++ List.replicate 19 (.job 1)

/-- Of the sibling nobody is told, and of the file in order. -/
theorem siblings_are_not_told : ∃ p,
    FileTarget.prepare bareDisk (Location.toPath [[119], [102]]) = (.ok lonelyFile, bareDisk) ∧
    Watch.new ⟨.file lonelyFile, .none⟩ ⟨some ⟨0⟩, none, some ⟨2⟩, some ⟨3⟩⟩
      ⟨.zero, .default, none, none, none⟩ bareDisk = .ok fileWatch ∧
    (setting fun _ _ _ => .none).run? givingWay (Running.ofWatch fileWatch) = some p ∧
    [.receive] ∈ p.threads ∧ p.state.ground.service.signals = [] ∧
    calls.told p.state = [(⟨2⟩, .delete, lonelyFile.path), (⟨0⟩, .create, lonelyFile.path),
      (⟨3⟩, .overflow, lonelyFile.path)] := by
  have hprepare : FileTarget.prepare bareDisk (Location.toPath [[119], [102]]) =
      (.ok lonelyFile, bareDisk) := by
    decide +kernel
  have hnew : Watch.new ⟨.file lonelyFile, .none⟩ ⟨some ⟨0⟩, none, some ⟨2⟩, some ⟨3⟩⟩
      ⟨.zero, .default, none, none, none⟩ bareDisk = .ok fileWatch := rfl
  have hlook : ((setting fun _ _ _ => .none).run? givingWay (Running.ofWatch fileWatch)).map
      (fun p => (p.threads, p.state.ground.service.signals)) = some ([[], [.receive]], []) := by
    decide +kernel
  have hdue : (setting fun _ _ _ => .none).trail
      (concerning ⟨some ⟨0⟩, none, some ⟨2⟩, some ⟨3⟩⟩ lonelyFile) givingWay
      (Running.ofWatch fileWatch) =
      [(⟨2⟩, .delete, lonelyFile.path), (⟨0⟩, .create, lonelyFile.path),
        (⟨3⟩, .overflow, lonelyFile.path)] := by
    decide +kernel
  obtain ⟨p, hrun, hlook⟩ := Option.map_eq_some_iff.mp hlook
  obtain ⟨hthreads, hsignals⟩ := Prod.mk.inj hlook
  obtain ⟨s, hs, -, -, rest, htold, hidle⟩ := run_tells_file hprepare hnew (by decide) rfl
    ⟨rfl, rfl⟩ rfl (by decide +kernel) (by decide +kernel) hrun
  have hwaits : [.receive] ∈ p.threads := by
    rw [hthreads]
    exact List.mem_cons_of_mem _ (List.mem_singleton_self _)
  have hqueue : s.queue = [] := by
    rw [hs] at hsignals
    exact hsignals
  obtain rfl := hidle hwaits hqueue
  rw [List.append_nil, hdue] at htold
  exact ⟨p, hprepare, hnew, hrun, hwaits, hsignals, htold⟩

end Notified

end ChangeWatch
