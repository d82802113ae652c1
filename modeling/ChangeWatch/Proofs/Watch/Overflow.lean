import ChangeWatch.Proofs.Strategy.Depth
import ChangeWatch.Proofs.Watch.Delivering
import ChangeWatch.Proofs.Watch.Resolving

/-!
# An overflow reaches the callback

At a watch over a tree every key that is registered has a node of its directory, so the one
event that a rescan is translated to is resolved, whenever it is handled, to the directory to
which the rescan was addressed (`resolve_nameless`, `dueEvent_overflows`).  Changes of other
kinds may be gathered, and entries found besides, but overflows are handed on at once and in
order (`Prompt`), so what the callback for overflows is told in a run is what the backend asked
to be rescanned in it, once each, wherever anything was registered (`run_tells_rescans`).
-/

namespace ChangeWatch.Notified

open Watch

variable {behaviour : Behaviour Wish} {w : Watch} {s : NotifyingService} {t : DirTree}
  {p q : Running} {callback : Callback} {kinds : List EventKind}

/-! ### What is followed -/

/-- Overflows, with the directories of which they are told. -/
def overflows : Scope (List Component) where
  tracks kind := kind = .overflow
  view := Path.components
  knows w key event := ∃ t c, w.strategy.target = .tree t ∧ t.dirAt? key = some c ∧
    (event.kind = .overflow → event.name = none)

/-- What is to be told because of a move: each rescan that the backend asks for, of the directory
to which it is addressed. -/
def rescans (callback : Callback) :
    Move Outside → Running → List (Callback × EventKind × List Component)
  | .job _, _ => []
  | .outside e, p =>
    match p.state.ground.service with
    | .notifying s =>
      ((e.reports p.state.ground).filter (·.rescan)).flatMap fun report =>
        (s.registry.rescanDir? report.paths).toList.map fun dir =>
          (callback, .overflow, dir.components)
    | .memory _ => []

/-- An event of which enough is known is due what its directory says, if it is an overflow. -/
theorem dueEvent_overflows (hcallback : w.handlers.overflow = some callback)
    (htarget : w.strategy.target = .tree t) {key : Key} {c : List Component} {event : RawEvent}
    (hdir : t.dirAt? key = some c) (hname : event.kind = .overflow → event.name = none) :
    overflows.dueEvent w key event =
      if event.kind = .overflow then [(callback, .overflow, c)] else [] := by
  unfold Scope.dueEvent
  rw [htarget]
  by_cases hkind : event.kind = .overflow
  · obtain ⟨path, hpath, rfl⟩ := DirTree.resolve_nameless hdir (hname hkind)
    have hresolve : Target.resolve key event (.tree t) = some path := hpath
    have hget : w.handlers.get .overflow = some callback := hcallback
    rw [if_pos hkind, hresolve, hkind]
    simp [Scope.due, overflows, hget]
  · rw [if_neg hkind]
    refine List.flatMap_eq_nil_iff.mpr fun path _ => ?_
    simp [Scope.due, overflows, hkind]

/-! ### What is due because of a report -/

theorem owed_report (hover : Over w s t) {lost : List (Key × Path)} (hkept : Kept lost s t)
    (hcallback : w.handlers.overflow = some callback) (disk : Disk) (report : Report) :
    ((s.registry.translate disk report).map .batch).flatMap (overflows.owedSignal w) =
      if report.rescan then (s.registry.rescanDir? report.paths).toList.map fun dir =>
        (callback, .overflow, dir.components)
      else [] := by
  rw [Scope.owed_batches]
  cases hscan : report.rescan with
  | false =>
    rw [s.registry.translate_entries disk hscan]
    -- what is reported of a path is no overflow
    refine List.flatMap_eq_nil_iff.mpr fun entry hentry => ?_
    obtain ⟨change, hchange, hlocate⟩ := List.mem_filterMap.mp hentry
    obtain ⟨_, _, _, -, -, -, -, rfl⟩ := Registry.locate_eq_some_iff.mp hlocate
    have hkind := report.changes_kind disk change hchange
    refine List.flatMap_eq_nil_iff.mpr fun path _ => ?_
    simp [Scope.due, overflows, hkind]
  | true =>
    rw [if_pos rfl, s.registry.translate_rescan disk hscan]
    cases hkey : s.registry.rescanKey? report.paths with
    | none =>
      have hnil := (hkept.coherent.rescanKey?_eq_none_iff report.paths).mp hkey
      rw [hkept.coherent.rescanDir?_eq_none hnil]
      rfl
    | some key =>
      obtain ⟨dir, hdir, hentry⟩ := hkept.coherent.rescanDir? report.paths hkey
      rw [hdir]
      show overflows.dueEvent w key .overflow ++ [] = [(callback, .overflow, dir.components)]
      rw [dueEvent_overflows hcallback hover.target (hkept.current _ hentry) fun _ => rfl]
      rfl

/-- What is due because of a move are the rescans in it. -/
theorem news_overflows {a : Move Outside} (hover : Over p.state s t) {lost : List (Key × Path)}
    (hkept : Kept lost s t) (hcallback : p.state.handlers.overflow = some callback) :
    overflows.news a p = rescans callback a p := by
  cases a with
  | job i => rfl
  | outside e =>
    have hreports : ∀ reports : List Report, (signalsOf s (e.diskAfter p.state.ground)
        reports).flatMap (overflows.owedSignal p.state) =
        (reports.filter (·.rescan)).flatMap fun report =>
          (s.registry.rescanDir? report.paths).toList.map fun dir =>
            (callback, .overflow, dir.components) := by
      intro reports
      induction reports with
      | nil => rfl
      | cons report rest ih =>
        have hfirst := owed_report hover hkept hcallback (e.diskAfter p.state.ground) report
        unfold signalsOf at ih ⊢
        rw [List.flatMap_cons, List.flatMap_append, hfirst, ih]
        cases hscan : report.rescan with
        | false => rw [List.filter_cons_of_neg (by rw [hscan]; simp)]; rfl
        | true => rw [List.filter_cons_of_pos hscan]; rfl
    simp only [Scope.news, Scope.newsOf, rescans, hover.service]
    exact hreports _

/-! ### Every move -/

/-- A watch at which nodes and registrations go together, with a callback that is told of overflows
at once. -/
structure Heeding (kinds : List EventKind) (callback : Callback) (p : Running) : Prop where
  steady : Steady kinds p
  callback_eq : p.state.handlers.overflow = some callback
  prompt : overflows.Prompt p.state

/-- What is known of a directory is known for good, so overflows are followed. -/
theorem heeding_sustained (behaviour : Behaviour Wish) (kinds : List EventKind)
    (callback : Callback) :
    overflows.Sustained behaviour (fun _ => True) (Heeding kinds callback) (rescans callback) := by
  refine ⟨fun p a q _ hp hmove => ?_, fun p hp s₀ hs₀ disk report b hb event hevent => ?_,
    fun p a _ hp => ?_⟩
  · have hsetup := move_sameSetup hmove
    have hcallback : q.state.handlers.overflow = some callback := by
      rw [hsetup.handlers]
      exact hp.callback_eq
    have hsteady := hp.steady.move hmove
    obtain ⟨s, t, hover⟩ := hp.steady.over
    obtain ⟨s', t', hover'⟩ := hsteady.over
    refine ⟨⟨hsteady, hcallback, hp.prompt.sameSetup hsetup⟩, ?_⟩
    rintro key event ⟨t₀, c, htarget, hdir, hname⟩
    obtain rfl := Target.tree.inj (hover.target.symm.trans htarget)
    have hstill := hp.steady.keeps hmove hover hover' key c hdir
    refine ⟨⟨t', c, hover'.target, hstill, hname⟩, ?_⟩
    rw [dueEvent_overflows hp.callback_eq hover.target hdir hname,
      dueEvent_overflows hcallback hover'.target hstill hname]
  · obtain ⟨lost, ⟨s, t, hover, hkept, -⟩, -⟩ := hp.steady.tended
    obtain rfl := Service.notifying.inj (hover.service.symm.trans hs₀)
    obtain ⟨c, hentry⟩ := hkept.coherent.translate_registered hb hevent
    refine ⟨t, c, hover.target, hkept.current _ hentry, fun hkind => ?_⟩
    have hshaped := Registry.translate_shaped _ _ _ b hb event hevent
    unfold RawEvent.Shaped at hshaped
    split at hshaped
    · next hname => exact hname
    · exact absurd hkind hshaped.1
  · obtain ⟨lost, ⟨s, t, hover, hkept, -⟩, -⟩ := hp.steady.tended
    exact news_overflows hover hkept hp.callback_eq

/-! ### All runs -/

/-- What becomes of a rescan at a watch over `s` and `t`, however late it is handled. -/
structure TellsRescans (behaviour : Behaviour Wish) (callback : Callback) (p : Running)
    (s : NotifyingService) (t : DirTree) : Prop where
  /-- Every key that is registered has a node of its directory. -/
  noded : ∀ key dir, s.registry.dirOf? key = some dir →
    ∃ node, t.node? key = some node ∧ node.dir.same dir = true
  /-- As long as anything is registered, a rescan is translated to one event without a name, under
  the key of the directory to which it is addressed. -/
  translated : s.registry.byKey ≠ [] → ∀ disk (report : Report), report.rescan = true →
    ∃ key dir dir', s.registry.rescanDir? report.paths = some dir ∧
      s.registry.dirOf? key = some dir' ∧ dir'.same dir = true ∧
      s.registry.translate disk report = [⟨key, [⟨.overflow, none⟩]⟩]
  /-- The first key is the smallest of all that are registered. -/
  smallest : ∀ key, s.registry.firstKey? = some key → ∀ key' dir,
    s.registry.dirOf? key' = some dir → key.id ≤ key'.id
  /-- Where nothing is registered, nothing is translated. -/
  silent : s.registry.byKey = [] → ∀ disk report, s.registry.translate disk report = []
  /-- Whoever handles such an event, at whatever time, tells the callback of the directory, once,
  and need not wait for anything. -/
  handled : ∀ key dir, s.registry.dirOf? key = some dir → ∀ later q i rest,
    (setting behaviour).run? later p = some q →
    q.threads[i]? = some (.handle key ⟨.overflow, none⟩ :: rest) → ∃ n ≤ 4, ∃ q',
      (setting behaviour).run? (List.replicate n (.job i)) q = some q' ∧
      overflows.told q'.state = overflows.told q.state ++ [(callback, .overflow, dir.components)]

theorem Heeding.tellsRescans (hp : Heeding kinds callback p) (hover : Over p.state s t) :
    TellsRescans behaviour callback p s t := by
  obtain ⟨lost, ⟨s₀, t₀, hover₀, hkept, -⟩, -⟩ := hp.steady.tended
  obtain ⟨rfl, rfl⟩ := hover₀.unique hover
  have hentries : s₀.registry.keyEntries = [] ↔ s₀.registry.byKey = [] := List.map_eq_nil_iff
  refine ⟨fun key dir hdir => ?_, fun hlive disk report hscan => ?_,
    fun key hfirst key' dir hdir => ?_, fun hnil disk report => ?_,
    fun key dir hdir later q i rest hlater hi => ?_⟩
  · obtain ⟨node, hnode, hsame⟩ := DirTree.dirAt?_eq_some.mp
      (hkept.current _ (Registry.mem_keyEntries_of_dirOf? hdir))
    exact ⟨node, hnode, Path.same_iff.mpr hsame⟩
  -- there is a key to tell it under, unless nothing is registered
  · cases hkey : s₀.registry.rescanKey? report.paths with
    | none =>
      exact absurd (hentries.mp ((hkept.coherent.rescanKey?_eq_none_iff _).mp hkey)) hlive
    | some key =>
      obtain ⟨dir, hdir, hentry⟩ := hkept.coherent.rescanDir? report.paths hkey
      obtain ⟨dir', hdir'⟩ := Registry.dirOf?_isSome hentry
      have hsame := hkept.coherent.dir_unique (Registry.mem_keyEntries_of_dirOf? hdir') hentry
      refine ⟨key, dir, dir', hdir, hdir', Path.same_iff.mpr hsame, ?_⟩
      rw [Registry.translate_rescan _ disk hscan, hkey]
      rfl
  · exact (Registry.firstKey?_eq_some hfirst).2 key'
      (List.mem_map.mpr ⟨_, Registry.mem_keyEntries_of_dirOf? hdir, rfl⟩)
  · exact hkept.coherent.translate_eq_nil (hentries.mpr hnil) disk report
  -- the entry is known from then on, so it is told whenever its batch is taken
  · have hq : Heeding kinds callback q :=
      Setting.preserved (fun r a r' hr hmove =>
        ((heeding_sustained behaviour kinds callback).move r a r' trivial hr hmove).1) hp hlater
    obtain ⟨s', t', hover'⟩ := hq.steady.over
    have hknown := hkept.current _ (Registry.mem_keyEntries_of_dirOf? hdir)
    have hstill := run_keeps hp.steady hlater hover hover' _ _ hknown
    obtain ⟨n, hn, q', hrun, htold⟩ := hq.prompt.tells_event behaviour rfl hi
    refine ⟨n, hn, q', hrun, ?_⟩
    rw [htold, dueEvent_overflows hq.callback_eq hover'.target hstill fun _ => rfl]
    rfl

variable {root : Path} {maxDepth : Nat} {handlers : Handlers} {options : Watch.Options}
  {disk : Disk} {moves : List (Move Outside)}

/-- In every state of every run, whatever else is subscribed to: every key that is registered has
a node of its directory, so a rescan is one event under a key that is registered, and handling it
tells the callback for overflows of the directory to which the rescan is addressed, once.  And of
all rescans that the backend asks for in a run the callback is told in order, none is told twice
or left out, and all are told when the loop waits at an empty queue. -/
theorem run_tells_rescans
    (hservice : options.service = none ∨ options.service = some (.notifying .new))
    (hcallback : handlers.overflow = some callback)
    (hnew : Watch.new ⟨.tree ⟨root, maxDepth, []⟩, .none⟩ handlers options disk = .ok w)
    (hrun : (setting behaviour).run? moves (Running.ofWatch w) = some p) :
    ∃ s t, Over p.state s t ∧ TellsRescans behaviour callback p s t ∧
      ∃ rest, overflows.told p.state ++ rest =
          (setting behaviour).trail (rescans callback) moves (Running.ofWatch w) ∧
        ([.receive] ∈ p.threads → s.queue = [] → rest = []) := by
  have hfresh := fresh_of_new hnew
  have hover := over_new hservice hnew
  have hprompt : overflows.Prompt w := by
    refine ⟨by rw [hfresh.strategy_eq], fun kind hkind => Or.inl ?_, fun hcreate => ?_⟩
    · rintro rfl
      exact absurd hkind (by decide)
    · exact absurd hcreate (by decide)
  have hbegin : Heeding w.kinds callback (Running.ofWatch w) := by
    have hstart : (setting behaviour).run? [] (Running.ofWatch w) = some (Running.ofWatch w) := rfl
    refine ⟨run_steady hservice hnew hstart, ?_, hprompt⟩
    show w.handlers.overflow = some callback
    rw [hfresh.handlers_eq, hcallback]
  obtain ⟨hheeding, -, rest, htold, hidle⟩ := (heeding_sustained behaviour w.kinds callback).told
    (fun _ _ => trivial) hnew hover.service rfl hprompt hbegin hrun
  obtain ⟨s, t, hover'⟩ := hheeding.steady.over
  refine ⟨s, t, hover', hheeding.tellsRescans hover', rest, htold, fun hwaits hempty => ?_⟩
  refine hidle hwaits ?_
  rw [hover'.service]
  exact hempty

/-! ### Two rescans -/

/-- A watch over the root, two levels down, with a callback for overflows alone. -/
def lossyWatch : Watch :=
  { treeWatch with
    handlers := ⟨none, none, none, some ⟨0⟩⟩
    kinds := [.overflow, .create] }

/-- The watch is started, and a rescan is asked for twice: once with an entry of the directory `a`
and once without a path. -/
def lossy : List (Move Outside) :=
  .outside .start :: List.replicate 11 (.job 0) ++ List.replicate 2 (.job 1) ++
    [.outside (.report ⟨.other, [Location.toPath [[119], [97], [103]]], true⟩),
      .outside (.report ⟨.any, [], true⟩)] ++ List.replicate 14 (.job 1)

/-- The first is told of the directory that holds the entry, the second of that of the smallest
key. -/
theorem both_rescans_are_told : ∃ p s,
    Watch.new ⟨.tree ⟨Location.toPath [[119]], 2, []⟩, .none⟩ ⟨none, none, none, some ⟨0⟩⟩ .default
      fullDisk = .ok lossyWatch ∧
    (setting fun _ _ _ => .none).run? lossy (Running.ofWatch lossyWatch) = some p ∧
    p.state.ground.service = .notifying s ∧ s.queue = [] ∧ [.receive] ∈ p.threads ∧
    overflows.told p.state = [(⟨0⟩, .overflow, [.root, .name [119], .name [97]]),
      (⟨0⟩, .overflow, [.root, .name [119]])] := by
  have hnew : Watch.new ⟨.tree ⟨Location.toPath [[119]], 2, []⟩, .none⟩
      ⟨none, none, none, some ⟨0⟩⟩ .default fullDisk = .ok lossyWatch := rfl
  have hlook : ((setting fun _ _ _ => .none).run? lossy (Running.ofWatch lossyWatch)).map
      (fun p => (p.threads, p.state.ground.service.signals)) = some ([[], [.receive]], []) := by
    decide +kernel
  have hdue : (setting fun _ _ _ => .none).trail (rescans ⟨0⟩) lossy (Running.ofWatch lossyWatch) =
      [(⟨0⟩, .overflow, [.root, .name [119], .name [97]]),
        (⟨0⟩, .overflow, [.root, .name [119]])] := by
    decide +kernel
  obtain ⟨p, hrun, hlook⟩ := Option.map_eq_some_iff.mp hlook
  obtain ⟨hthreads, hsignals⟩ := Prod.mk.inj hlook
  obtain ⟨s, t, hover, -, rest, htold, hidle⟩ := run_tells_rescans (Or.inl rfl) rfl hnew hrun
  have hwaits : [.receive] ∈ p.threads := by
    rw [hthreads]
    exact List.mem_cons_of_mem _ (List.mem_singleton_self _)
  rw [hover.service] at hsignals
  obtain rfl := hidle hwaits hsignals
  rw [List.append_nil, hdue] at htold
  exact ⟨p, s, hnew, hrun, hover.service, hsignals, hwaits, htold⟩

end ChangeWatch.Notified
