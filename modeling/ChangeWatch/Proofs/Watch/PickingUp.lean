import ChangeWatch.Proofs.Strategy.Pickup
import ChangeWatch.Proofs.Strategy.Registration
import ChangeWatch.Proofs.Watch.Trace

/-!
# What a watch picks up before it hands an event over

A watch handles a creation job by job: it walks from the path errand by errand, lists what was
registered directory by directory, and only then hands the event over.  Up to there no callback
is run, and ground and tree become what one call of `DirTree.onCreated` makes of them
(`handle_advances`); the event comes first, and then what was found, in order, or nothing more if
a directory was refused.

With what such a call registers and finds (`DirTree.onCreated_exactly`) this is the whole of a
pickup (`creation_is_picked_up`).  What is behind a path that is too long to be asked for is not
picked up (`directory_behind_long_path_is_not_picked_up`).
-/

namespace ChangeWatch.Watch

variable {w w' w'' : Watch}

/-! ### Before the callbacks -/

/-- A watch that went on without a note of a callback, and with the same callbacks. -/
structure Tacit (w w' : Watch) : Prop where
  handlers : w'.handlers = w.handlers
  kinds : w'.kinds = w.kinds
  notes : w'.desk.journal.notes = w.desk.journal.notes

theorem Tacit.refl (w : Watch) : Tacit w w := ⟨rfl, rfl, rfl⟩

theorem Tacit.trans (h : Tacit w w') (h' : Tacit w' w'') : Tacit w w'' :=
  ⟨h'.handlers.trans h.handlers, h'.kinds.trans h.kinds, h'.notes.trans h.notes⟩

/-- A walk is done errand by errand, to its end or up to a failure. -/
theorem walk_advances (behaviour : Behaviour Wish) (purpose : Purpose) (rest : List Job)
    {agenda : List DirTree.Errand} {k k' : DirTree.Walk Ground} (h : DirTree.Walks w.kinds agenda k k')
    (hfailure : k.failure = none) (hground : w.ground = k.site)
    (htarget : w.strategy.target = .tree k.tree) :
    ∃ log w', Advances (machine behaviour) (.walk purpose agenda k.registered :: rest) w log
        (afterWalked purpose k' ++ rest) w' ∧ Tacit w w' ∧ w'.scene = w.scene.walked k' := by
  generalize hkinds : w.kinds = kinds at h
  induction h generalizing w with
  | done k =>
    have hscene : w.scene = w.scene.walked k := by
      unfold Scene.walked scene
      rw [← hground, ← htarget]
    have hperform : perform behaviour (.walk purpose [] k.registered) w =
        some (.andThen w (afterWalk k.registered purpose)) := rfl
    have hafter : afterWalked purpose k = afterWalk k.registered purpose := by
      unfold afterWalked
      rw [hfailure]
    rw [hafter]
    exact ⟨_, w, .andThen hperform (.here _ _), .refl w, hscene⟩
  | failed hfailed => exact absurd (hfailure.symm.trans hfailed) (by simp)
  | @step errand more k k' hnone hrest ih =>
    rw [DirTree.advance_eq hnone] at hrest ih
    rcases hstep : DirTree.advance kinds errand (.start k.site k.tree) with ⟨agenda, one⟩
    rw [hstep] at hrest ih
    -- the watch does the errand as a walk of its own, and warns of what that noted
    let next := ((w.withGround one.site).withTarget (.tree one.tree)).warned one.warnings
    have hnext : Tacit w next := ⟨rfl, rfl, rfl⟩
    have hadvance : DirTree.advance w.kinds errand (.start w.ground k.tree) = (agenda, one) := by
      rw [hkinds, hground]
      exact hstep
    cases hone : one.failure with
    | some e =>
      -- nothing is done after a failure
      have hk' : k' = k.after one := hrest.of_failed hone
      have hafter : afterWalked purpose k' = afterBrokenWalk e purpose := by
        have hfailed : k'.failure = some e := by rw [hk']; exact hone
        unfold afterWalked
        rw [hfailed]
      have hperform : perform behaviour (.walk purpose (errand :: more) k.registered) w =
          some (.andThen next (afterBrokenWalk e purpose)) :=
        Outcome.performed (.walkBroken purpose errand more k.registered k.tree one htarget hadvance
          hone)
      rw [hafter, hk']
      exact ⟨_, next, .andThen hperform (.here _ _), hnext, rfl⟩
    | none =>
      have hperform : perform behaviour (.walk purpose (errand :: more) k.registered) w =
          some (.andThen next
            [.walk purpose (agenda ++ more) (k.registered ++ one.registered)]) :=
        Outcome.performed (.walked purpose errand more k.registered k.tree one htarget hadvance hone)
      obtain ⟨log, w', hadvances, htacit, hscene'⟩ := ih hone (w := next) rfl rfl
        (hnext.kinds.trans hkinds)
      refine ⟨_, w', .andThen hperform hadvances, hnext.trans htacit, ?_⟩
      rw [hscene']
      rfl

/-- The directories that were registered are listed one by one. -/
theorem survey_advances (behaviour : Behaviour Wish) (w : Watch) (event : RawEvent) (path : Path)
    (dirs found : List Path) (rest : List Job) :
    ∃ log w', Advances (machine behaviour) (.survey event path dirs found :: rest) w log
        (.dispatch event path (dirs.foldl (DirTree.survey w.ground.disk) (found, [])).1 :: rest) w' ∧
      Tacit w w' ∧ w'.scene = w.scene := by
  induction dirs generalizing w found with
  | nil =>
    have hperform : perform behaviour (.survey event path [] found) w =
        some (.andThen w [.dispatch event path found]) := rfl
    exact ⟨_, w, .andThen hperform (.here _ _), .refl w, rfl⟩
  | cons dir more ih =>
    -- listing a directory changes nothing but the warnings
    let next := w.warned (DirTree.survey w.ground.disk (found, []) dir).2
    have hnext : Tacit w next := ⟨rfl, rfl, rfl⟩
    have hperform : perform behaviour (.survey event path (dir :: more) found) w =
        some (.andThen next [.survey event path more
          (DirTree.survey w.ground.disk (found, []) dir).1]) :=
      Outcome.performed (.listed event path dir more found)
    obtain ⟨log, w', hadvances, htacit, hscene⟩ := ih next
      (DirTree.survey w.ground.disk (found, []) dir).1
    rw [List.foldl_cons, ← Prod.eta (DirTree.survey w.ground.disk (found, []) dir), survey_found]
    exact ⟨_, w', .andThen hperform hadvances, hnext.trans htacit, hscene⟩

/-- What is handed over besides the event: what was found, or nothing after a failure. -/
def discovered : Except WatchError (List Path) → List Path
  | .ok found => found
  | .error _ => []

/-- The jobs by which a creation and what was found because of it are handed to the callback. -/
def announcements (w : Watch) (disk : Disk) (path : Path) (found : List Path) : List Job :=
  match w.handlers.create with
  | none => []
  | some callback =>
    .desk (.call callback (.observe disk .create path) .callbackPanicked) ::
      found.map (.announce callback)

variable {key : Key} {event : RawEvent} {path : Path} {answer : Except WatchError (List Path)}
  {t : DirTree} {k : DirTree.Walk Ground}

theorem dispatch_advances (behaviour : Behaviour Wish) (w : Watch) (hcreate : event.kind = .create)
    (path : Path) (found : List Path) (rest : List Job) :
    Advances (machine behaviour) (.dispatch event path found :: rest) w
      [.dispatch event path found] (w.announcements w.ground.disk path found ++ rest) w := by
  have hperform : perform behaviour (.dispatch event path found) w =
      some (.andThen w (w.handOverAll event path found)) := rfl
  have hjobs : w.handOverAll event path found = w.announcements w.ground.disk path found := by
    unfold handOverAll announcements
    rw [hcreate]
    show (match w.handlers.create with | none => [] | some callback => _) = _
    cases w.handlers.create with
    | none => rfl
    | some callback =>
      -- a creation is never gathered
      dsimp only
      unfold handOver gathers
      rw [hcreate, if_neg (by simp)]
  rw [hjobs] at hperform
  exact .andThen hperform (.here _ _)

/-- After a walk because of a creation, what was registered is listed; after one that failed there is
a warning in place of that. -/
theorem afterWalked_advances (behaviour : Behaviour Wish) (event : RawEvent) (path : Path)
    (k : DirTree.Walk Ground) (hground : w.ground = k.site) (rest : List Job) :
    ∃ log w', Advances (machine behaviour) (afterWalked (.pickup event path) k ++ rest) w log
        (.dispatch event path (match k.failure with
          | some _ => []
          | none => (DirTree.existingEntries k.site.disk k.registered).1) :: rest) w' ∧
      Tacit w w' ∧ w'.scene = w.scene := by
  unfold afterWalked
  cases k.failure with
  | some e =>
    have hwarn : perform behaviour (.desk (.warn .unregistered)) w =
        some (.andThen (w.warn .unregistered) []) := perform_record (fun _ => rfl) (by simp) w
    exact ⟨_, w.warn .unregistered, .andThen hwarn (.here _ _), ⟨rfl, rfl, rfl⟩, rfl⟩
  | none =>
    have hsurvey := survey_advances behaviour w event path k.registered [] rest
    rw [hground] at hsurvey
    exact hsurvey

/-- Picking up what appeared comes to one call of `DirTree.onCreated`, and then the event is
handed over. -/
theorem pickUp_advances (behaviour : Behaviour Wish) (event : RawEvent) (rest : List Job)
    (htarget : w.strategy.target = .tree t) {count : Nat}
    (hown : w.strategy.override.created count key path = none)
    (hanswer : t.onCreated w.ground key path w.kinds = (answer, k)) :
    ∃ log w', Advances (machine behaviour) (.pickUp count key event path :: rest) w log
        (.dispatch event path (discovered answer) :: rest) w' ∧ Tacit w w' ∧
      w'.scene = w.scene.walked k := by
  have hperform : perform behaviour (.pickUp count key event path) w =
      some (.andThen w (w.pickUp count key event path)) := rfl
  have hdisk : Site.disk w.ground = w.ground.disk := rfl
  unfold DirTree.onCreated at hanswer
  rw [hdisk] at hanswer
  unfold pickUp at hperform
  rw [hown, htarget] at hperform
  dsimp only at hperform
  -- both look at the depth first, and without one there is no walk
  cases hdepth : t.pickupDepth? w.ground.disk key path with
  | none =>
    rw [hdepth] at hanswer hperform
    obtain ⟨rfl, rfl⟩ := Prod.mk.inj hanswer
    have hscene : w.scene = w.scene.walked (.start w.ground t) := by
      unfold Scene.walked scene DirTree.Walk.start
      rw [← htarget]
    exact ⟨_, w, .andThen hperform (.here _ _), .refl w, hscene⟩
  | some depth =>
    rw [hdepth] at hanswer hperform
    dsimp only at hanswer hperform
    have hwalks : DirTree.Walks w.kinds [.look path depth] (.start w.ground t)
        (DirTree.registerTree w.kinds path depth (.start w.ground t)) :=
      DirTree.walks_registerTree rfl path depth
    generalize DirTree.registerTree w.kinds path depth (.start w.ground t) = k' at hwalks hanswer
    obtain ⟨log, w₁, hwalked, htacit, hscene⟩ :=
      walk_advances behaviour (.pickup event path) rest hwalks rfl rfl htarget
    obtain ⟨log', w₂, hdone, htacit', hscene'⟩ := afterWalked_advances behaviour event path k'
      (congrArg (fun s => s.ground) hscene) rest
    have hafter : w₂.scene = w.scene.walked k ∧ discovered answer =
        match k'.failure with
        | some _ => []
        | none => (DirTree.existingEntries k'.site.disk k'.registered).1 := by
      rw [hscene', hscene]
      cases hfailure : k'.failure with
      | some e =>
        rw [hfailure] at hanswer
        obtain ⟨rfl, rfl⟩ := Prod.mk.inj hanswer
        exact ⟨rfl, rfl⟩
      | none =>
        rw [hfailure] at hanswer
        obtain ⟨rfl, rfl⟩ := Prod.mk.inj hanswer
        exact ⟨rfl, rfl⟩
    rw [← hafter.2] at hdone
    exact ⟨_, w₂, .andThen hperform (hwalked.trans hdone), htacit.trans htacit', hafter.1⟩

/-- A creation is handled by one call of `DirTree.onCreated` before any callback is run; then the
callback is given the event, and after it what was found, in order. -/
theorem handle_advances (behaviour : Behaviour Wish) (rest : List Job)
    (htarget : w.strategy.target = .tree t)
    (hresolve : w.strategy.resolve w.handled key event = .path path)
    (hcreate : event.kind = .create) (hown : w.strategy.override.created w.handled key path = none)
    (hanswer : t.onCreated w.ground key path w.kinds = (answer, k)) :
    ∃ log w', Advances (machine behaviour) (.handle key event :: rest) w log
        (w.announcements (Site.disk k.site) path (discovered answer) ++ rest) w' ∧
      w'.desk.journal.notes = w.desk.journal.notes ∧ w'.ground = k.site ∧
      w'.strategy.target = .tree k.tree := by
  let counted : Watch := { w with handled := w.handled + 1 }
  have hperform : perform behaviour (.handle key event) w =
      some (.andThen counted [.pickUp w.handled key event path]) := by
    show some (Done.andThen counted (afterResolve w.handled key event
      (w.strategy.resolve w.handled key event))) = _
    rw [hresolve]
    simp only [afterResolve, if_pos hcreate]
  obtain ⟨log, w', hpicked, htacit, hscene⟩ := pickUp_advances (w := counted) behaviour event rest
    htarget hown hanswer
  have hground : w'.ground = k.site := congrArg (·.ground) hscene
  have hdispatched := dispatch_advances behaviour w' hcreate path (discovered answer) rest
  have hjobs : w'.announcements w'.ground.disk path (discovered answer) =
      w.announcements (Site.disk k.site) path (discovered answer) := by
    unfold announcements
    rw [htacit.handlers, hground]
    rfl
  rw [hjobs] at hdispatched
  exact ⟨_, w', .andThen hperform (hpicked.trans hdispatched), htacit.notes, hground,
    congrArg (·.strategy.target) hscene⟩

/-! ### The whole of a pickup -/

/-- What a creation comes to.  Under a known key and not too deep, a real directory is picked up:
what can be reached from it within the bound is registered and kept, and what is in there is
found.  Otherwise nothing is found, and neither nodes nor service change.  A watch that handles the
creation does just this before it runs a callback, and then hands over the event and what was
found, in order. -/
theorem creation_is_picked_up {σ : Type} [Site σ] {ready : σ → Prop} {calls : σ → List Grant}
    (law : Granting ready calls) :
    (∀ (s : σ) (t : DirTree) (key : Key) (node : Node) (path : Path) (top : Location)
      (kinds : List EventKind), ready s → (Site.disk s).InOrder → t.node? key = some node →
        node.depth + 1 ≤ t.maxDepth → (Site.disk s).lstat path = .ok (top, .dir) →
        ∃ found k, t.onCreated s key path kinds = (.ok found, k) ∧
          DirTree.PicksUpExactly calls s t node path top kinds found k) ∧
    (∀ (s : σ) (t : DirTree) (key : Key) (path : Path) (kinds : List EventKind),
      (t.node? key = none ∨ (Site.disk s).isDir path = false ∨
        ∃ node, t.node? key = some node ∧ t.maxDepth < node.depth + 1) →
      t.onCreated s key path kinds = (.ok [], .start s t)) ∧
    ∀ (behaviour : Behaviour Wish) (rest : List Job) (w : Watch) (t : DirTree) (key : Key)
      (event : RawEvent) (path : Path) (found : List Path) (k : DirTree.Walk Ground),
      w.strategy.target = .tree t → w.strategy.resolve w.handled key event = .path path →
      event.kind = .create → w.strategy.override.created w.handled key path = none →
      t.onCreated w.ground key path w.kinds = (.ok found, k) →
      ∃ log w', Advances (machine behaviour) (.handle key event :: rest) w log
          (w.announcements (Site.disk k.site) path found ++ rest) w' ∧
        w'.desk.journal.notes = w.desk.journal.notes ∧ w'.ground = k.site ∧
        w'.strategy.target = .tree k.tree :=
  ⟨fun _ _ _ _ _ _ kinds hready horder hnode hdepth hpath =>
    DirTree.onCreated_exactly law hready horder hnode hdepth hpath kinds,
    fun s _ _ _ kinds h => DirTree.onCreated_ignores s kinds h,
    fun behaviour rest _ _ _ _ _ _ _ htarget hresolve hcreate hown hfound =>
      handle_advances behaviour rest htarget hresolve hcreate hown hfound⟩

/-- A ground with a service in memory that has registered just a root. -/
def rootedGround (root : Path) (disk : Disk) : Ground :=
  ⟨.memory { MemoryService.new .none with
    dirs := [(root, ⟨0⟩)], nextKey := 1, accepted := [(root, [.create])] }, disk⟩

theorem counting_rootedGround (root : Path) (disk : Disk) : (rootedGround root disk).Counting := by
  refine ⟨_, rfl, ⟨rfl, rfl, rfl⟩, fun entry hentry => ?_, fun entry hentry => ?_,
    List.nodup_singleton _⟩
  · rw [List.mem_singleton.mp hentry]
    have hsame : root.same root = true := decide_eq_true rfl
    simp [MemoryService.keyOf?, hsame]
  · rw [List.mem_singleton.mp hentry]
    exact Nat.zero_lt_one

/-- In a registered directory `w` a directory `a` is created: it is picked up with the directory `b`
in it, and a link and the file `a/b/f` are found. -/
theorem nested_directory_is_picked_up :
    let root := Location.toPath [[119]]
    let path := Location.toPath [[119], [97]]
    let disk := (DirTree.nestedDisk.put [[119], [97], [108]] (.link ⟨[46]⟩)).put
      [[119], [97], [98], [102]] (.file [])
    let g := rootedGround root disk
    let t : DirTree := ⟨root, 2, [(⟨0⟩, ⟨root, 0⟩)]⟩
    let w : Watch := {
      strategy := ⟨.tree t, .none⟩
      handlers := ⟨some ⟨0⟩, none, none, none⟩
      kinds := [.create], delay := .zero, backend := .default, ground := g
      executor := .new .ownThread, desk := ⟨none, .empty⟩
      started := true, stopped := false, handled := 0 }
    Granting Ground.Counting Ground.grants ∧ g.Counting ∧ disk.InOrder ∧
      t.node? ⟨0⟩ = some ⟨root, 0⟩ ∧ 0 + 1 ≤ t.maxDepth ∧
      disk.lstat path = .ok ([[119], [97]], .dir) ∧ t.node? ⟨7⟩ = none ∧
      t.onCreated g ⟨7⟩ path [.create] = (.ok [], .start g t) ∧
    ∃ found k, t.onCreated g ⟨0⟩ path [.create] = (.ok found, k) ∧
      k.site.grants.map (·.dir) = [root, path, path.child [98]] ∧
      path.child [108] ∈ found ∧ (path.child [98]).child [102] ∈ found ∧
      ∃ log w', Advances (machine fun _ _ _ => .none)
          [.handle ⟨0⟩ ⟨.create, some ⟨[97]⟩⟩, .reset ⟨0⟩, .recheck] w log
          (w.announcements disk path found ++ [.reset ⟨0⟩, .recheck]) w' ∧ w'.ground = k.site := by
  intro root path disk g t w
  -- the hypotheses, computed
  have hcounting : g.Counting := counting_rootedGround root disk
  have horder : disk.InOrder := by decide +kernel
  have hnode : t.node? ⟨0⟩ = some ⟨root, 0⟩ := by decide +kernel
  have hunknown : t.node? ⟨7⟩ = none := by decide +kernel
  have hdepth : 0 + 1 ≤ t.maxDepth := by decide
  have hpath : disk.lstat path = .ok ([[119], [97]], .dir) := by decide +kernel
  obtain ⟨hpicks, hignores, hhandles⟩ := creation_is_picked_up granting_memory
  -- the first part gives what is found, the last one the run of the jobs
  obtain ⟨found, k, hfound, hk⟩ :=
    hpicks g t ⟨0⟩ ⟨root, 0⟩ path [[119], [97]] [.create] hcounting horder hnode hdepth hpath
  obtain ⟨grants, -, -, -, -, hexactly⟩ := hk.outcome
  have hsite : k.site.grants.map (·.dir) = [root, path, path.child [98]] := by
    have hgrants : (t.onCreated g ⟨0⟩ path [.create]).2.site.grants.map (·.dir) =
        [root, path, path.child [98]] := by decide +kernel
    rwa [hfound] at hgrants
  have hdown : DirTree.Reached disk path [[119], [97]] [[98]] :=
    .down (by decide +kernel) (by decide +kernel) (.here _ _)
  obtain ⟨log, w', hadvances, -, hground, -⟩ :=
    hhandles (fun _ _ _ => .none) [.reset ⟨0⟩, .recheck] w t ⟨0⟩ ⟨.create, some ⟨[97]⟩⟩ path found k
      rfl (by decide +kernel) rfl rfl hfound
  rw [hk.disk] at hadvances
  refine ⟨granting_memory, hcounting, horder, hnode, hdepth, hpath, hunknown,
    hignores g t ⟨7⟩ path [.create] (Or.inl hunknown), found, k, hfound, hsite,
    (hexactly.listed _).mpr ?_, (hexactly.listed _).mpr ?_, log, w', hadvances, hground⟩
  · exact ⟨[], [108], by decide, .here _ _, by decide +kernel, by decide +kernel, rfl⟩
  · exact ⟨[[98]], [102], by decide, hdown, by decide +kernel, by decide +kernel, rfl⟩

/-! ### Paths that are too long -/

/-- Below a new directory there is one whose path is too long to be asked for, and in that a real
directory, which is neither picked up nor kept. -/
theorem directory_behind_long_path_is_not_picked_up :
    let disk := DirTree.tailDisk 16
    let root := (Growing.column 14).toPath
    let path := (Growing.column 15).toPath
    let g := rootedGround root disk
    let t : DirTree := ⟨root, 3, [(⟨0⟩, ⟨root, 0⟩)]⟩
    let names := [Growing.longName, [98]]
    Granting Ground.Counting Ground.grants ∧ g.Counting ∧ disk.InOrder ∧
      t.node? ⟨0⟩ = some ⟨root, 0⟩ ∧ 0 + 1 ≤ t.maxDepth ∧
      path = root.child Growing.longName ∧
      disk.lstat path = .ok (Growing.column 15, .dir) ∧ names.length ≤ t.maxDepth - (0 + 1) ∧
      (∀ front ∈ names.inits, disk.entry? (Growing.column 15 ++ front) = some .dir) ∧
      (∀ grant ∈ (t.onCreated g ⟨0⟩ path [.create]).2.site.grants,
        grant.dir.same (names.foldl Path.child path) = false) ∧
      ∀ entry ∈ (t.onCreated g ⟨0⟩ path [.create]).2.tree.nodes,
        entry.2.dir.same (names.foldl Path.child path) = false := by
  intro disk root path g t names
  refine ⟨granting_memory, counting_rootedGround root disk, DirTree.tailDisk_inOrder 16, ?_, ?_, ?_,
    ?_, Nat.le_refl _, ?_, ?_, ?_⟩
  · decide +kernel
  · decide
  · decide +kernel
  · decide +kernel
  · decide +kernel
  · decide +kernel
  · decide +kernel

end ChangeWatch.Watch
