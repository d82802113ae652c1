import ChangeWatch.Proofs.Strategy.Links
import ChangeWatch.Proofs.Watch.PickingUp

/-!
# What is told of a pickup in which a directory is refused

A walk is broken off by the first directory that the service refuses, and what was registered
until then stays registered.  What stands in a directory that was registered is told by a listing
after the walk, and a walk that was broken off has none: the event is handed over, and nothing
else (`Watch.handle_advances`).

So all entries of all registered directories are told exactly if none was refused, or if none of
the registered ones has an entry (`DirTree.tells_iff`).  A real directory that is registered
before another one below it is refused has an entry, the way down to that one
(`DirTree.listed_of_refused`); so for such a directory all is told exactly if none was refused,
or the first one was already (`refused_pickup_tells_the_event_alone`).  Otherwise what was there
before it was registered is never told (`entries_beside_a_refused_directory_are_missed`).

This holds for every service, whichever directories it refuses, as long as registering leaves the
disk alone (`Site.Still`).
-/

namespace ChangeWatch

/-- From a site that is `ready`, registering leaves the disk alone, whether it is granted or
refused. -/
def Site.Still {σ : Type} [Site σ] (ready : σ → Prop) : Prop :=
  ∀ (dir : Path) (kinds : List EventKind) (s : σ), ready s →
    ready (Site.register dir kinds s).2 ∧ Site.disk (Site.register dir kinds s).2 = Site.disk s

/-- A service in which no directory disappears leaves the disk alone. -/
theorem still_ground : Site.Still fun g : Ground => g.service.Discreet :=
  fun dir kinds g hg => hg.register g.disk dir kinds

/-- All names that a disk lists are proper. -/
theorem Disk.InOrder.normal_listing {d : Disk} (h : d.InOrder) {p : Path} {entry : Bytes × Entry}
    (hentry : entry ∈ d.listing p) : Path.Normal entry.1 := by
  unfold Disk.listing Disk.readDir at hentry
  split at hentry
  · next place _ =>
    have hchild : (entry.1, entry.2) ∈ d.children place := hentry
    exact (h.above (h.mem_children.mp hchild)).1.normal
  · exact absurd hentry List.not_mem_nil
  · exact absurd hentry List.not_mem_nil

namespace DirTree

variable {σ : Type} [Site σ] {ready : σ → Prop} {kinds : List EventKind} {disk : Disk}
  {path dir : Path} {w k : Walk σ} {depth : Nat}

/-! ### Where a walk goes -/

/-- The walk has come to directories below its start only, and the disk is what it was. -/
structure Descending (ready : σ → Prop) (disk : Disk) (path : Path) (w : Walk σ) : Prop where
  ready : ready w.site
  disk : Site.disk w.site = disk
  below : ∀ dir ∈ w.registered, ∃ names, Path.Below path names dir

/-- The errand stays below the start of the walk. -/
def Errand.StaysBelow (path : Path) : Errand → Prop
  | .look start _ => start = path
  | .enter dir _ | .list dir _ => ∃ names, Path.Below path names dir

/-- What is listed in a directory below the start is below it too. -/
theorem below_of_mem_subdirectories (horder : disk.InOrder) {names : List Bytes}
    (hdir : Path.Below path names dir) {child : Path} (hchild : child ∈ subdirectories disk dir) :
    ∃ names, Path.Below path names child := by
  rw [subdirectories_eq] at hchild
  obtain ⟨entry, hentry, hsome⟩ := List.mem_filterMap.mp hchild
  have hnormal := horder.normal_listing hentry
  dsimp only at hsome
  split at hsome
  · obtain rfl := Option.some.inj hsome
    exact ⟨names ++ [entry.1], hdir.child hnormal⟩
  · exact absurd hsome (by simp)

theorem advance_descending (law : Site.Still ready) (horder : disk.InOrder)
    (errand : Errand) (w : Walk σ) (herrand : errand.StaysBelow path)
    (hw : Descending ready disk path w) :
    Descending ready disk path (advance kinds errand w).2 ∧
      ∀ e ∈ (advance kinds errand w).1, e.StaysBelow path := by
  -- an errand at a place adds errands at that place or at its children
  cases errand with
  | look start depth =>
    obtain rfl : start = path := herrand
    simp only [advance]
    split
    · exact ⟨hw, fun e he => absurd he List.not_mem_nil⟩
    · cases footing (Site.disk w.site) start with
      | directory =>
        refine ⟨hw, fun e he => ?_⟩
        rw [List.mem_singleton.mp he]
        exact ⟨[], .refl start⟩
      | linked =>
        refine ⟨hw, fun e he => ?_⟩
        rw [List.mem_singleton.mp he]
        exact ⟨[], .refl start⟩
      | nothing => exact ⟨hw, fun e he => absurd he List.not_mem_nil⟩
      | unreadable =>
        exact ⟨⟨hw.ready, hw.disk, hw.below⟩, fun e he => absurd he List.not_mem_nil⟩
  | enter dir depth =>
    obtain ⟨hready, hdisk⟩ := law dir kinds w.site hw.ready
    simp only [advance]
    rcases enter_cases kinds dir depth w with ⟨e, site, hregister, heq⟩ |
      ⟨key, site, below, warnings, hregister, -, heq⟩
    · rw [hregister] at hready hdisk
      rw [heq]
      exact ⟨⟨hready, hdisk.trans hw.disk, hw.below⟩, fun e he => absurd he List.not_mem_nil⟩
    · rw [hregister] at hready hdisk
      rw [heq]
      -- the directory is written down, and it is below the start as the errand was
      have hentered : Descending ready disk path { w with
          site, tree := w.tree.setNode key ⟨dir, depth⟩, registered := w.registered ++ [dir]
          warnings } := by
        refine ⟨hready, hdisk.trans hw.disk, fun d hd => ?_⟩
        rcases List.mem_append.mp hd with hd | hd
        · exact hw.below d hd
        · rw [List.mem_singleton.mp hd]
          exact herrand
      cases below with
      | true =>
        refine ⟨hentered, fun e he => ?_⟩
        rw [List.mem_singleton.mp he]
        exact herrand
      | false => exact ⟨hentered, fun e he => absurd he List.not_mem_nil⟩
  | list dir depth =>
    obtain ⟨names, hdir⟩ := herrand
    simp only [advance]
    split
    · refine ⟨hw, fun e he => ?_⟩
      obtain ⟨child, hchild, rfl⟩ := List.mem_map.mp he
      rw [hw.disk] at hchild
      exact below_of_mem_subdirectories horder hdir hchild
    · exact ⟨hw, fun e he => absurd he List.not_mem_nil⟩

/-- A walk registers directories below its start only. -/
theorem registerTree_descending (law : Site.Still ready) {s : σ} (hready : ready s)
    (horder : (Site.disk s).InOrder) (t : DirTree) (kinds : List EventKind) (path : Path)
    (depth : Nat) :
    Descending ready (Site.disk s) path (registerTree kinds path depth (.start s t)) := by
  have hwalks : Walks kinds [.look path depth] (.start s t)
      (registerTree kinds path depth (.start s t)) := walks_registerTree rfl path depth
  refine hwalks.preserved (P := Errand.StaysBelow path)
    (fun errand w herrand _ hw => advance_descending law horder errand w herrand hw) ?_
    ⟨hready, rfl, fun _ hdir => absurd hdir List.not_mem_nil⟩
  intro errand herrand
  rw [List.mem_singleton.mp herrand]
  exact rfl

/-! ### Where a walk is broken off -/

/-- Nothing that was registered is forgotten. -/
theorem Walks.registered {agenda : List Errand} (h : Walks kinds agenda w k)
    (hdir : dir ∈ w.registered) : dir ∈ k.registered := by
  refine h.preserved (I := fun w => dir ∈ w.registered) (P := fun _ => True)
    (fun errand w _ _ hw => ⟨?_, fun _ _ => trivial⟩)
    (fun _ _ => trivial) hdir
  rcases advance_cases kinds errand w with ⟨d, depth, -, heq⟩ | ⟨warnings, heq⟩
  · rw [heq]
    rcases enter_cases kinds d depth w with ⟨_, _, -, hentered⟩ | ⟨_, _, _, _, -, -, hentered⟩
    · rw [hentered]
      exact hw
    · rw [hentered]
      exact List.mem_append_left _ hw
  · rw [heq]
    exact hw

/-- A walk from a real directory that is broken off has registered nothing, or it has registered
that directory, and there is an entry in it. -/
theorem listed_of_refused (law : Site.Still ready) {s : σ} (hready : ready s) {top : Location}
    (hpath : (Site.disk s).lstat path = .ok (top, .dir)) (t : DirTree) (kinds : List EventKind)
    (depth : Nat) {e : WatchError}
    (hfailure : (registerTree kinds path depth (.start s t)).failure = some e) :
    (registerTree kinds path depth (.start s t)).registered = [] ∨
      path ∈ (registerTree kinds path depth (.start s t)).registered ∧
        (Site.disk s).listing path ≠ [] := by
  have hwalks : Walks kinds [.look path depth] (.start s t)
      (registerTree kinds path depth (.start s t)) := walks_registerTree rfl path depth
  generalize registerTree kinds path depth (.start s t) = k at hwalks hfailure ⊢
  have hends : ∀ {w : Walk σ}, Walks kinds [] w k → w.failure ≠ none := by
    intro w hend hnone
    rw [hend.of_nil] at hfailure
    exact absurd (hnone.symm.trans hfailure) (by simp)
  have hfooting : footing (Site.disk s) path = .directory := by
    unfold footing
    rw [hpath]
  -- first the walk looks at its start
  have hlook := hwalks.next rfl
  have hlooked : advance kinds (.look path depth) (.start s t) =
      (if t.maxDepth < depth then [] else [.enter path depth], .start s t) := by
    simp only [advance, Walk.start, hfooting]
    split <;> rfl
  rw [hlooked, List.append_nil] at hlook
  by_cases hdeep : t.maxDepth < depth
  · rw [if_pos hdeep] at hlook
    exact absurd rfl (hends hlook)
  rw [if_neg hdeep] at hlook
  -- then it enters it
  have henter := hlook.next rfl
  rw [List.append_nil] at henter
  obtain ⟨-, hdisk⟩ := law path kinds s hready
  rcases enter_cases kinds path depth (.start s t) with ⟨e', site, -, hentered⟩ |
    ⟨key, site, below, warnings, hregister, -, hentered⟩
  · simp only [advance, hentered] at henter
    rw [henter.of_failed rfl]
    exact Or.inl rfl
  · have hsite : Site.disk site = Site.disk s := by
      rw [show site = (Site.register path kinds s).2 from (congrArg Prod.snd hregister).symm]
      exact hdisk
    simp only [advance, hentered] at henter
    cases below with
    | false => exact absurd rfl (hends henter)
    | true =>
      refine Or.inr ⟨henter.registered (List.mem_append_right _ List.mem_cons_self), ?_⟩
      -- with no entry in it there would be nothing to go on to, and nothing to be refused
      intro hempty
      have hlist := henter.next rfl
      have hnone : subdirectories (Site.disk site) path = [] := by
        rw [subdirectories_eq, hsite, hempty]
        rfl
      simp only [advance, hnone, List.map_nil, ite_self, List.append_nil] at hlist
      exact absurd rfl (hends hlist)

/-! ### What is told -/

/-- All entries of these directories are among these paths. -/
def Tells (disk : Disk) (dirs told : List Path) : Prop :=
  ∀ dir ∈ dirs, ∀ entry ∈ disk.listing dir, dir.child entry.1 ∈ told

/-- What is listed in several directories is all that is in them. -/
theorem tells_existingEntries (disk : Disk) (dirs : List Path) :
    Tells disk dirs (existingEntries disk dirs).1 := by
  intro dir hdir entry hentry
  rw [existingEntries_eq]
  refine List.mem_flatMap.mpr ⟨dir, hdir, ?_⟩
  rw [entriesOf_eq, List.mem_mergeSort]
  exact List.mem_map.mpr ⟨entry, hentry, rfl⟩

/-- What is in a directory below a path is not that path. -/
theorem child_ne_of_below (horder : disk.InOrder) {names : List Bytes}
    (hdir : Path.Below path names dir) {entry : Bytes × Entry} (hentry : entry ∈ disk.listing dir) :
    dir.child entry.1 ≠ path := by
  intro heq
  have hlength := congrArg (fun p => p.components.length) heq
  rw [Path.components_child dir (horder.normal_listing hentry), hdir.components] at hlength
  simp only [List.length_append, List.length_singleton] at hlength
  omega

/-- What a call of `onCreated` comes to: an error and a walk that was broken off, or the entries of
all that was registered. -/
theorem onCreated_cases {s : σ} {t : DirTree} {key : Key}
    {answer : Except WatchError (List Path)} (h : t.onCreated s key path kinds = (answer, k)) :
    (answer = .ok [] ∧ k = .start s t) ∨
    (∃ e depth, answer = .error e ∧ k = registerTree kinds path depth (.start s t) ∧
      k.failure = some e) ∨
    ∃ depth, answer = .ok (existingEntries (Site.disk k.site) k.registered).1 ∧
      k.registered = (registerTree kinds path depth (.start s t)).registered ∧
      k.site = (registerTree kinds path depth (.start s t)).site := by
  unfold onCreated at h
  cases hdepth : t.pickupDepth? (Site.disk s) key path with
  | none =>
    rw [hdepth] at h
    obtain ⟨rfl, rfl⟩ := Prod.mk.inj h
    exact Or.inl ⟨rfl, rfl⟩
  | some depth =>
    rw [hdepth] at h
    dsimp only at h
    split at h
    · next e hfailure =>
      obtain ⟨rfl, rfl⟩ := Prod.mk.inj h
      exact Or.inr (Or.inl ⟨e, depth, rfl, rfl, hfailure⟩)
    · obtain ⟨rfl, rfl⟩ := Prod.mk.inj h
      exact Or.inr (Or.inr ⟨depth, rfl, rfl, rfl⟩)

variable {s : σ} {t : DirTree} {key : Key} {answer : Except WatchError (List Path)}

/-- The walk of a call of `onCreated` leaves the disk alone, and stays below the path. -/
theorem onCreated_descending (law : Site.Still ready) (hready : ready s)
    (horder : (Site.disk s).InOrder) (h : t.onCreated s key path kinds = (answer, k)) :
    Descending ready (Site.disk s) path k := by
  rcases onCreated_cases h with ⟨-, rfl⟩ | ⟨e, depth, -, rfl, -⟩ | ⟨depth, -, hregistered, hsite⟩
  · exact ⟨hready, rfl, fun _ hdir => absurd hdir List.not_mem_nil⟩
  · exact registerTree_descending law hready horder t kinds path depth
  · obtain ⟨hready', hdisk, hbelow⟩ := registerTree_descending law hready horder t kinds path depth
    refine ⟨?_, ?_, ?_⟩
    · rw [hsite]
      exact hready'
    · rw [hsite]
      exact hdisk
    · rw [hregistered]
      exact hbelow

/-- With the event and what was discovered all is told that is in the directories that were
registered, exactly if none was refused or nothing is in them. -/
theorem tells_iff (law : Site.Still ready) (hready : ready s) (horder : (Site.disk s).InOrder)
    (h : t.onCreated s key path kinds = (answer, k)) :
    Tells (Site.disk s) k.registered (path :: Watch.discovered answer) ↔
      (∃ found, answer = .ok found) ∨ ∀ dir ∈ k.registered, (Site.disk s).listing dir = [] := by
  have hdescending := onCreated_descending law hready horder h
  constructor
  · intro htells
    cases answer with
    | ok found => exact Or.inl ⟨found, rfl⟩
    | error e =>
      refine Or.inr fun dir hdir => List.eq_nil_iff_forall_not_mem.mpr fun entry hentry => ?_
      obtain ⟨names, hbelow⟩ := hdescending.below dir hdir
      have htold : dir.child entry.1 = path := List.mem_singleton.mp (htells dir hdir entry hentry)
      exact child_ne_of_below horder hbelow hentry htold
  · rintro (⟨found, rfl⟩ | hempty) dir hdir entry hentry
    · refine List.mem_cons_of_mem _ ?_
      rcases onCreated_cases h with ⟨-, rfl⟩ | ⟨e, depth, herror, -⟩ | ⟨depth, hfound, -, -⟩
      · exact absurd hdir List.not_mem_nil
      · exact absurd herror (by simp)
      · have hall := tells_existingEntries (Site.disk k.site) k.registered
        rw [← Except.ok.inj hfound, hdescending.disk] at hall
        exact hall dir hdir entry hentry
    · rw [hempty dir hdir] at hentry
      exact absurd hentry List.not_mem_nil

/-- When a real directory is picked up, all is told exactly if nothing was refused, or the first
directory was. -/
theorem tells_iff_of_real (law : Site.Still ready) (hready : ready s)
    (horder : (Site.disk s).InOrder) {top : Location}
    (hpath : (Site.disk s).lstat path = .ok (top, .dir))
    (h : t.onCreated s key path kinds = (answer, k)) :
    Tells (Site.disk s) k.registered (path :: Watch.discovered answer) ↔
      (∃ found, answer = .ok found) ∨ k.registered = [] := by
  rw [tells_iff law hready horder h]
  refine or_congr_right' fun hrefused => ⟨fun hempty => ?_, fun hnone dir hdir => ?_⟩
  · rcases onCreated_cases h with ⟨hok, -⟩ | ⟨e, depth, -, rfl, hfailure⟩ | ⟨depth, hok, -, -⟩
    · exact absurd ⟨_, hok⟩ hrefused
    · rcases listed_of_refused law hready hpath t kinds depth hfailure with hnone | ⟨hmem, hsome⟩
      · exact hnone
      · exact absurd (hempty path hmem) hsome
    · exact absurd ⟨_, hok⟩ hrefused
  · rw [hnone] at hdir
    exact absurd hdir List.not_mem_nil

end DirTree

namespace Watch

/-- What is told of a creation when directories may be refused.  All entries of the directories
that are registered because of it are among the event and what is discovered, exactly if the call
ends well or none of these directories has an entry; if a real directory was created, exactly if
the call ends well or that directory is refused itself.  A watch hands over the event and what is
discovered, in this order, and after a refusal nothing is discovered. -/
theorem refused_pickup_tells_the_event_alone {σ : Type} [Site σ] {ready : σ → Prop}
    (law : Site.Still ready) :
    (∀ (s : σ) (t : DirTree) (key : Key) (path : Path) (kinds : List EventKind)
      (answer : Except WatchError (List Path)) (k : DirTree.Walk σ), ready s →
      (Site.disk s).InOrder → t.onCreated s key path kinds = (answer, k) →
      let told := DirTree.Tells (Site.disk s) k.registered (path :: discovered answer)
      Site.disk k.site = Site.disk s ∧
      (told ↔ (∃ found, answer = .ok found) ∨
        ∀ dir ∈ k.registered, (Site.disk s).listing dir = []) ∧
      ∀ top, (Site.disk s).lstat path = .ok (top, .dir) →
        (told ↔ (∃ found, answer = .ok found) ∨ k.registered = [])) ∧
    ∀ (behaviour : Behaviour Wish) (rest : List Job) (w : Watch) (t : DirTree) (key : Key)
      (event : RawEvent) (path : Path) (callback : Callback)
      (answer : Except WatchError (List Path)) (k : DirTree.Walk Ground),
      w.handlers.create = some callback → w.strategy.target = .tree t →
      w.strategy.resolve w.handled key event = .path path → event.kind = .create →
      w.strategy.override.created w.handled key path = none →
      t.onCreated w.ground key path w.kinds = (answer, k) →
      ∃ log w', Advances (machine behaviour) (.handle key event :: rest) w log
          (.desk (.call callback (.observe (Site.disk k.site) .create path) .callbackPanicked) ::
            (discovered answer).map (.announce callback) ++ rest) w' ∧
        w'.desk.journal.notes = w.desk.journal.notes ∧ w'.ground = k.site ∧
        w'.strategy.target = .tree k.tree := by
  refine ⟨fun s t key path kinds answer k hready horder h => ?_,
    fun behaviour rest w t key event path callback answer k hcallback htarget hresolve hcreate hown
      h => ?_⟩
  · exact ⟨(DirTree.onCreated_descending law hready horder h).disk,
      DirTree.tells_iff law hready horder h,
      fun top hpath => DirTree.tells_iff_of_real law hready horder hpath h⟩
  · have hhandled := handle_advances behaviour rest htarget hresolve hcreate hown h
    have hjobs : w.announcements (Site.disk k.site) path (discovered answer) =
        .desk (.call callback (.observe (Site.disk k.site) .create path) .callbackPanicked) ::
          (discovered answer).map (.announce callback) := by
      unfold announcements
      rw [hcallback]
    rwa [hjobs] at hhandled

/-- In a registered directory `w` a directory `a` is created, with a file and a directory `b` in
it. -/
def pickupDisk : Disk :=
  DirTree.nestedDisk.put [[119], [97], [102]] (.file [])

/-- The tree of `w` before that is picked up. -/
def pickupTree : DirTree :=
  ⟨Location.toPath [[119]], 2, [(⟨0⟩, ⟨Location.toPath [[119]], 0⟩)]⟩

/-- The watch of `w`, with a service that refuses these directories. -/
def refusing (refused : List Path) : Watch where
  strategy := ⟨.tree pickupTree, .none⟩
  handlers := ⟨some ⟨0⟩, none, none, none⟩
  kinds := [.create]
  delay := .zero
  backend := .default
  ground := ⟨.memory { MemoryService.new { Faults.none with
      refused := refused.map fun dir => (dir, .backend ⟨.watchLimit, [dir]⟩) } with
    dirs := [(Location.toPath [[119]], ⟨0⟩)]
    nextKey := 1
    accepted := [(Location.toPath [[119]], [.create])] }, pickupDisk⟩
  executor := .new .ownThread
  desk := ⟨none, .empty⟩
  started := true
  stopped := false
  handled := 0

theorem discreet_refusing (refused : List Path) : (refusing refused).ground.service.Discreet :=
  rfl

/-- Nothing is refused: both directories are registered, and the file is told after the event. -/
theorem file_is_told_without_refusal :
    let path := Location.toPath [[119], [97]]
    let g := (refusing []).ground
    Site.Still (fun g : Ground => g.service.Discreet) ∧ g.service.Discreet ∧ g.disk.InOrder ∧
      g.disk.lstat path = .ok ([[119], [97]], .dir) ∧
    ∃ found k, pickupTree.onCreated g ⟨0⟩ path [.create] = (.ok found, k) ∧
      path.child [102] ∈ path :: found ∧
      ∃ log w', Advances (machine fun _ _ _ => .none)
        [.handle ⟨0⟩ ⟨.create, some ⟨[97]⟩⟩, .reset ⟨0⟩, .recheck] (refusing []) log
        (.desk (.call ⟨0⟩ (.observe (Site.disk k.site) .create path) .callbackPanicked) ::
          found.map (.announce ⟨0⟩) ++ [.reset ⟨0⟩, .recheck]) w' ∧ w'.ground = k.site := by
  intro path g
  have horder : g.disk.InOrder := by decide +kernel
  have hpath : g.disk.lstat path = .ok ([[119], [97]], .dir) := by decide +kernel
  obtain ⟨htells, hhandles⟩ := refused_pickup_tells_the_event_alone still_ground
  rcases hanswer : pickupTree.onCreated g ⟨0⟩ path [.create] with ⟨answer, k⟩
  have hregistered : path ∈ k.registered := by
    have hmem : path ∈ (pickupTree.onCreated g ⟨0⟩ path [.create]).2.registered := by
      decide +kernel
    rwa [hanswer] at hmem
  have hgood : (pickupTree.onCreated g ⟨0⟩ path [.create]).1.toBool = true := by decide +kernel
  rw [hanswer] at hgood
  cases answer with
  | error e => exact absurd hgood (by simp [Except.toBool])
  | ok found =>
    obtain ⟨-, -, hreal⟩ := htells g pickupTree ⟨0⟩ path [.create] (.ok found) k
      (discreet_refusing []) horder hanswer
    have htold := (hreal _ hpath).mpr (Or.inl ⟨found, rfl⟩)
    obtain ⟨log, w', hadvances, -, hground, -⟩ :=
      hhandles (fun _ _ _ => .none) [.reset ⟨0⟩, .recheck] (refusing []) pickupTree ⟨0⟩
        ⟨.create, some ⟨[97]⟩⟩ path ⟨0⟩ (.ok found) k rfl rfl (by decide +kernel) rfl rfl hanswer
    exact ⟨still_ground, discreet_refusing [], horder, hpath, found, k, rfl,
      htold path hregistered ([102], .file []) (by decide +kernel), log, w', hadvances, hground⟩

/-- The directory `b` is refused.  The other one is registered and kept, with the file in it; but
the event is handed over alone, and nothing tells of the file. -/
theorem entries_beside_a_refused_directory_are_missed :
    let path := Location.toPath [[119], [97]]
    let w := refusing [path.child [98]]
    let answered := pickupTree.onCreated w.ground ⟨0⟩ path [.create]
    w.ground.service.Discreet ∧ w.ground.disk.InOrder ∧
    w.ground.disk.lstat path = .ok ([[119], [97]], .dir) ∧
    answered.2.registered = [path] ∧ answered.2.tree.node? ⟨1⟩ = some ⟨path, 1⟩ ∧
    ([102], .file []) ∈ w.ground.disk.listing path ∧
    (∃ e, answered.1 = .error e) ∧
    path.child [102] ∉ path :: discovered answered.1 ∧
    ∃ log w', Advances (machine fun _ _ _ => .none)
      [.handle ⟨0⟩ ⟨.create, some ⟨[97]⟩⟩, .reset ⟨0⟩, .recheck] w log
      [.desk (.call ⟨0⟩ (.observe (Site.disk answered.2.site) .create path) .callbackPanicked),
        .reset ⟨0⟩, .recheck] w' := by
  intro path w answered
  have herror : answered.1 = .error (.backend ⟨.watchLimit, [path.child [98]]⟩) := by
    decide +kernel
  have hanswer : pickupTree.onCreated w.ground ⟨0⟩ path w.kinds =
      (.error (.backend ⟨.watchLimit, [path.child [98]]⟩), answered.2) := Prod.ext herror rfl
  have hresolve : w.strategy.resolve w.handled ⟨0⟩ ⟨.create, some ⟨[97]⟩⟩ = .path path := by
    decide +kernel
  obtain ⟨log, w', hadvances, -, -, -⟩ := handle_advances (fun _ _ _ => .none)
    [.reset ⟨0⟩, .recheck] rfl hresolve rfl rfl hanswer
  refine ⟨discreet_refusing _, by decide +kernel, by decide +kernel, by decide +kernel,
    by decide +kernel, by decide +kernel, ⟨_, herror⟩, ?_, log, w', hadvances⟩
  rw [herror]
  decide +kernel

end Watch

end ChangeWatch
