import ChangeWatch.Proofs.Service.Translating
import ChangeWatch.Proofs.Strategy.Walk

/-!
# Registrations, whatever they are for

Of a service, what is `bare` is which directories are registered under which keys, and whether
the backend is still held: neither the kinds that directories are registered for, nor what
waits in the queue.  Registering a directory has the same answer from a service and from what
is bare of it, and leaves the two alike (`register_bare`), since the backend refuses a
directory for its own sake alone (`watch_cases`).

So a walk over a tree comes to the same on a service and on a `Roster`, which knows no more
than that (`advance_roster`).  And where creations are among the kinds subscribed to, the
creations that a report is translated to are the same, too (`creations_plain`).
-/

namespace ChangeWatch

namespace Registry

variable {r : Registry} {dir : Path} {key : Key} {kinds : List EventKind}

/-- The same registrations, all for creations. -/
def plain (r : Registry) : Registry :=
  { r with byDir := r.byDir.map fun e => (e.1, ⟨e.2.key, [.create]⟩) }

theorem registration?_plain (r : Registry) (dir : Path) :
    r.plain.registration? dir = (r.registration? dir).map fun reg => ⟨reg.key, [.create]⟩ := by
  unfold registration? plain
  dsimp only
  rw [List.find?_map, Option.map_map, Option.map_map]
  rfl

theorem keyOf?_plain (r : Registry) (dir : Path) : r.plain.keyOf? dir = r.keyOf? dir := by
  unfold keyOf?
  rw [registration?_plain, Option.map_map]
  rfl

theorem plain_plain (r : Registry) : r.plain.plain = r.plain := by
  unfold plain
  rw [List.map_map]
  rfl

theorem plain_setDir (r : Registry) (dir : Path) (key : Key) (kinds : List EventKind) :
    (r.setDir dir ⟨key, kinds⟩).plain = r.plain.setDir dir ⟨key, [.create]⟩ := by
  have hany : r.plain.byDir.any (fun e => e.1.same dir) = r.byDir.any fun e => e.1.same dir :=
    List.any_map
  unfold setDir
  rw [hany]
  split
  · unfold plain
    dsimp only
    rw [List.map_map, List.map_map]
    congr 1
    refine List.map_congr_left fun e _ => ?_
    dsimp only [Function.comp_apply]
    split <;> rfl
  · unfold plain
    dsimp only
    rw [List.map_append]
    rfl

theorem plain_setKey (r : Registry) (key : Key) (dir : Path) :
    (r.setKey key dir).plain = r.plain.setKey key dir := by
  unfold setKey plain
  dsimp only
  split <;> rfl

theorem plain_insert (r : Registry) (dir : Path) (key : Key) (kinds : List EventKind) :
    (r.insert dir ⟨key, kinds⟩).plain = r.plain.insert dir ⟨key, [.create]⟩ := by
  unfold insert
  rw [plain_setKey, plain_setDir]

theorem plain_eraseDir (r : Registry) (dir : Path) :
    (r.eraseDir dir).plain = r.plain.eraseDir dir := by
  unfold eraseDir plain
  dsimp only
  rw [List.filter_map]
  rfl

/-! ### Creations -/

/-- What a report is translated to, as far as it is about creations. -/
def creations (r : Registry) (disk : Disk) (report : Report) : List (Key × RawEvent) :=
  ((r.translate disk report).flatMap Batch.entries).filter fun e => e.2.kind = .create

/-- Where all directories are registered for creations, creations do not depend on what else
directories are registered for. -/
theorem creations_plain (h : r.Subscribed kinds) (hcreate : .create ∈ kinds) (disk : Disk)
    (report : Report) : r.plain.creations disk report = r.creations disk report := by
  unfold creations
  cases hscan : report.rescan with
  | true =>
    have hnone : ∀ r : Registry, (((r.translate disk report).flatMap Batch.entries).filter
        fun e => e.2.kind = .create) = [] := by
      intro r
      rw [r.translate_rescan disk hscan]
      cases r.rescanKey? report.paths <;> rfl
    rw [hnone, hnone]
  | false =>
    rw [r.translate_entries disk hscan, r.plain.translate_entries disk hscan,
      List.filter_filterMap, List.filter_filterMap]
    refine List.filterMap_congr fun change _ => ?_
    -- a change of another kind is nowhere a creation, and a creation has its place in both
    unfold locate
    rw [funext r.registration?_plain]
    cases change.2.parent with
    | none => rfl
    | some parent =>
      cases change.2.fileName with
      | none => rfl
      | some name =>
        dsimp only
        cases hreg : r.registration? parent with
        | none => rfl
        | some reg =>
          rw [Option.map_some]
          dsimp only
          rw [h.kinds_eq hreg]
          by_cases hkind : change.1 = .create
          · simp [hkind, hcreate]
          · by_cases hheard : change.1 ∈ kinds <;> simp [hkind, hheard, Option.filter]

end Registry

namespace NotifyingService

/-! ### Registering -/

/-- What is registered with a service, and whether it still holds its backend. -/
def bare (s : NotifyingService) : NotifyingService :=
  ⟨s.backend.map fun _ => .new, s.registry.plain, [], false⟩

/-- A backend refuses a directory for what the disk shows there, whatever else it watches. -/
theorem watch_cases (disk : Disk) (dir : Path) :
    (∃ e, ∀ b : Backend, b.watch disk dir = .error e) ∨
      ∀ b : Backend, ∃ b', b.watch disk dir = .ok b' := by
  unfold Backend.watch
  dsimp only
  cases disk.stat (disk.cwd.toPath.join dir) with
  | ok found => exact Or.inr fun b => ⟨_, rfl⟩
  | error fault => cases fault <;> exact Or.inl ⟨_, fun _ => rfl⟩

/-- What a service answers, and what is registered with it then, does not depend on the kinds. -/
theorem register_bare (s : NotifyingService) (disk : Disk) (dir : Path) (kinds : List EventKind) :
    (s.bare.register disk dir [.create]).1 = (s.register disk dir kinds).1 ∧
      (s.bare.register disk dir [.create]).2.bare = (s.register disk dir kinds).2.bare := by
  obtain ⟨backend, r, queue, closed⟩ := s
  cases backend with
  | none => exact ⟨rfl, by simp [register, bare, Registry.plain_plain]⟩
  | some backend =>
    -- an entry loses its kinds before it is written or after
    have hwritten : ∀ (counted : Registry) (key : Key),
        (counted.plain.insert dir ⟨key, [.create]⟩).plain =
          (counted.insert dir ⟨key, kinds⟩).plain := by
      intro counted key
      rw [Registry.plain_insert, Registry.plain_insert, Registry.plain_plain]
    have hstruck : ∀ (counted : Registry) (key : Key),
        ((counted.plain.insert dir ⟨key, [.create]⟩).eraseDir dir).plain =
          ((counted.insert dir ⟨key, kinds⟩).eraseDir dir).plain := by
      intro counted key
      rw [Registry.plain_eraseDir, Registry.plain_eraseDir, hwritten]
    -- the queue and the flag are not compared
    have hsame : ∀ {backend backend' : Backend} {r r' : Registry}, r'.plain = r.plain →
        bare ⟨some backend', r', [], false⟩ = bare ⟨some backend, r, queue, closed⟩ := by
      intro backend backend' r r' hplain
      unfold bare
      rw [hplain]
      rfl
    unfold register
    dsimp only [bare, Option.map_some]
    rw [r.keyOf?_plain]
    -- the backend decides by the disk alone, so both are refused or both accepted
    rcases watch_cases disk dir with ⟨e, hrefused⟩ | haccepted
    · rw [hrefused, hrefused]
      refine ⟨rfl, hsame ?_⟩
      cases hkey : r.keyOf? dir with
      | some key => exact hwritten r key
      | none =>
        have hstruck' := hstruck { r with nextKey := r.nextKey + 1 } ⟨r.nextKey⟩
        exact congrArg (Registry.eraseKey · ⟨r.nextKey⟩) hstruck'
    · obtain ⟨b, hb⟩ := haccepted backend
      obtain ⟨b', hb'⟩ := haccepted .new
      rw [hb, hb']
      refine ⟨rfl, hsame ?_⟩
      cases hkey : r.keyOf? dir with
      | some key => exact hwritten r key
      | none => exact hwritten { r with nextKey := r.nextKey + 1 } ⟨r.nextKey⟩

end NotifyingService

/-! ### Walking -/

/-- What is registered with a service, and the disk that it watches. -/
structure Roster where
  service : NotifyingService
  disk : Disk

instance : Site Roster where
  disk r := r.disk
  register dir _ r :=
    let (answer, s) := r.service.register r.disk dir [.create]
    (answer, ⟨s.bare, r.disk⟩)

namespace NotifyingService

/-- What is registered with a service that watches this disk. -/
def roster (s : NotifyingService) (disk : Disk) : Roster := ⟨s.bare, disk⟩

theorem register_roster (s : NotifyingService) (disk : Disk) (dir : Path)
    (kinds : List EventKind) :
    Site.register dir [] (s.roster disk) =
      ((s.register disk dir kinds).1, (s.register disk dir kinds).2.roster disk) := by
  obtain ⟨hanswer, hbare⟩ := s.register_bare disk dir kinds
  show (_, _) = _
  exact Prod.ext hanswer (congrArg (Roster.mk · disk) hbare)

end NotifyingService

namespace DirTree

/-- Whether a walk goes on below a directory that was registered, and what is noted of it. -/
def onward (t : DirTree) (disk : Disk) (dir : Path) (depth : Nat) : Bool × List Warning :=
  if t.maxDepth ≤ depth then (false, [])
  else if disk.isDir dir then (true, [])
  else (false, [.unreadableEntry])

/-- What becomes of a directory that was registered depends on the disk and the tree alone. -/
theorem enter_of_register {σ : Type} [Site σ] {site site' : σ} {dir : Path}
    {kinds : List EventKind} {key : Key} (h : Site.register dir kinds site = (.ok key, site'))
    (t : DirTree) (depth : Nat) :
    enter kinds dir depth (.start site t) = ((t.onward (Site.disk site) dir depth).1,
      ⟨site', t.setNode key ⟨dir, depth⟩, [dir], (t.onward (Site.disk site) dir depth).2,
        none⟩) := by
  unfold enter onward
  dsimp only [Walk.start]
  rw [h]
  by_cases hdeep : t.maxDepth ≤ depth
  · simp [hdeep]
  · by_cases hdir : (Site.disk site).isDir dir = true <;> simp [hdeep, hdir]

/-- A step of a walk comes to the same on a service and on what is registered with it. -/
theorem advance_roster (s : NotifyingService) (disk : Disk) (t : DirTree) (kinds : List EventKind)
    (errand : Errand) : ∃ more s' tree registered warnings failure,
      advance kinds errand (.start (⟨.notifying s, disk⟩ : Ground) t) =
        (more, ⟨⟨.notifying s', disk⟩, tree, registered, warnings, failure⟩) ∧
      advance [] errand (.start (s.roster disk) t) =
        (more, ⟨s'.roster disk, tree, registered, warnings, failure⟩) := by
  have hground : Site.disk (⟨.notifying s, disk⟩ : Ground) = disk := rfl
  have hroster : Site.disk (s.roster disk) = disk := rfl
  -- looking and listing ask the disk alone
  cases errand with
  | look start depth =>
    by_cases hdeep : t.maxDepth < depth
    · exact ⟨[], s, t, [], [], none, if_pos hdeep, if_pos hdeep⟩
    · simp only [advance, Walk.start, if_neg hdeep, hground, hroster]
      cases footing disk start <;> exact ⟨_, s, _, _, _, _, rfl, rfl⟩
  | list dir depth =>
    by_cases hbelow : depth < t.maxDepth
    · exact ⟨_, s, t, [], [], none, if_pos hbelow, if_pos hbelow⟩
    · exact ⟨[], s, t, [], [], none, if_neg hbelow, if_neg hbelow⟩
  | enter dir depth =>
    -- entering registers the directory, with the same answer on both sides
    have hservice : Site.register dir kinds (⟨.notifying s, disk⟩ : Ground) =
        ((s.register disk dir kinds).1, ⟨.notifying (s.register disk dir kinds).2, disk⟩) := rfl
    have hlisted := s.register_roster disk dir kinds
    rcases hanswer : s.register disk dir kinds with ⟨e | key, s'⟩ <;>
      rw [hanswer] at hservice hlisted
    · refine ⟨[], s', t, [], [], some e, ?_, ?_⟩
      · simp only [advance, enter, Walk.start, hservice]
      · simp only [advance, enter, Walk.start, hlisted]
    · have hentered := enter_of_register hservice t depth
      have hentered' := enter_of_register hlisted t depth
      rw [hground] at hentered
      rw [hroster] at hentered'
      simp only [advance, hentered, hentered']
      rcases t.onward disk dir depth with ⟨_ | _, warnings⟩ <;>
        exact ⟨_, s', _, _, _, _, rfl, rfl⟩

end DirTree

end ChangeWatch
