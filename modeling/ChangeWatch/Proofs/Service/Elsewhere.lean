import ChangeWatch.Proofs.Service.Refusing
import ChangeWatch.Proofs.Service.Splitting

/-!
# What an operation on one directory leaves alone

Two operations of a service concern one directory: it is registered, whether the backend accepts
it or refuses it, or the key that leads to it is reset (`Deals`).  In whatever state a service is
found, neither touches what is registered elsewhere (`Deals.elsewhere`).  A change has its place
by the directory that holds its path, so a report of which no path `LiesIn` the directory is told
as it would have been before (`Elsewhere.translate`).

A reset either changes nothing or strikes out the registration of its key, and that alone
(`Cancels`); which of the two it is, and what is answered, hangs on whether the key leads to
something that is a directory (`operation_leaves_others_alone`).
-/

namespace ChangeWatch

/-- A path is that of an entry of a directory, however the directory is spelled. -/
def Path.LiesIn (p dir : Path) : Prop :=
  ∃ n ∈ p.fileName, p.components = dir.components ++ [.name n]

instance (p dir : Path) : Decidable (p.LiesIn dir) :=
  inferInstanceAs (Decidable (∃ n ∈ p.fileName, _))

/-- A path that has a parent and a last name lies in its parent. -/
theorem Path.liesIn_of_parent {p parent dir : Path} {n : Bytes} (hparent : p.parent = some parent)
    (hname : p.fileName = some n) (hsame : dir.same parent = true) : p.LiesIn dir := by
  obtain ⟨q, hq, hcomponents⟩ := Path.parent_of_fileName hname
  obtain rfl := Option.some.inj (hparent.symm.trans hq)
  refine ⟨n, hname, ?_⟩
  rw [hcomponents, Path.same_iff.mp hsame]

/-- The changes of a report are about its paths. -/
theorem Report.changes_path (report : Report) (disk : Disk) :
    ∀ change ∈ report.changes disk, change.2 ∈ report.paths := by
  intro change hchange
  rw [report.changes_eq_pairs disk] at hchange
  obtain ⟨⟨path, place⟩, hmem, hkind⟩ := List.mem_filterMap.mp hchange
  obtain ⟨kind, -, rfl⟩ := Option.map_eq_some_iff.mp hkind
  exact List.fst_mem_of_mem_zipIdx hmem

namespace Registry

variable {r r' : Registry} {dir : Path} {key : Key}

/-- All that is registered elsewhere than under a directory is the same. -/
structure Elsewhere (dir : Path) (r r' : Registry) : Prop where
  registrations : ∀ p, dir.same p = false → r'.registration? p = r.registration? p
  dirs : ∀ key p, dir.same p = false → (r'.dirOf? key = some p ↔ r.dirOf? key = some p)

theorem Elsewhere.refl (dir : Path) (r : Registry) : Elsewhere dir r r :=
  ⟨fun _ _ => rfl, fun _ _ _ => Iff.rfl⟩

/-- What is elsewhere than a directory does not depend on how the directory is spelled. -/
theorem Elsewhere.congr {p : Path} (h : Elsewhere p r r') (hsame : dir.same p = true) :
    Elsewhere dir r r' := by
  have hother : ∀ q, dir.same q = false → p.same q = false := by
    intro q hq
    refine Bool.eq_false_iff.mpr fun hp => ?_
    have hboth : dir.same q = true :=
      Path.same_iff.mpr ((Path.same_iff.mp hsame).trans (Path.same_iff.mp hp))
    exact Bool.false_ne_true (hq.symm.trans hboth)
  exact ⟨fun q hq => h.registrations q (hother q hq), fun key q hq => h.dirs key q (hother q hq)⟩

/-- Registering a directory under a key that leads nowhere else changes nothing elsewhere. -/
theorem elsewhere_insert (hkey : ∀ p, r.dirOf? key = some p → dir.same p = true)
    (kinds : List EventKind) : Elsewhere dir r (r.insert dir ⟨key, kinds⟩) := by
  constructor
  · intro p hother
    rw [registration?_insert, hother, if_neg Bool.false_ne_true]
  · intro key' p hother
    rw [dirOf?_insert]
    split
    · next heq =>
      have hself : dir.same dir = true := Path.same_iff.mpr rfl
      constructor
      · intro hdir
        obtain rfl := Option.some.inj hdir
        exact absurd (hself.symm.trans hother) (by simp)
      · intro hdir
        rw [heq] at hdir
        exact absurd ((hkey p hdir).symm.trans hother) (by simp)
    · exact Iff.rfl

/-- Striking out a directory that has a key changes nothing elsewhere. -/
theorem elsewhere_erase (hkey : r.dirOf? key = some dir) :
    Elsewhere dir r ((r.eraseKey key).eraseDirOf dir key) := by
  constructor
  · intro p hother
    unfold registration? eraseDirOf eraseKey
    dsimp only
    rw [List.find?_filter]
    refine congrArg _ (congrArg (List.find? · r.byDir) (funext fun entry => ?_))
    cases hsame : entry.1.same p with
    | false => simp
    | true =>
      -- what is found under the path is not under the directory, so it is kept
      have hdir : entry.1.same dir = false := by
        refine Bool.eq_false_iff.mpr fun hdir => ?_
        rw [Path.same_iff] at hsame hdir
        have hboth : dir.same p = true := Path.same_iff.mpr (hdir.symm.trans hsame)
        exact Bool.false_ne_true (hother.symm.trans hboth)
      simp [hdir]
  · intro key' p hother
    have hleads : ((r.eraseKey key).eraseDirOf dir key).dirOf? key' =
        if key' = key then none else r.dirOf? key' := r.dirOf?_eraseKey key key'
    rw [hleads]
    split
    · next heq =>
      refine ⟨fun hnone => absurd hnone (by simp), fun hdir => ?_⟩
      rw [heq, hkey] at hdir
      obtain rfl := Option.some.inj hdir
      exact absurd (Path.same_iff.mpr rfl) (by rw [hother]; exact Bool.false_ne_true)
    · exact Iff.rfl

/-- A report without a path in the directory is told alike by registries that are alike
elsewhere. -/
theorem Elsewhere.translate (h : Elsewhere dir r r') (disk : Disk) {report : Report}
    (hscan : report.rescan = false) (hpaths : ∀ p ∈ report.paths, ¬p.LiesIn dir) :
    r'.translate disk report = r.translate disk report := by
  -- only the directory that holds the path of a change is looked up for it
  have hlocate : ∀ change ∈ report.changes disk, r'.locate change = r.locate change := by
    intro change hchange
    unfold locate
    split
    · next parent name hparent hname =>
      have hother : dir.same parent = false := by
        refine Bool.eq_false_iff.mpr fun hsame => ?_
        exact hpaths _ (report.changes_path disk change hchange)
          (Path.liesIn_of_parent hparent hname hsame)
      rw [h.registrations parent hother]
    · rfl
  unfold Registry.translate
  rw [if_neg (by rw [hscan]; exact Bool.false_ne_true),
    if_neg (by rw [hscan]; exact Bool.false_ne_true), List.filterMap_congr hlocate]

end Registry

namespace NotifyingService

open Registry (Elsewhere)

variable {s s' : NotifyingService} {disk : Disk} {dir : Path} {key : Key}

/-! ### Operations on one directory -/

/-- What is asked of a service about one directory, and the service after it. -/
inductive Deals (s : NotifyingService) (disk : Disk) (dir : Path) : NotifyingService → Prop
  | register (kinds : List EventKind) : Deals s disk dir (s.register disk dir kinds).2
  /-- A key is reset that leads to a spelling of the directory. -/
  | reset {key : Key} {p : Path} : s.registry.dirOf? key = some p → dir.same p = true →
      Deals s disk dir (s.reset disk key).2

/-- What a reset leaves of a service when it cancels the registration of a key. -/
structure Cancels (s s' : NotifyingService) (disk : Disk) (key : Key) (dir : Path) : Prop where
  /-- The backend is told to give up the directory; nothing else but the registry is touched. -/
  only : s' = { s with
    registry := s'.registry, backend := s.backend.map fun b => b.unwatch disk dir }
  counter : s'.registry.nextKey = s.registry.nextKey
  /-- The directory has no registration any more, however it is spelled. -/
  directory : ∀ p, dir.same p = true → s'.registry.registration? p = none
  /-- Its key leads nowhere, and every other key leads where it did. -/
  keys : ∀ key', s'.registry.dirOf? key' = if key' = key then none else s.registry.dirOf? key'
  elsewhere : Elsewhere dir s.registry s'.registry

/-- A directory that is registered is written down under a key that leads nowhere else, or it
leaves the registrations as they are. -/
theorem register_written (h : s.registry.Coherent) (disk : Disk) (dir : Path)
    (kinds : List EventKind) : ∃ nextKey,
      (s.register disk dir kinds).2.registry = { s.registry with nextKey } ∨
      ∃ key, (∀ p, s.registry.dirOf? key = some p → dir.same p = true) ∧
        (s.register disk dir kinds).2.registry =
          Registry.insert { s.registry with nextKey } dir ⟨key, kinds⟩ := by
  have hknown : ∀ {key}, s.registry.keyOf? dir = some key →
      ∀ p, s.registry.dirOf? key = some p → dir.same p = true := by
    intro key hkey p hp
    have hentry := Registry.mem_keyEntries_of_dirOf? hp
    exact Path.same_iff.mpr (h.dir_unique (h.keyOf?_iff.mp hkey) hentry)
  -- what a refusal leaves behind is known; else the registration was written down
  cases hanswer : (s.register disk dir kinds).1 with
  | error e =>
    rcases register_of_error h hanswer with ⟨-, heq⟩ | ⟨-, key, hkey, heq⟩ | ⟨-, -, heq⟩
    · exact ⟨s.registry.nextKey, Or.inl (by rw [heq])⟩
    · exact ⟨s.registry.nextKey, Or.inr ⟨key, hknown hkey, by rw [heq]⟩⟩
    · exact ⟨s.registry.nextKey + 1, Or.inl (by rw [heq])⟩
  | ok key =>
    unfold register at hanswer ⊢
    cases hbackend : s.backend with
    | none =>
      rw [hbackend] at hanswer
      exact absurd hanswer (by simp)
    | some backend =>
      rw [hbackend] at hanswer
      dsimp only at hanswer ⊢
      cases hwatch : backend.watch disk dir with
      | error fault =>
        rw [hwatch] at hanswer
        exact absurd hanswer (by simp)
      | ok backend' =>
        cases hkey : s.registry.keyOf? dir with
        | some key' => exact ⟨s.registry.nextKey, Or.inr ⟨key', hknown hkey, rfl⟩⟩
        | none =>
          refine ⟨s.registry.nextKey + 1, Or.inr ⟨⟨s.registry.nextKey⟩, fun p hp => ?_, rfl⟩⟩
          -- the next key leads nowhere yet
          exact absurd (Registry.mem_keyEntries_of_dirOf? hp) (h.next_new _)

/-- Striking out the registration of a key cancels it. -/
theorem cancels_erase (h : s.registry.Coherent) (hkey : s.registry.dirOf? key = some dir) :
    Cancels s { s with
      registry := (s.registry.eraseKey key).eraseDirOf dir key
      backend := s.backend.map fun b => b.unwatch disk dir } disk key dir := by
  refine ⟨rfl, rfl, fun p hsame => ?_, s.registry.dirOf?_eraseKey key,
    Registry.elsewhere_erase hkey⟩
  -- only the entry of the key is under the directory, and it is struck out
  refine Option.map_eq_none_iff.mpr (List.find?_eq_none.mpr fun entry hentry hp => ?_)
  obtain ⟨d, reg⟩ := entry
  obtain ⟨hmem, hkept⟩ := List.mem_filter.mp hentry
  have hdir : d.components = dir.components :=
    (Path.same_iff.mp hp).trans (Path.same_iff.mp hsame).symm
  have hreg : reg.key = key := by
    have hold : (reg.key, dir.components) ∈ s.registry.dirEntries :=
      List.mem_map.mpr ⟨(d, reg), hmem, by rw [hdir]⟩
    exact h.key_unique (h.inverse ▸ hold) (Registry.mem_keyEntries_of_dirOf? hkey)
  simp [Path.same_iff.mpr hdir, hreg] at hkept

/-- Whatever is done to one directory, nothing changes elsewhere. -/
theorem Deals.elsewhere (hdeals : Deals s disk dir s') (h : s.registry.Coherent) :
    Elsewhere dir s.registry s'.registry := by
  cases hdeals with
  | register kinds =>
    obtain ⟨nextKey, heq | ⟨key, hkey, heq⟩⟩ := register_written h disk dir kinds
    · rw [heq]
      exact ⟨fun _ _ => rfl, fun _ _ _ => Iff.rfl⟩
    · have hinsert := Registry.elsewhere_insert (r := { s.registry with nextKey }) hkey kinds
      rw [heq]
      exact ⟨hinsert.registrations, hinsert.dirs⟩
  | @reset key p hkey hsame =>
    generalize hreset : s.reset disk key = answer
    cases hreset ▸ s.resets disk key with
    | closed => exact .refl dir s.registry
    | unknown => exact .refl dir s.registry
    | there => exact .refl dir s.registry
    | cancelled _ hkey' =>
      obtain rfl := Option.some.inj (hkey.symm.trans hkey')
      exact (Registry.elsewhere_erase hkey).congr hsame

/-! ### Others are left alone -/

/-- Whatever state a service is found in while it is open: a reset answers that the key leads to
a directory, and then changes nothing; it cancels the registration of a key that leads to
something that is no directory (any more), and that alone; and a key that leads nowhere it leaves
there.  Whatever is done to one directory, all others keep their keys and kinds, and a report
without a path in the directory is told as it would have been before. -/
theorem operation_leaves_others_alone (h : Reachable s) (hopen : s.closed = false) :
    (∀ disk key,
      ((s.reset disk key).1 = true ↔
        ∃ dir, s.registry.dirOf? key = some dir ∧ disk.isDir dir = true) ∧
      ((s.reset disk key).1 = true → (s.reset disk key).2 = s) ∧
      (s.registry.dirOf? key = none → s.reset disk key = (false, s)) ∧
      ∀ dir, s.registry.dirOf? key = some dir → disk.isDir dir = false →
        (s.reset disk key).1 = false ∧ Cancels s (s.reset disk key).2 disk key dir) ∧
    ∀ disk dir s', Deals s disk dir s' → Elsewhere dir s.registry s'.registry ∧
      ∀ disk' (report : Report), report.rescan = false →
        (∀ p ∈ report.paths, ¬p.LiesIn dir) →
        s'.registry.translate disk' report = s.registry.translate disk' report := by
  refine ⟨fun disk key => ?_, fun disk dir s' hdeals => ?_⟩
  · generalize hreset : s.reset disk key = answer
    -- the four ends of a reset; the service is open
    cases hreset ▸ s.resets disk key with
    | closed hclosed => exact absurd (hclosed.symm.trans hopen) (by simp)
    | unknown hnone =>
      rw [hnone]
      simp
    | @there dir _ hkey hdir =>
      refine ⟨⟨fun _ => ⟨dir, hkey, hdir⟩, fun _ => rfl⟩, fun _ => rfl,
        fun hnone => absurd (hkey.symm.trans hnone) (by simp), fun dir' hsome hgone => ?_⟩
      obtain rfl := Option.some.inj (hkey.symm.trans hsome)
      exact absurd (hdir.symm.trans hgone) (by simp)
    | @cancelled dir _ hkey hgone =>
      refine ⟨⟨fun hanswer => absurd hanswer (by simp), ?_⟩,
        fun hanswer => absurd hanswer (by simp),
        fun hnone => absurd (hkey.symm.trans hnone) (by simp), fun dir' hsome _ => ?_⟩
      · rintro ⟨dir', hsome, hdir⟩
        obtain rfl := Option.some.inj (hkey.symm.trans hsome)
        exact absurd (hdir.symm.trans hgone) (by simp)
      · obtain rfl := Option.some.inj (hkey.symm.trans hsome)
        exact ⟨rfl, cancels_erase h.coherent hkey⟩
  · -- what is done to one directory is written under its path alone
    have helsewhere := hdeals.elsewhere h.coherent
    exact ⟨helsewhere, fun disk' report hscan hpaths => helsewhere.translate disk' hscan hpaths⟩

/-- A service with `/v` and `/w` registered for creations. -/
def ofTwoDirectories : NotifyingService :=
  (ofOneDirectory.register (Disk.empty.put [[118]] .dir) (Location.toPath [[118]]) [.create]).2

/-- `/v` is still there and `/w` is gone: the reset of its key is the end of that registration,
and an entry that is created in `/v` is told as before. -/
theorem reset_of_gone_leaves_the_other :
    let left := Disk.empty.put [[118]] .dir
    let after := (ofTwoDirectories.reset left ⟨0⟩).2
    let created : Report := ⟨.create, [Location.toPath [[118], [97]]], false⟩
    (ofTwoDirectories.reset left ⟨1⟩) = (true, ofTwoDirectories) ∧
    (ofTwoDirectories.reset left ⟨0⟩).1 = false ∧
    after.registry.registration? (Location.toPath [[119]]) = none ∧
    after.registry.registration? (Location.toPath [[118]]) = some ⟨⟨1⟩, [.create]⟩ ∧
    after.registry.translate left created = [⟨⟨1⟩, [⟨.create, some ⟨[97]⟩⟩]⟩] := by
  intro left after created
  have hreachable : ofTwoDirectories.Reachable := .register _ _ _ reachable_ofOneDirectory
  have hkey : ofTwoDirectories.registry.dirOf? ⟨0⟩ = some (Location.toPath [[119]]) := by
    decide +kernel
  have hother : ofTwoDirectories.registry.dirOf? ⟨1⟩ = some (Location.toPath [[118]]) := by
    decide +kernel
  have hopen : ofTwoDirectories.closed = false := by decide +kernel
  obtain ⟨hreset, helsewhere⟩ := operation_leaves_others_alone hreachable hopen
  obtain ⟨hfalse, hcancels⟩ := (hreset left ⟨0⟩).2.2.2 _ hkey (by decide +kernel)
  obtain ⟨hanswer, hsame, -⟩ := hreset left ⟨1⟩
  have htrue : (ofTwoDirectories.reset left ⟨1⟩).1 = true :=
    hanswer.mpr ⟨_, hother, by decide +kernel⟩
  have hdeals : Deals ofTwoDirectories left (Location.toPath [[119]]) after :=
    .reset hkey (by decide +kernel)
  obtain ⟨hwritten, htold⟩ := helsewhere left _ after hdeals
  refine ⟨Prod.ext htrue (hsame htrue), hfalse, hcancels.directory _ (by decide +kernel), ?_, ?_⟩
  · rw [hwritten.registrations _ (by decide +kernel)]
    decide +kernel
  · rw [htold left created rfl (by decide +kernel)]
    decide +kernel

end NotifyingService

end ChangeWatch
