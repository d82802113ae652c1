import ChangeWatch.Proofs.Strategy.Preparing
import ChangeWatch.Strategy.FileTarget

/-!
# What is accepted as a file to watch

A file target is accepted together with the directory that holds it, which is made when it is
missing.  What is asked before, and of which path, decides what may be accepted
(`accepted_target_stands_in_parent`).

That the target is no directory is asked of the path as it was given, before anything is made.
Where the directory was there, the path leads nowhere else afterwards; but a path that goes up
from a directory that is missing leads nowhere at first, and may lead to a directory once the
missing one was made.  Of the directory it is only asked that something is there, which may be a
file.  Both are accepted (`targets_are_accepted_amiss`).
-/

namespace ChangeWatch.FileTarget

variable {disk made : Disk} {p : Path} {t : FileTarget} {n : Bytes}

/-- A path is written behind its directory part, with its last name. -/
theorem directoryOf_behind (h : p.fileName = some n) :
    (directoryOf p).Behind p n ∧ Path.Normal n := by
  obtain ⟨q, hparent, hname⟩ := Path.parent_of_fileName h
  obtain ⟨last, c, hbehind, hcomponents, hc⟩ := Path.behind_parent hparent
  have hdirectory : directoryOf p = if q.bytes = [] then .here else q := by
    unfold directoryOf
    rw [hparent]
  obtain rfl : c = .name n :=
    List.singleton_inj.mp (List.append_cancel_left (hcomponents.symm.trans hname))
  -- the first part of a relative path, if it is a name, is one like others
  have hinner : Path.innerComponent last = some (.name n) := by
    rcases hc with hc | ⟨-, hc⟩
    · exact hc
    · unfold Path.firstComponent at hc
      split at hc
      · exact absurd hc (by simp)
      · exact hc
  obtain ⟨hnormal, heq⟩ := hbehind.normal hinner (by simp)
  obtain rfl := Component.name.inj heq
  exact ⟨hdirectory ▸ hbehind, hnormal⟩

/-- The directory part of a path without `..` has none either. -/
theorem up_not_mem_directoryOf (hup : Component.up ∉ p.components) :
    Component.up ∉ (directoryOf p).components := by
  unfold directoryOf
  split
  · next q hparent =>
    split
    · decide
    · exact Path.up_not_mem_parent hparent hup
  · decide

/-- A target is refused because the path has no last name, or is that of a directory, and then
nothing is changed; or because of its directory. -/
theorem prepare_of_error {e : WatchError} (h : prepare disk p = (.error e, made)) :
    p.fileName = none ∧ e = .namesNoFile p ∧ made = disk ∨
      p.fileName ≠ none ∧ (e = .directoryGiven p ∧ made = disk ∨
        ∃ fault, e = .io (directoryOf p) fault) := by
  unfold prepare at h
  split at h
  · next hname =>
    obtain ⟨herror, rfl⟩ := Prod.mk.inj h
    exact Or.inl ⟨hname, (Except.error.inj herror).symm, rfl⟩
  · next name hname =>
    refine Or.inr ⟨by rw [hname]; simp, ?_⟩
    split at h
    · obtain ⟨herror, rfl⟩ := Prod.mk.inj h
      exact Or.inl ⟨(Except.error.inj herror).symm, rfl⟩
    · dsimp only at h
      split at h
      · next fault hfault =>
        obtain ⟨herror, -⟩ := Prod.mk.inj h
        exact Or.inr ⟨fault, (Except.error.inj herror).symm⟩
      · exact absurd (Prod.mk.inj h).1 (by simp)

/-- What a target that is accepted was made of. -/
theorem prepare_eq (h : prepare disk p = (.ok t, made)) :
    p.fileName = some t.name ∧ t.path = t.parent.child t.name ∧ disk.isDir p = false ∧
      made.canonicalize (directoryOf p) = .ok t.parent ∧
      (disk.exists? (directoryOf p) = true ∧ made = disk ∨
        disk.exists? (directoryOf p) = false ∧
          disk.createDirAll (directoryOf p) = (.ok (), made)) := by
  -- the checks in their order: a name, no directory in its place, and a parent
  unfold prepare at h
  split at h
  · exact absurd (Prod.mk.inj h).1 (by simp)
  · next name hname =>
    split at h
    · exact absurd (Prod.mk.inj h).1 (by simp)
    · next hdir =>
      rw [Bool.not_eq_true] at hdir
      dsimp only at h
      split at h
      · exact absurd (Prod.mk.inj h).1 (by simp)
      · next parent hparent =>
        obtain ⟨htarget, hmade⟩ := Prod.mk.inj h
        obtain rfl := Except.ok.inj htarget
        rw [hmade] at hparent
        -- the parent was there, or it was made
        cases hexists : disk.exists? (directoryOf p) with
        | true =>
          rw [if_pos hexists] at hmade hparent
          exact ⟨hname, rfl, hdir, hparent, Or.inl ⟨rfl, hmade.symm⟩⟩
        | false =>
          rw [if_neg (by rw [hexists]; simp)] at hmade hparent
          cases hverdict : (disk.createDirAll (directoryOf p)).1 with
          | error fault =>
            rw [hverdict] at hparent
            exact absurd hparent (by simp [Except.bind])
          | ok u =>
            rw [hverdict] at hparent
            exact ⟨hname, rfl, hdir, hparent, Or.inr ⟨rfl, Prod.ext hverdict hmade⟩⟩

/-- The directory of a target that is accepted is what its directory part leads to; that is a
directory, or a file that was there before. -/
theorem prepare_parent (horder : disk.InOrder) (hcwd : disk.entry? disk.cwd = some .dir)
    (h : prepare disk p = (.ok t, made)) :
    ∃ top e, t.parent = Location.toPath top ∧ top.Short ∧ made.InOrder ∧ made.entry? top = some e ∧
      made.stat (directoryOf p) = .ok (top, e) ∧
      (e = .dir ∨ made = disk ∧ ∃ content, e = .file content) := by
  obtain ⟨-, -, -, hparent, hmade⟩ := prepare_eq h
  obtain ⟨top, e, hstat, hshort, htop⟩ := Disk.canonicalize_eq_ok_iff.mp hparent
  have hmore : disk.MoreDirs made := by
    rcases hmade with ⟨-, rfl⟩ | ⟨-, hall⟩
    · exact .refl horder
    · have hmore := horder.moreDirs_createDirAll hcwd (directoryOf p)
      rwa [hall] at hmore
  obtain ⟨hentry, hnolink⟩ := hmore.inOrder.stands_of_stat (Or.inr (hmore.entry?_cwd hcwd)) hstat
  refine ⟨top, e, htop, hshort, hmore.inOrder, hentry, hstat, ?_⟩
  rcases hmade with ⟨-, rfl⟩ | ⟨-, hall⟩
  · cases e with
    | dir => exact Or.inl rfl
    | file content => exact Or.inr ⟨rfl, content, rfl⟩
    | link target => exact absurd rfl (hnolink target)
  · -- what was made is a directory
    have hne := (Disk.unfit?_eq_none_iff.mp (Disk.fit_of_stat hstat)).2.1
    obtain ⟨there, hthere⟩ := Disk.isDir_iff.mp (Disk.isDir_of_createDirAll hne hall)
    exact Or.inl (Prod.mk.inj (Except.ok.inj (hstat.symm.trans hthere))).2

/-- A path that is no directory before its directory part is made is one afterwards only if it goes
up. -/
theorem up_mem_of_isDir (horder : disk.InOrder) (hcwd : disk.entry? disk.cwd = some .dir)
    (hname : p.fileName = some n) (hbefore : disk.isDir p = false)
    (hmade : disk.createDirAll (directoryOf p) = (.ok (), made)) (hdir : made.isDir p = true) :
    Component.up ∈ p.components := by
  by_contra hup
  have hnew := horder.makeChain_new hcwd (up_not_mem_directoryOf hup) hmade
  rcases hnew with rfl | ⟨top, hstat, hempty⟩
  · exact absurd (hbefore.symm.trans hdir) (by simp)
  · -- nothing is in the directory that was made, so the name leads nowhere
    obtain ⟨hbehind, hnormal⟩ := directoryOf_behind hname
    have hnot := Disk.not_isDir_behind hbehind hnormal hstat (hempty n)
    exact absurd (hnot.symm.trans hdir) (by simp)

/-! ### Targets that are accepted -/

/-- Whatever is on a disk in order, and whatever path is given: a target that is accepted has the
last name of the path and stands under it in its directory, whose path is absolute and passes no
link.  This is what the directory part of the path leads to: a directory, or a file that was there
before.  The target is a directory only if the given path is one as well (but for paths that the
system gives up on), which it was not before; so its directory part was missing, and it goes up
on the way. -/
theorem accepted_target_stands_in_parent (horder : disk.InOrder)
    (hcwd : disk.entry? disk.cwd = some .dir) (h : prepare disk p = (.ok t, made)) :
    p.fileName = some t.name ∧ t.path = t.parent.child t.name ∧
    (∃ top e, t.parent = Location.toPath top ∧ made.lstat t.parent = .ok (top, e) ∧
      made.stat (directoryOf p) = .ok (top, e) ∧
      (e = .dir ∨ made = disk ∧ ∃ content, e = .file content)) ∧
    (made.isDir t.path = true → made.GivesUp p ∨ made.isDir p = true ∧
      disk.exists? (directoryOf p) = false ∧ Component.up ∈ p.components) ∧
    (made.isDir p = true → made.isDir t.path = true ∨ made.GivesUp t.path) := by
  obtain ⟨hname, hpath, hbefore, -, hmade⟩ := prepare_eq h
  obtain ⟨top, e, htop, hshort, horder', hentry, hstat, he⟩ := prepare_parent horder hcwd h
  obtain ⟨hbehind, hnormal⟩ := directoryOf_behind hname
  have hchild : t.parent.Behind t.path t.name := by
    rw [hpath]
    refine Path.behind_child ?_ hnormal
    rw [htop]
    simp [Location.toPath]
  -- whatever leads to a directory now, while the path did not, goes up
  have hnew : made.isDir p = true →
      disk.exists? (directoryOf p) = false ∧ Component.up ∈ p.components := by
    intro hdir
    rcases hmade with ⟨-, rfl⟩ | ⟨hmissing, hall⟩
    · exact absurd (hbefore.symm.trans hdir) (by simp)
    · exact ⟨hmissing, up_mem_of_isDir horder hcwd hname hbefore hall hdir⟩
  refine ⟨hname, hpath, ⟨top, e, htop, htop ▸ horder'.lstat_toPath hentry hshort, hstat, he⟩, ?_⟩
  rcases he with rfl | ⟨-, content, rfl⟩
  · have hparent : made.stat t.parent = .ok (top, .dir) :=
      htop ▸ horder'.stat_toPath (by simp) hentry hshort
    refine ⟨fun hdir => ?_, Disk.isDir_beside hbehind hchild hnormal.nonempty hstat hparent⟩
    rcases Disk.isDir_beside hchild hbehind hnormal.nonempty hparent hstat hdir with hdir | hgives
    · exact Or.inr ⟨hdir, hnew hdir⟩
    · exact Or.inl hgives
  · -- nothing is below a file
    have hparent : made.stat t.parent = .ok (top, .file content) :=
      htop ▸ horder'.stat_toPath (by simp) hentry hshort
    refine ⟨fun hdir => ?_, fun hdir => ?_⟩
    · exact absurd ((Disk.not_isDir_behind_file hchild hparent).symm.trans hdir) (by simp)
    · exact absurd ((Disk.not_isDir_behind_file hbehind hstat).symm.trans hdir) (by simp)

/-- The directory of a target is made, and the target is none. -/
theorem target_in_missing_directory_is_accepted :
    let disk := Disk.empty
    let p : Path := .ofString "a/f"
    let made := disk.put [[97]] .dir
    let t : FileTarget := ⟨Location.toPath [[97], [102]], Location.toPath [[97]], [102]⟩
    disk.InOrder ∧ prepare disk p = (.ok t, made) ∧ made.isDir t.parent = true ∧
      made.isDir t.path = false := by
  intro disk p made t
  have horder : disk.InOrder := by decide +kernel
  have hprepared : prepare disk p = (.ok t, made) := by decide +kernel
  obtain ⟨-, -, -, hroot, -⟩ := accepted_target_stands_in_parent horder rfl hprepared
  refine ⟨horder, hprepared, by decide +kernel, Bool.eq_false_iff.mpr fun hdir => ?_⟩
  rcases hroot hdir with hgives | ⟨-, -, hup⟩
  · exact absurd hgives (by unfold Disk.GivesUp; decide +kernel)
  · exact absurd hup (by decide +kernel)

/-- A directory is accepted that is spelled by a way through a directory that is missing, and a
target in a file. -/
theorem targets_are_accepted_amiss :
    let disk := Disk.empty.put [[100]] .dir
    let p : Path := .ofString "x/../d"
    let t : FileTarget := ⟨Location.toPath [[100]], Location.toPath [], [100]⟩
    let disk' := Disk.empty.put [[102]] (.file [])
    let t' : FileTarget := ⟨Location.toPath [[102], [120]], Location.toPath [[102]], [120]⟩
    disk.InOrder ∧ disk.isDir p = false ∧
      prepare disk p = (.ok t, disk.put [[120]] .dir) ∧
      (disk.put [[120]] .dir).isDir t.path = true ∧
    disk'.InOrder ∧ prepare disk' (.ofString "f/x") = (.ok t', disk') ∧
      disk'.lstat t'.parent = .ok ([[102]], .file []) := by
  decide +kernel

end ChangeWatch.FileTarget
