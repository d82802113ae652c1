import ChangeWatch.Proofs.Disk.Making
import ChangeWatch.Strategy.DirTree

/-!
# Making ready to watch a directory

What is made ready has the path of a real directory as its root, whether that was there or had
to be made (`prepare_root`).  Directories are all that may be new on the disk, also when it
comes to nothing; something else at the path is refused, and then nothing is new.  Once a path
was made ready it leads to its directory, so making it ready once more changes nothing
(`preparing_adds_directories_only`).
-/

namespace ChangeWatch

/-- The canonical form of a path is that of the place where it leads, if that is short enough. -/
theorem Disk.canonicalize_eq_ok_iff {disk : Disk} {p root : Path} :
    disk.canonicalize p = .ok root ↔
      ∃ top e, disk.stat p = .ok (top, e) ∧ top.Short ∧ root = top.toPath := by
  unfold Disk.canonicalize
  cases hstat : disk.stat p with
  | error fault => simp [Except.bind]
  | ok found =>
    obtain ⟨top, e⟩ := found
    show (if Disk.pathLimit ≤ top.toPath.bytes.length then .error .nameTooLong
      else .ok top.toPath) = (.ok root : Except Fault Path) ↔ _
    split
    · next hlong =>
      refine iff_of_false (by simp) ?_
      rintro ⟨top', e', heq, hshort, -⟩
      obtain ⟨rfl, -⟩ := Prod.mk.inj (Except.ok.inj heq)
      exact Nat.not_le.mpr hshort hlong
    · next hshort =>
      constructor
      · intro heq
        exact ⟨top, e, rfl, Nat.not_le.mp hshort, (Except.ok.inj heq).symm⟩
      · rintro ⟨top', e', heq, -, rfl⟩
        obtain ⟨rfl, -⟩ := Prod.mk.inj (Except.ok.inj heq)
        rfl

/-- A directory is there. -/
theorem Disk.exists?_of_isDir {disk : Disk} {p : Path} (h : disk.isDir p = true) :
    disk.exists? p = true := by
  unfold Disk.isDir at h
  unfold Disk.exists?
  split at h
  · next hstat =>
    rw [hstat]
    rfl
  · exact absurd h (by simp)

namespace DirTree

variable {disk made : Disk} {p : Path} {maxDepth : Nat} {t : DirTree}

/-! ### The three ways -/

/-- A tree at a root, or why there is none. -/
def readied (p : Path) (maxDepth : Nat) : Except Fault Path → Except WatchError DirTree
  | .error fault => .error (.io p fault)
  | .ok root => .ok ⟨root, maxDepth, []⟩

/-- What is at a path and is no directory is refused, and nothing is changed. -/
theorem prepare_of_other (hexists : disk.exists? p = true) (hdir : disk.isDir p = false) :
    prepare disk p maxDepth = (.error (.notADirectory p), disk) := by
  unfold prepare
  rw [hexists, hdir]
  rfl

/-- A directory that is at a path is taken as it is. -/
theorem prepare_of_isDir (hdir : disk.isDir p = true) :
    prepare disk p maxDepth = (readied p maxDepth (disk.canonicalize p), disk) := by
  unfold prepare
  rw [hdir, if_neg (by simp), if_pos (Disk.exists?_of_isDir hdir)]
  dsimp only [Except.bind]
  cases disk.canonicalize p <;> rfl

/-- Where there is nothing, directories are made. -/
theorem prepare_of_nothing (hexists : disk.exists? p = false) :
    prepare disk p maxDepth = (readied p maxDepth
      ((disk.createDirAll p).1.bind fun _ => (disk.createDirAll p).2.canonicalize p),
      (disk.createDirAll p).2) := by
  unfold prepare
  rw [hexists, if_neg (by simp), if_neg (by simp)]
  dsimp only
  cases (disk.createDirAll p).1.bind fun _ => (disk.createDirAll p).2.canonicalize p <;> rfl

/-- A directory is refused because something else is there, and then nothing is changed; or the
disk refuses it. -/
theorem prepare_of_error {e : WatchError} (h : prepare disk p maxDepth = (.error e, made)) :
    e = .notADirectory p ∧ made = disk ∧ disk.exists? p = true ∧ disk.isDir p = false ∨
      ∃ fault, e = .io p fault := by
  have hfault : ∀ {found : Except Fault Path}, readied p maxDepth found = .error e →
      ∃ fault, e = .io p fault := by
    intro found hready
    cases found with
    | error fault => exact ⟨fault, (Except.error.inj hready).symm⟩
    | ok root => exact absurd hready (by simp [readied])
  cases hdir : disk.isDir p with
  | true =>
    rw [prepare_of_isDir hdir] at h
    exact Or.inr (hfault (Prod.mk.inj h).1)
  | false =>
    cases hexists : disk.exists? p with
    | true =>
      rw [prepare_of_other hexists hdir] at h
      obtain ⟨herror, rfl⟩ := Prod.mk.inj h
      exact Or.inl ⟨(Except.error.inj herror).symm, rfl, rfl, rfl⟩
    | false =>
      rw [prepare_of_nothing hexists] at h
      exact Or.inr (hfault (Prod.mk.inj h).1)

/-- What is made ready is a directory, and its canonical path is the root. -/
theorem prepare_eq (h : prepare disk p maxDepth = (.ok t, made)) :
    t = ⟨t.root, maxDepth, []⟩ ∧ made.canonicalize p = .ok t.root ∧ made.isDir p = true := by
  -- whatever was found becomes the root
  have hroot : ∀ {found : Except Fault Path}, readied p maxDepth found = .ok t →
      t = ⟨t.root, maxDepth, []⟩ ∧ found = .ok t.root := by
    intro found hready
    cases found with
    | error fault => exact absurd hready (by simp [readied])
    | ok root =>
      obtain rfl := Except.ok.inj hready
      exact ⟨rfl, rfl⟩
  -- it was a directory, or something else, or nothing that has been made since
  cases hdir : disk.isDir p with
  | true =>
    rw [prepare_of_isDir hdir] at h
    obtain ⟨hready, rfl⟩ := Prod.mk.inj h
    obtain ⟨htree, hfound⟩ := hroot hready
    exact ⟨htree, hfound, hdir⟩
  | false =>
    cases hexists : disk.exists? p with
    | true =>
      rw [prepare_of_other hexists hdir] at h
      exact absurd (Prod.mk.inj h).1 (by simp)
    | false =>
      rw [prepare_of_nothing hexists] at h
      obtain ⟨hready, rfl⟩ := Prod.mk.inj h
      obtain ⟨htree, hfound⟩ := hroot hready
      cases hmade : (disk.createDirAll p).1 with
      | error fault =>
        rw [hmade] at hfound
        exact absurd hfound (by simp [Except.bind])
      | ok u =>
        rw [hmade] at hfound
        have hfound : (disk.createDirAll p).2.canonicalize p = .ok t.root := hfound
        obtain ⟨top, e, hstat, -⟩ := Disk.canonicalize_eq_ok_iff.mp hfound
        have hne := (Disk.unfit?_eq_none_iff.mp (Disk.fit_of_stat hstat)).2.1
        exact ⟨htree, hfound, Disk.isDir_of_createDirAll hne (Prod.ext hmade rfl)⟩

/-- The root of a tree that was made ready is the path of a directory, without links, and the
directory is that to which the given path leads. -/
theorem prepare_leads (h : prepare disk p maxDepth = (.ok t, made)) (horder : made.InOrder)
    (hcwd : made.entry? made.cwd = some .dir) :
    ∃ top, t.root = Location.toPath top ∧ made.entry? top = some .dir ∧
      made.lstat t.root = .ok (top, .dir) ∧ made.stat p = .ok (top, .dir) := by
  obtain ⟨-, hroot, hdir⟩ := prepare_eq h
  obtain ⟨top, e, hstat, hshort, htop⟩ := Disk.canonicalize_eq_ok_iff.mp hroot
  have he : e = .dir := by
    unfold Disk.isDir at hdir
    rw [hstat] at hdir
    cases e with
    | dir => rfl
    | file content => exact absurd hdir (by simp)
    | link target => exact absurd hdir (by simp)
  subst he
  have hstands := (horder.stands_of_stat (Or.inr hcwd) hstat).1
  refine ⟨top, htop, hstands, ?_, hstat⟩
  rw [htop]
  exact horder.lstat_toPath hstands hshort

/-- The root of a tree that was made ready is the path of a directory, without links. -/
theorem prepare_root (h : prepare disk p maxDepth = (.ok t, made)) (horder : made.InOrder)
    (hcwd : made.entry? made.cwd = some .dir) :
    ∃ top, t.root = Location.toPath top ∧ made.lstat t.root = .ok (top, .dir) := by
  obtain ⟨top, hroot, -, hlstat, -⟩ := prepare_leads h horder hcwd
  exact ⟨top, hroot, hlstat⟩

/-- Whatever it comes to, making ready adds directories to the disk and does nothing else. -/
theorem prepare_moreDirs (horder : disk.InOrder) (hcwd : disk.entry? disk.cwd = some .dir)
    (p : Path) (maxDepth : Nat) : disk.MoreDirs (prepare disk p maxDepth).2 := by
  cases hdir : disk.isDir p with
  | true =>
    rw [prepare_of_isDir hdir]
    exact .refl horder
  | false =>
    cases hexists : disk.exists? p with
    | true =>
      rw [prepare_of_other hexists hdir]
      exact .refl horder
    | false =>
      rw [prepare_of_nothing hexists]
      exact horder.moreDirs_createDirAll hcwd p

/-- A path is refused as something else than a directory exactly if it leads to something else. -/
theorem prepare_illegalState_iff (disk : Disk) (p : Path) (maxDepth : Nat) :
    (∃ e, (prepare disk p maxDepth).1 = .error e ∧ e.errorClass = .illegalState) ↔
      disk.exists? p = true ∧ disk.isDir p = false := by
  constructor
  · rintro ⟨e, herror, hclass⟩
    rcases prepare_of_error (Prod.ext herror rfl) with ⟨-, -, hother⟩ | ⟨fault, rfl⟩
    · exact hother
    · exact absurd hclass (by simp [WatchError.errorClass])
  · rintro ⟨hexists, hdir⟩
    rw [prepare_of_other hexists hdir]
    exact ⟨_, rfl, rfl⟩

/-- What was made ready once is ready. -/
theorem prepare_again (h : prepare disk p maxDepth = (.ok t, made)) (maxDepth' : Nat) :
    prepare made p maxDepth' = (.ok ⟨t.root, maxDepth', []⟩, made) := by
  obtain ⟨-, hroot, hdir⟩ := prepare_eq h
  rw [prepare_of_isDir hdir, hroot]
  rfl

/-! ### Directories and nothing else -/

/-- Whatever is on a disk in order, and whatever path is given: it is refused as something else
than a directory exactly if it leads to something else, links followed, and then nothing is
changed.  In any case all that was there is as it was, and what is new are directories.  If a tree
was made ready, its root is the absolute path, without dots and without a link on the way, of a
directory, to which the given path leads as well; to make the same path ready once more yields the
same root and changes nothing. -/
theorem preparing_adds_directories_only (horder : disk.InOrder)
    (hcwd : disk.entry? disk.cwd = some .dir) (p : Path) (maxDepth : Nat) :
    ((∃ e, (prepare disk p maxDepth).1 = .error e ∧ e.errorClass = .illegalState) ↔
      disk.exists? p = true ∧ disk.isDir p = false) ∧
    (disk.exists? p = true → disk.isDir p = false →
      prepare disk p maxDepth = (.error (.notADirectory p), disk)) ∧
    disk.MoreDirs (prepare disk p maxDepth).2 ∧
    ∀ t made, prepare disk p maxDepth = (.ok t, made) →
      (∃ top, t.root = Location.toPath top ∧ (∀ n ∈ top, IsName n) ∧
        (∀ front, front <+: top → made.entry? front = some .dir) ∧
        made.lstat t.root = .ok (top, .dir) ∧ made.stat p = .ok (top, .dir)) ∧
      ∀ maxDepth', prepare made p maxDepth' = (.ok ⟨t.root, maxDepth', []⟩, made) := by
  have hmore := prepare_moreDirs horder hcwd p maxDepth
  refine ⟨prepare_illegalState_iff disk p maxDepth, prepare_of_other, hmore, fun t made h => ?_⟩
  rw [h] at hmore
  obtain ⟨top, hroot, hdir, hlstat, hstat⟩ := prepare_leads h hmore.inOrder (hmore.entry?_cwd hcwd)
  -- what is above a directory is a directory, so there is no link on the way
  refine ⟨⟨top, hroot, hmore.inOrder.names hdir, fun front hfront => ?_, hlstat, hstat⟩,
    prepare_again h⟩
  obtain ⟨rest, rfl⟩ := hfront
  by_cases hrest : rest = []
  · rwa [hrest, List.append_nil] at hdir
  · exact hmore.inOrder.dir_of_append hrest hdir

/-- A directory is made behind a link to the directory that holds the link. -/
theorem path_behind_link_is_made_ready :
    let disk := (Disk.empty.put [[119]] .dir).put [[119], [108]] (.link ⟨[46]⟩)
    let p : Path := .ofString "w/l/a"
    let top := [[119], [97]]
    let made := disk.put top .dir
    disk.InOrder ∧ disk.entry? disk.cwd = some .dir ∧
    prepare disk p 1 = (.ok ⟨Location.toPath top, 1, []⟩, made) ∧
    made.entry? top = some .dir ∧ disk.MoreDirs made ∧
    prepare made p 2 = (.ok ⟨Location.toPath top, 2, []⟩, made) := by
  intro disk p top made
  have horder : disk.InOrder := by decide +kernel
  have hcwd : disk.entry? disk.cwd = some .dir := rfl
  have hprepared : prepare disk p 1 = (.ok ⟨Location.toPath top, 1, []⟩, made) := by decide +kernel
  obtain ⟨-, -, hmore, hready⟩ := preparing_adds_directories_only horder hcwd p 1
  rw [hprepared] at hmore
  obtain ⟨⟨top', hroot, hnames, hdirs, -⟩, hagain⟩ := hready _ _ hprepared
  have htop : top = top' := Location.toPath_injective (by decide +kernel) hnames hroot
  exact ⟨horder, hcwd, hprepared, htop ▸ hdirs _ (List.prefix_refl _), hmore, hagain 2⟩

end DirTree

end ChangeWatch
