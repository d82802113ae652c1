import ChangeWatch.Proofs.Disk.Descending
import Mathlib.Data.List.TakeWhile

/-!
# Directories that are made

Where a lookup comes to a free name, the same lookup finds a directory once one is put there
(`follow_vacant`), also with slashes behind the name and with links followed.  What making a
directory after those above it may come to is said once (`makes`), so whatever was on the disk
before, a path is a directory once `createDirAll` has answered that it is
(`isDir_of_createDirAll`).

On a disk in order directories are all that is left behind, also when making them fails
(`InOrder.moreDirs_createDirAll`), and one that was just made is empty.  So a path that does not
go up leads to an empty directory, unless nothing was made at all (`InOrder.makeChain_new`).
-/

namespace ChangeWatch.Disk

open ChangeWatch.Path (Idle)

variable {d d' : Disk} {p : Path} {place dir : Location} {name : Bytes} {marked last : Bool}
  {pass pass' : Location → List Bytes → Lookup} {parts idle : List Bytes} {e : Entry}

/-! ### Free names -/

/-- What is vacant is free, and is found once a directory is put there. -/
theorem followParts_vacant (hidle : ∀ part ∈ idle, Idle part)
    (hpass : ∀ source parts, pass source parts = .vacant dir name marked →
      d.entry? (dir ++ [name]) = none ∧
        pass' source (parts ++ idle) = .found (dir ++ [name]) .dir false)
    (h : d.followParts last pass place parts = .vacant dir name marked) :
    d.entry? (dir ++ [name]) = none ∧
      (d.put (dir ++ [name]) .dir).followParts true pass' place (parts ++ idle) =
        .found (dir ++ [name]) .dir false := by
  induction parts generalizing place with
  | nil => exact absurd h (by simp [followParts])
  | cons part rest ih =>
    rw [List.cons_append]
    cases step d place part with
    | moves next hnext eq =>
      rw [eq d (.refl d)] at h
      obtain ⟨hfree, hfound⟩ := ih h
      rw [eq _ (grown_put hfree)]
      exact ⟨hfree, hfound⟩
    | links target stands eq =>
      rw [eq d (.refl d)] at h
      split at h
      · exact absurd h (by simp)
      · obtain ⟨hfree, hfound⟩ := hpass _ _ h
        rw [eq _ (grown_put hfree), if_neg (not_end _), ← List.append_assoc]
        exact ⟨hfree, hfound⟩
    | ends here fault ending eq =>
      rw [eq] at h
      split at h
      · next hall =>
        cases ending with
        | file => exact absurd h (by simp)
        | free hfree hnamed =>
          -- this is the name, and behind it there is nothing but slashes
          obtain ⟨rfl, rfl, -⟩ := Lookup.vacant.inj h
          have hrest : ∀ part ∈ rest ++ idle, Idle part := by
            intro part hpart
            rcases List.mem_append.mp hpart with hpart | hpart
            · exact Or.inl (of_decide_eq_true (List.all_eq_true.mp hall part hpart))
            · exact hidle part hpart
          have hmade : Disk.entry? (d.put (place ++ [part]) .dir) (place ++ [part]) =
              some .dir := by
            rw [entry?_put hfree, if_pos rfl]
          rw [followParts_enter hnamed hmade]
          exact ⟨hfree, followParts_idle_end hrest⟩
        | refused => exact absurd h (by simp)
      · exact absurd h (by simp)

theorem follow_vacant (hidle : ∀ part ∈ idle, Idle part) {budget : Nat}
    (h : d.follow last budget place parts = .vacant dir name marked) :
    d.entry? (dir ++ [name]) = none ∧
      (d.put (dir ++ [name]) .dir).follow true budget place (parts ++ idle) =
        .found (dir ++ [name]) .dir false := by
  induction budget generalizing place parts with
  | zero => exact followParts_vacant hidle (fun _ _ hpass => absurd hpass (by simp)) h
  | succ budget ih => exact followParts_vacant hidle (fun _ _ hpass => ih hpass) h

/-- A free name is the last of the parts, unless those end in slashes; a link at the end does
not count. -/
theorem followParts_vacant_name (hlast : ∀ part ∈ parts.getLast?, part ≠ [])
    (hpass : ∀ source parts, (∀ part ∈ parts.getLast?, part ≠ []) →
      pass source parts = .vacant dir name marked → parts.getLast? = some name)
    (h : d.followParts false pass place parts = .vacant dir name marked) :
    parts.getLast? = some name := by
  induction parts generalizing place with
  | nil => exact absurd h (by simp [followParts])
  | cons part rest ih =>
    -- behind the first part there are more, or it is the name itself
    have hmore : rest ≠ [] → (part :: rest).getLast? = rest.getLast? := fun hne => by
      rw [← List.singleton_append, List.getLast?_append_of_ne_nil _ hne]
    cases step d place part with
    | moves next hnext eq =>
      rw [eq d (.refl d)] at h
      have hne : rest ≠ [] := by
        rintro rfl
        exact absurd h (by simp [followParts])
      rw [hmore hne] at hlast ⊢
      exact ih hlast h
    | links target stands eq =>
      rw [eq d (.refl d)] at h
      split at h
      · exact absurd h (by simp)
      · next hpassed =>
        have hne : rest ≠ [] := fun hnil => hpassed ⟨hnil, rfl⟩
        rw [hmore hne] at hlast ⊢
        rw [← List.getLast?_append_of_ne_nil target.parts hne] at hlast ⊢
        exact hpass _ _ hlast h
    | ends here fault ending eq =>
      rw [eq] at h
      split at h
      · next hall =>
        cases ending with
        | file => exact absurd h (by simp)
        | free =>
          obtain ⟨-, rfl, -⟩ := Lookup.vacant.inj h
          have hrest : rest = [] := by
            by_contra hne
            obtain ⟨last, hlast'⟩ := Option.isSome_iff_exists.mp (List.getLast?_isSome.mpr hne)
            refine hlast last ?_ ?_
            · rw [hmore hne]
              exact hlast'
            · exact of_decide_eq_true (List.all_eq_true.mp hall _ (List.mem_of_getLast? hlast'))
          rw [hrest]
          rfl
        | refused => exact absurd h (by simp)
      · exact absurd h (by simp)

theorem follow_vacant_name {budget : Nat} (hlast : ∀ part ∈ parts.getLast?, part ≠ [])
    (h : d.follow false budget place parts = .vacant dir name marked) :
    parts.getLast? = some name := by
  induction budget generalizing place parts with
  | zero => exact followParts_vacant_name hlast (fun _ _ _ hpass => absurd hpass (by simp)) h
  | succ budget ih => exact followParts_vacant_name hlast (fun _ _ hlast hpass => ih hlast hpass) h

/-! ### Making directories -/

/-- The parts of a path are its named ones and then empty ones. -/
theorem unmarkedParts_append (p : Path) :
    ∃ idle, (∀ part ∈ idle, part = []) ∧ p.parts = unmarkedParts p ++ idle := by
  refine ⟨(p.parts.reverse.takeWhile (· = [])).reverse, fun part hpart => ?_, ?_⟩
  · simpa using List.mem_takeWhile_imp (List.mem_reverse.mp hpart)
  · unfold unmarkedParts
    rw [← List.reverse_append, List.takeWhile_append_dropWhile, List.reverse_reverse]

/-- The last of the named parts of a path is not empty. -/
theorem getLast?_unmarkedParts (p : Path) : ∀ part ∈ (unmarkedParts p).getLast?, part ≠ [] := by
  intro part hpart
  rw [unmarkedParts, List.getLast?_reverse] at hpart
  have hlast := List.head?_dropWhile_not (fun part : Bytes => part = []) p.parts.reverse
  rw [Option.mem_def.mp hpart] at hlast
  simpa using hlast

/-- A directory that was made stands under a name that was free, and the path leads there. -/
theorem makeDir_of_ok (h : d.makeDir p = (.ok (), d')) :
    ∃ dir name, d.entry? (dir ++ [name]) = none ∧ d' = d.put (dir ++ [name]) .dir ∧
      d'.stat p = .ok (dir ++ [name], .dir) := by
  unfold makeDir at h
  split at h
  · exact absurd (Prod.mk.inj h).1 (by simp)
  · next dir name marked hresolve =>
    obtain ⟨-, rfl⟩ := Prod.mk.inj h
    unfold resolve at hresolve
    split at hresolve
    · exact absurd hresolve (by simp)
    · next hfit =>
      obtain ⟨idle, hidle, hparts⟩ := unmarkedParts_append p
      obtain ⟨hfree, hfound⟩ := follow_vacant (fun part hpart => Or.inl (hidle part hpart)) hresolve
      rw [← hparts] at hfound
      refine ⟨dir, name, hfree, rfl, ?_⟩
      unfold stat resolve
      rw [hfit]
      exact congrArg Lookup.entry hfound
  · exact absurd (Prod.mk.inj h).1 (by simp)

theorem isDir_of_makeDir (h : d.makeDir p = (.ok (), d')) : d'.isDir p = true := by
  obtain ⟨dir, name, -, -, hstat⟩ := makeDir_of_ok h
  exact isDir_iff.mpr ⟨_, hstat⟩

/-- A directory that is there is not made again. -/
theorem makeDir_of_isDir (h : d.isDir p = true) : d.makeDir p = (.error .alreadyExists, d) := by
  obtain ⟨top, hstat⟩ := isDir_iff.mp h
  obtain ⟨idle, hidle, hparts⟩ := unmarkedParts_append p
  have hfound := Lookup.entry_eq_ok hstat
  unfold resolve at hfound
  rw [fit_of_stat hstat, hparts] at hfound
  -- also without the slashes at the end, and without a link there being followed
  have hnamed := (follow_idle_iff (fun part hpart => Or.inl (hidle part hpart)) _ _ _).mp hfound
  obtain ⟨there, e, slashes, hlast⟩ := follow_last_found hnamed
  unfold makeDir resolve
  rw [fit_of_stat hstat]
  dsimp only
  rw [hlast]

/-- A directory that is not made leaves the disk alone. -/
theorem makeDir_of_error {fault : Fault} (h : d.makeDir p = (.error fault, d')) : d' = d := by
  unfold makeDir at h
  split at h
  · exact (Prod.mk.inj h).2.symm
  · exact absurd (Prod.mk.inj h).1 (by simp)
  · exact (Prod.mk.inj h).2.symm

/-- What making a directory after those above it comes to, and the disk after it. -/
inductive Makes (d : Disk) (p : Path) (up : List Path) : Edit → Prop
  | nothing : p.bytes = [] → Makes d p up (.ok (), d)
  | first {made : Disk} : d.makeDir p = (.ok (), made) → Makes d p up (.ok (), made)
  /-- It cannot be made, but counts as made if it is there. -/
  | there {fault : Fault} : d.makeDir p = (.error fault, d) → fault ≠ .notFound →
      Makes d p up (if d.isDir p then .ok () else .error fault, d)
  /-- The way to it is missing and cannot be made. -/
  | blocked {fault : Fault} {tried : Disk} : d.makeDir p = (.error .notFound, d) →
      d.makeChain up = (.error fault, tried) → Makes d p up (.error fault, tried)
  | second {below made : Disk} : d.makeDir p = (.error .notFound, d) →
      d.makeChain up = (.ok (), below) → below.makeDir p = (.ok (), made) →
      Makes d p up (.ok (), made)
  /-- The way to it was made, but it cannot be made itself; it counts as made if it is there. -/
  | thereBelow {below : Disk} {fault : Fault} : d.makeDir p = (.error .notFound, d) →
      d.makeChain up = (.ok (), below) → below.makeDir p = (.error fault, below) →
      Makes d p up (if below.isDir p then .ok () else .error fault, below)

theorem makes (d : Disk) (p : Path) (up : List Path) : Makes d p up (d.makeChain (p :: up)) := by
  rw [makeChain]
  split
  · next hempty => exact .nothing hempty
  · split
    · next made hmade => exact .first hmade
    · next d' hmissing =>
      obtain rfl := makeDir_of_error hmissing
      split
      · next fault tried hup => exact .blocked hmissing hup
      · next below hup =>
        split
        · next made hmade => exact .second hmissing hup hmade
        · next fault d' hfault =>
          obtain rfl := makeDir_of_error hfault
          exact .thereBelow hmissing hup hfault
    · next fault d' hnot hfault =>
      obtain rfl := makeDir_of_error hfault
      exact .there hfault hnot

theorem isDir_of_makeChain {up : List Path} (hp : p.bytes ≠ [])
    (h : d.makeChain (p :: up) = (.ok (), d')) : d'.isDir p = true := by
  -- a refusal counts for nothing if the directory is there
  have hthere : ∀ {e : Disk} {f : Fault},
      ((if e.isDir p = true then Except.ok () else .error f, e) : Edit) = (.ok (), d') →
        d'.isDir p = true := by
    intro e f heq
    obtain ⟨hverdict, rfl⟩ := Prod.mk.inj heq
    split at hverdict
    · next hdir => exact hdir
    · exact absurd hverdict (by simp)
  generalize hedit : d.makeChain (p :: up) = edit at h
  cases hedit ▸ makes d p up with
  | nothing hempty => exact absurd hempty hp
  | first hmade => exact isDir_of_makeDir (hmade.trans h)
  | there => exact hthere h
  | blocked => exact absurd (Prod.mk.inj h).1 (by simp)
  | second _ _ hmade => exact isDir_of_makeDir (hmade.trans h)
  | thereBelow => exact hthere h

/-- Once the answer is that a path is a directory, it is one. -/
theorem isDir_of_createDirAll (hp : p.bytes ≠ []) (h : d.createDirAll p = (.ok (), d')) :
    d'.isDir p = true :=
  isDir_of_makeChain hp h

/-! ### What is left behind -/

/-- A disk after directories were made on it: all that was there is as it was, and what is new are
directories. -/
structure MoreDirs (d d' : Disk) : Prop where
  inOrder : d'.InOrder
  cwd : d'.cwd = d.cwd
  kept : d.Grown d'
  added : ∀ place e, d.entry? place = none → d'.entry? place = some e → e = .dir

theorem MoreDirs.refl (h : d.InOrder) : MoreDirs d d :=
  ⟨h, rfl, .refl d, fun _ _ hnone hsome => absurd (hnone.symm.trans hsome) (by simp)⟩

theorem MoreDirs.trans {d'' : Disk} (h : MoreDirs d d') (h' : MoreDirs d' d'') :
    MoreDirs d d'' := by
  refine ⟨h'.inOrder, h'.cwd.trans h.cwd, fun place e he => h'.kept place e (h.kept place e he), ?_⟩
  intro place e hnone he
  cases hbetween : d'.entry? place with
  | none => exact h'.added place e hbetween he
  | some e' =>
    -- what was made first is still there
    have hstill := h'.kept place e' hbetween
    obtain rfl := Option.some.inj (hstill.symm.trans he)
    exact h.added place e' hnone hbetween

/-- The working directory is still one. -/
theorem MoreDirs.entry?_cwd (h : MoreDirs d d') (hcwd : d.entry? d.cwd = some .dir) :
    d'.entry? d'.cwd = some .dir := by
  rw [h.cwd]
  exact h.kept d.cwd .dir hcwd

theorem InOrder.moreDirs_put (h : d.InOrder) (hdir : d.entry? dir = some .dir)
    (hfree : d.entry? (dir ++ [name]) = none) (hname : IsName name) :
    MoreDirs d (d.put (dir ++ [name]) .dir) := by
  refine ⟨h.put hdir hfree hname, rfl, grown_put hfree, fun place e hnone he => ?_⟩
  rw [entry?_put hfree] at he
  split at he
  · exact (Option.some.inj he).symm
  · exact absurd (hnone.symm.trans he) (by simp)

/-- A free name that a path without the slashes at its end leads to is a proper one in a
directory. -/
theorem InOrder.vacant_of_resolve (h : d.InOrder) (hcwd : d.entry? d.cwd = some .dir)
    (hresolve : d.resolve false p (unmarkedParts p) = .vacant dir name marked) :
    d.entry? dir = some .dir ∧ d.entry? (dir ++ [name]) = none ∧ IsName name := by
  have hstands : (d.resolve false p (unmarkedParts p)).Stands d false :=
    h.resolve_stands (Or.inr hcwd) _
  rw [hresolve] at hstands
  obtain ⟨hdir, hfree, hnamed⟩ := hstands
  unfold resolve at hresolve
  split at hresolve
  · exact absurd hresolve (by simp)
  · next hfit =>
    -- the name is a part of the path, so it has no slash and no zero byte
    have hlast := follow_vacant_name (getLast?_unmarkedParts p) hresolve
    obtain ⟨idle, -, hparts⟩ := unmarkedParts_append p
    have hmem : name ∈ p.parts := by
      rw [hparts]
      exact List.mem_append_left _ (List.mem_of_getLast? hlast)
    obtain ⟨hslash, hsub⟩ := Path.splitOn_part p.bytes name hmem
    exact ⟨hdir, hfree, hnamed.nonempty, hnamed.not_dot, hnamed.not_up, hslash,
      fun hzero => (unfit?_eq_none_iff.mp hfit).1 (hsub hzero), hnamed.short⟩

theorem InOrder.moreDirs_makeDir (h : d.InOrder) (hcwd : d.entry? d.cwd = some .dir) (p : Path) :
    MoreDirs d (d.makeDir p).2 := by
  unfold makeDir
  split
  · exact .refl h
  · next hresolve =>
    obtain ⟨hdir, hfree, hname⟩ := h.vacant_of_resolve hcwd hresolve
    exact h.moreDirs_put hdir hfree hname
  · exact .refl h

/-- Making directories leaves more of them behind and nothing else, whether or not it succeeds. -/
theorem InOrder.moreDirs_makeChain (h : d.InOrder) (hcwd : d.entry? d.cwd = some .dir)
    (chain : List Path) : MoreDirs d (d.makeChain chain).2 := by
  induction chain with
  | nil => exact .refl h
  | cons p up ih =>
    generalize hedit : d.makeChain (p :: up) = edit
    cases hedit ▸ makes d p up with
    | nothing => exact .refl h
    | first hmade => exact hmade ▸ h.moreDirs_makeDir hcwd p
    | there => exact .refl h
    | blocked _ hup => rwa [hup] at ih
    | second _ hup hmade =>
      -- two disks one after the other: what is above is made, then the directory itself
      rw [hup] at ih
      exact ih.trans (hmade ▸ ih.inOrder.moreDirs_makeDir (ih.entry?_cwd hcwd) p)
    | thereBelow _ hup => rwa [hup] at ih

theorem InOrder.moreDirs_createDirAll (h : d.InOrder) (hcwd : d.entry? d.cwd = some .dir)
    (p : Path) : MoreDirs d (d.createDirAll p).2 :=
  h.moreDirs_makeChain hcwd _

/-! ### What is made is empty -/

theorem InOrder.free_below (h : d.InOrder) (hfree : d.entry? place = none) (n : Bytes) :
    d.entry? (place ++ [n]) = none := by
  cases hentry : d.entry? (place ++ [n]) with
  | none => rfl
  | some e => exact absurd (hfree.symm.trans (h.above hentry).2) (by simp)

/-- There is nothing in a directory that was just made. -/
theorem InOrder.empty_of_makeDir (h : d.InOrder) (hmade : d.makeDir p = (.ok (), d')) :
    ∃ top, d'.stat p = .ok (top, .dir) ∧ ∀ n, d'.entry? (top ++ [n]) = none := by
  obtain ⟨dir, name, hfree, rfl, hstat⟩ := makeDir_of_ok hmade
  refine ⟨dir ++ [name], hstat, fun n => ?_⟩
  rw [entry?_put hfree, if_neg (by simp)]
  exact h.free_below hfree n

/-- A path does not lead on by a name under which nothing stands. -/
theorem not_isDir_behind {up : Path} (hbehind : up.Behind p name) (hname : Path.Normal name)
    (hstat : d.stat up = .ok (place, .dir)) (hfree : d.entry? (place ++ [name]) = none) :
    d.isDir p = false := by
  refine Bool.eq_false_iff.mpr fun hdir => ?_
  obtain ⟨top, htop⟩ := isDir_iff.mp hdir
  obtain ⟨left, -, tail, -, heq⟩ := stat_behind hbehind hstat (fit_of_stat htop)
  -- the name is the first thing that is looked for, so links behind it do not matter
  have hmissing : ∀ pass, d.followParts true pass place (name :: tail) ≠ .found top .dir false := by
    intro pass
    rw [followParts, if_neg (not_or.mpr ⟨hname.nonempty, hname.not_dot⟩), if_neg hname.not_up,
      hfree]
    split
    · simp
    · dsimp only
      split <;> simp
  have hfound := Lookup.entry_eq_ok (heq.symm.trans htop)
  cases left <;> exact hmissing _ hfound

/-- A path without `..` is written behind its parent by a name, if that leads somewhere. -/
theorem behind_of_stat {up : Path} {found : Location × Entry} (hparent : p.parent = some up)
    (hup : Component.up ∉ p.components) (hstat : d.stat up = .ok found) :
    ∃ last, up.Behind p last ∧ Path.Normal last := by
  obtain ⟨last, c, hbehind, hcomponents, hc⟩ := Path.behind_parent hparent
  have hne := (unfit?_eq_none_iff.mp (fit_of_stat hstat)).2.1
  rw [if_neg hne] at hbehind
  have hname := hc.resolve_right fun hempty => hne hempty.1
  have hdown : c ≠ .up := by
    rintro rfl
    rw [hcomponents] at hup
    exact hup (List.mem_append_right _ (List.mem_singleton_self _))
  exact ⟨last, hbehind, (hbehind.normal hname hdown).1⟩

/-- A path without `..` whose directories were made leads to an empty one, unless there was nothing
to make. -/
theorem InOrder.makeChain_new (h : d.InOrder) (hcwd : d.entry? d.cwd = some .dir) {k : Nat}
    (hup : Component.up ∉ p.components) (hmade : d.makeChain (ancestors k p) = (.ok (), d')) :
    d' = d ∨ ∃ top, d'.stat p = .ok (top, .dir) ∧ ∀ n, d'.entry? (top ++ [n]) = none := by
  induction k generalizing p d' with
  | zero => exact absurd (Prod.mk.inj hmade).1 (by simp)
  | succ k ih =>
    rw [ancestors] at hmade
    generalize hchain : p.parent.elim [] (ancestors k) = chain at hmade
    generalize hedit : d.makeChain (p :: chain) = edit at hmade
    -- whatever makes the directory itself makes it empty
    cases hedit ▸ makes d p chain with
    | nothing => exact Or.inl (Prod.mk.inj hmade).2.symm
    | first hfirst => exact Or.inr (h.empty_of_makeDir (hfirst.trans hmade))
    | there => exact Or.inl (Prod.mk.inj hmade).2.symm
    | blocked => exact absurd (Prod.mk.inj hmade).1 (by simp)
    | @second below _ _ habove hsecond =>
      have hmore := h.moreDirs_makeChain hcwd chain
      rw [habove] at hmore
      exact Or.inr (hmore.inOrder.empty_of_makeDir (hsecond.trans hmade))
    | @thereBelow below fault hmissing habove hfault =>
      -- the directory would have to be there by the making of those above it alone
      obtain ⟨hverdict, rfl⟩ := Prod.mk.inj hmade
      split at hverdict
      · next hdir =>
        cases hparent : p.parent with
        | none =>
          rw [← hchain, hparent] at habove
          exact absurd (Prod.mk.inj habove).1 (by simp)
        | some up =>
          rw [← hchain, hparent] at habove
          rcases ih (Path.up_not_mem_parent hparent hup) habove with rfl | ⟨top, hstat, hempty⟩
          · rw [makeDir_of_isDir hdir] at hmissing
            exact absurd (Prod.mk.inj hmissing).1 (by simp)
          · obtain ⟨last, hbehind, hnormal⟩ := behind_of_stat hparent hup hstat
            have hnot := not_isDir_behind hbehind hnormal hstat (hempty last)
            exact absurd (hdir.symm.trans hnot) (by simp)
      · exact absurd hverdict (by simp)

end ChangeWatch.Disk
