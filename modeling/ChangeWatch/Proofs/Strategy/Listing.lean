import ChangeWatch.Proofs.Disk.Descending
import ChangeWatch.Proofs.Path.Order
import ChangeWatch.Strategy.DirTree

/-!
# What is listed

A directory is listed twice: once for the directories in it, to walk on (`subdirectories`), and
once for all that is in it, to tell of it (`entriesOf`).  Both yield exactly what stands there
(`mem_subdirectories`, `mem_entriesOf`), if the path is short enough to be asked for; the first
in listing order, the second strictly in path order (`entriesOf_before`).  To list several
directories is to list one after the other (`existingEntries_eq`).
-/

namespace ChangeWatch.DirTree

variable {disk : Disk} {dir child p : Path} {place : Location} {n : Bytes}

/-! ### Directories in a directory -/

theorem subdirectories_eq (disk : Disk) (dir : Path) : subdirectories disk dir =
    (disk.listing dir).filterMap fun (n, e) => if e = .dir then some (dir.child n) else none := by
  unfold subdirectories Disk.listing
  cases disk.readDir dir <;> rfl

/-- The directories found in a filed directory are those that stand in it. -/
theorem mem_subdirectories (h : disk.Filed dir place) (horder : disk.InOrder) :
    child ∈ subdirectories disk dir ↔
      ∃ n, dir.Short ∧ disk.entry? (place ++ [n]) = some .dir ∧ child = dir.child n := by
  rw [subdirectories_eq, List.mem_filterMap]
  constructor
  · rintro ⟨⟨n, e⟩, hmem, hsome⟩
    dsimp only at hsome
    split at hsome
    · next he =>
      subst he
      obtain ⟨hshort, he⟩ := (h.mem_listing horder).mp hmem
      exact ⟨n, hshort, he, (Option.some.inj hsome).symm⟩
    · exact absurd hsome (by simp)
  · rintro ⟨n, hshort, he, rfl⟩
    exact ⟨(n, .dir), (h.mem_listing horder).mpr ⟨hshort, he⟩, if_pos rfl⟩

/-- They have different names. -/
theorem subdirectories_differ (h : disk.Filed dir place) (horder : disk.InOrder) :
    (subdirectories disk dir).Pairwise fun a b => ∃ n m, n ≠ m ∧ Path.Normal n ∧ Path.Normal m ∧
      a = dir.child n ∧ b = dir.child m := by
  have hnormal : ∀ entry ∈ disk.listing dir, Path.Normal entry.1 := fun entry hentry =>
    (horder.above ((h.mem_listing horder).mp hentry).2).1.normal
  rw [subdirectories_eq, List.pairwise_filterMap]
  refine (h.nodup_listing horder).imp_of_mem fun {a b} ha hb hne x hx y hy => ?_
  have hchild : ∀ {entry : Bytes × Entry} {x : Path},
      (if entry.2 = .dir then some (dir.child entry.1) else none) = some x →
        x = dir.child entry.1 := by
    intro entry x hsome
    split at hsome
    · exact (Option.some.inj hsome).symm
    · exact absurd hsome (by simp)
  exact ⟨a.1, b.1, hne, hnormal a ha, hnormal b hb, hchild hx, hchild hy⟩

/-- Nothing is found in what is no directory. -/
theorem subdirectories_of_not_isDir (h : disk.isDir dir = false) :
    subdirectories disk dir = [] := by
  unfold Disk.isDir at h
  unfold subdirectories Disk.readDir
  split at h
  · exact absurd h (by simp)
  · next hnot =>
    split
    · next entries hread =>
      split at hread
      · next place hstat => exact absurd hstat (hnot place)
      · exact absurd hread (by simp)
      · exact absurd hread (by simp)
    · rfl

/-! ### Entries in path order -/

/-- What is found in a directory, in path order; nothing where nothing can be listed. -/
def entriesOf (disk : Disk) (dir : Path) : List Path :=
  (sortedEntries disk dir).toOption.getD []

theorem entriesOf_eq (disk : Disk) (dir : Path) :
    entriesOf disk dir = ((disk.listing dir).map fun e => dir.child e.1).mergeSort Path.le := by
  unfold entriesOf sortedEntries Disk.listing
  cases disk.readDir dir with
  | ok entries => rfl
  | error fault => simp [Except.map, Except.toOption]

/-- One more directory adds what is found in it. -/
theorem survey_eq (disk : Disk) (found : List Path × List Warning) (dir : Path) :
    (survey disk found dir).1 = found.1 ++ entriesOf disk dir := by
  unfold survey entriesOf
  cases sortedEntries disk dir with
  | ok entries => rfl
  | error fault => exact (List.append_nil _).symm

theorem foldl_survey (disk : Disk) (dirs : List Path) (found : List Path × List Warning) :
    (dirs.foldl (survey disk) found).1 = found.1 ++ dirs.flatMap (entriesOf disk) := by
  induction dirs generalizing found with
  | nil => exact (List.append_nil _).symm
  | cons dir rest ih =>
    rw [List.foldl_cons, ih, survey_eq, List.flatMap_cons, List.append_assoc]

/-- What is found in several directories is what is found in each. -/
theorem existingEntries_eq (disk : Disk) (dirs : List Path) :
    (existingEntries disk dirs).1 = dirs.flatMap (entriesOf disk) :=
  foldl_survey disk dirs ([], [])

/-- In a filed directory is found what stands in it. -/
theorem mem_entriesOf (h : disk.Filed dir place) (horder : disk.InOrder) : p ∈ entriesOf disk dir ↔
    ∃ n, dir.Short ∧ (disk.entry? (place ++ [n])).isSome = true ∧ p = dir.child n := by
  rw [entriesOf_eq, List.mem_mergeSort, List.mem_map]
  constructor
  · rintro ⟨⟨n, e⟩, hmem, rfl⟩
    obtain ⟨hshort, he⟩ := (h.mem_listing horder).mp hmem
    exact ⟨n, hshort, Option.isSome_of_mem he, rfl⟩
  · rintro ⟨n, hshort, hsome, rfl⟩
    obtain ⟨e, he⟩ := Option.isSome_iff_exists.mp hsome
    exact ⟨(n, e), (h.mem_listing horder).mpr ⟨hshort, he⟩, rfl⟩

theorem components_of_mem_entriesOf (h : disk.Filed dir place) (horder : disk.InOrder)
    (hp : p ∈ entriesOf disk dir) : ∃ n, p.components = dir.components ++ [.name n] := by
  obtain ⟨n, -, hsome, rfl⟩ := (mem_entriesOf h horder).mp hp
  obtain ⟨e, he⟩ := Option.isSome_iff_exists.mp hsome
  exact ⟨n, Path.components_child dir (horder.above he).1.normal⟩

/-- What is found in one directory is strictly in order. -/
theorem entriesOf_before (h : disk.Filed dir place) (horder : disk.InOrder) :
    (entriesOf disk dir).Pairwise Path.before := by
  have hnormal : ∀ entry ∈ disk.listing dir, Path.Normal entry.1 := fun entry hentry =>
    (horder.above ((h.mem_listing horder).mp hentry).2).1.normal
  rw [entriesOf_eq]
  refine Path.mergeSort_before id (List.pairwise_map.mpr ?_)
  refine (h.nodup_listing horder).imp_of_mem fun {a b} ha hb hne => ?_
  -- different names make different children
  unfold Path.same
  rw [decide_eq_false_iff_not, id_eq, id_eq, Path.components_child dir (hnormal a ha),
    Path.components_child dir (hnormal b hb)]
  intro heq
  exact hne (by simpa using heq)

/-- What is found in one of two directories does not cover what is found in the other, if neither
does its directory. -/
theorem not_covers_of_mem {a b q : Path} {place' : Location} (ha : disk.Filed a place)
    (hb : disk.Filed b place') (horder : disk.InOrder) (hab : b.covers a = false)
    (hp : p ∈ entriesOf disk a) (hq : q ∈ entriesOf disk b) : q.covers p = false := by
  obtain ⟨n, hn⟩ := components_of_mem_entriesOf ha horder hp
  obtain ⟨m, hm⟩ := components_of_mem_entriesOf hb horder hq
  refine Bool.eq_false_iff.mpr fun hcovers => ?_
  unfold Path.covers at hab hcovers
  rw [hn, hm, List.isPrefixOf_iff_prefix] at hcovers
  have hprefix : b.components <+: a.components := by
    have hlength := hcovers.length_le
    simp only [List.length_append, List.length_singleton] at hlength
    exact List.prefix_of_prefix_length_le ((List.prefix_append _ _).trans hcovers)
      (List.prefix_append _ _) (by omega)
  rw [List.isPrefixOf_iff_prefix.mpr hprefix] at hab
  exact absurd hab (by simp)

/-- Nor does a later one of the same directory cover an earlier one. -/
theorem entriesOf_parents_first (h : disk.Filed dir place) (horder : disk.InOrder) :
    (entriesOf disk dir).Pairwise fun a b => b.covers a = false := by
  refine (entriesOf_before h horder).imp_of_mem fun {a b} ha hb hab => ?_
  obtain ⟨n, hn⟩ := components_of_mem_entriesOf h horder ha
  obtain ⟨m, hm⟩ := components_of_mem_entriesOf h horder hb
  refine Bool.eq_false_iff.mpr fun hcovers => ?_
  unfold Path.covers at hcovers
  rw [hn, hm, List.isPrefixOf_iff_prefix, List.prefix_append_right_inj,
    List.cons_prefix_cons] at hcovers
  -- they would have the same name, and so not be one before the other
  unfold Path.before at hab
  rw [hn, hm, hcovers.1, Path.compareComponents_eq, Std.ReflOrd.compare_self] at hab
  exact absurd hab (by decide)

end ChangeWatch.DirTree
