import ChangeWatch.Proofs.Strategy.Sweep

/-!
# What is found when a directory is picked up

The directories that were registered are listed one after the other, and what is listed in one
of them stands together and in path order (`existingEntries_eq`).  On a disk that stays as it
is, all that is found in a sweep is what stands right in its directories, each entry once, and a
directory before what is in it (`FoundExactly`); the start of the sweep is not found.

`onCreated_exactly` puts the walk and the listing together.  Where nothing is to be picked up,
nothing is registered and no node changes (`onCreated_ignores`).
-/

namespace ChangeWatch.DirTree

variable {disk : Disk} {dir p start : Path} {place top : Location} {names : List Bytes} {n : Bytes}
  {levels : Nat}

/-! ### All that is found -/

/-- What is reached from a filed path is filed where its names lead. -/
theorem Reached.filed (h : Reached disk dir place names) (horder : disk.InOrder)
    (hdir : disk.Filed dir place) : disk.Filed (names.foldl Path.child dir) (place ++ names) := by
  induction h with
  | here => rwa [List.append_nil]
  | @down dir place n names hshort he _ ih =>
    have hrest := ih (hdir.child horder hshort he)
    rwa [List.append_assoc] at hrest

/-- This is found in the directories that can be reached from a start so many levels down: what
stands right in one of them, unless its path is too long to be asked for.  What is found in one of
them stands together and strictly in path order.  Nothing covers what comes before it, so nothing
is found twice, and a directory comes before what is in it; and the start is not found. -/
structure FoundExactly (disk : Disk) (start : Path) (top : Location) (levels : Nat)
    (dirs found : List Path) : Prop where
  listed : ∀ p, p ∈ found ↔ ∃ names n, names.length ≤ levels ∧ Reached disk start top names ∧
    (names.foldl Path.child start).Short ∧ (disk.entry? (top ++ names ++ [n])).isSome = true ∧
      p = (names.foldl Path.child start).child n
  together : ∃ lists, found = lists.flatten ∧ List.Forall₂
    (fun dir list => (∀ p ∈ list, ∃ n, p = dir.child n) ∧ list.Pairwise Path.before) dirs lists
  parentsFirst : found.Pairwise fun a b => b.covers a = false
  beyond : ∀ p ∈ found, start.same p = false

theorem foundExactly {dirs : List Path} (horder : disk.InOrder)
    (hstart : disk.stat start = .ok (top, .dir))
    (hdirs : ∀ dir, dir ∈ dirs ↔ ∃ names, names.length ≤ levels ∧ Reached disk start top names ∧
      dir = names.foldl Path.child start)
    (hfirst : dirs.Pairwise fun a b => b.covers a = false) :
    FoundExactly disk start top levels dirs (existingEntries disk dirs).1 := by
  have hfiled : ∀ dir ∈ dirs, ∃ place, disk.Filed dir place := by
    intro dir hdir
    obtain ⟨names, -, hreached, rfl⟩ := (hdirs dir).mp hdir
    exact ⟨_, hreached.filed horder (.of_stat hstart)⟩
  have hlisted : ∀ p, p ∈ dirs.flatMap (entriesOf disk) ↔ ∃ names n, names.length ≤ levels ∧
      Reached disk start top names ∧ (names.foldl Path.child start).Short ∧
        (disk.entry? (top ++ names ++ [n])).isSome = true ∧
          p = (names.foldl Path.child start).child n := by
    intro p
    rw [List.mem_flatMap]
    constructor
    · rintro ⟨dir, hdir, hp⟩
      obtain ⟨names, hlength, hreached, rfl⟩ := (hdirs dir).mp hdir
      have hplace := hreached.filed horder (.of_stat hstart)
      obtain ⟨n, hshort, hsome, rfl⟩ := (mem_entriesOf hplace horder).mp hp
      exact ⟨names, n, hlength, hreached, hshort, hsome, rfl⟩
    · rintro ⟨names, n, hlength, hreached, hshort, hsome, rfl⟩
      have hplace := hreached.filed horder (.of_stat hstart)
      exact ⟨_, (hdirs _).mpr ⟨names, hlength, hreached, rfl⟩,
        (mem_entriesOf hplace horder).mpr ⟨n, hshort, hsome, rfl⟩⟩
  rw [existingEntries_eq]
  refine ⟨hlisted, ⟨dirs.map (entriesOf disk), List.flatMap_def, ?_⟩, ?_, fun p hp => ?_⟩
  · refine List.forall₂_map_right_iff.mpr (List.forall₂_same.mpr fun dir hdir => ?_)
    obtain ⟨place, hplace⟩ := hfiled dir hdir
    refine ⟨fun p hp => ?_, entriesOf_before hplace horder⟩
    obtain ⟨n, -, -, rfl⟩ := (mem_entriesOf hplace horder).mp hp
    exact ⟨n, rfl⟩
  · -- within one directory by the order of names, else by that of the directories
    refine List.pairwise_flatMap.mpr ⟨fun dir hdir => ?_, ?_⟩
    · obtain ⟨place, hplace⟩ := hfiled dir hdir
      exact entriesOf_parents_first hplace horder
    · refine hfirst.imp_of_mem fun {a b} ha hb hab p hp q hq => ?_
      obtain ⟨place, hplace⟩ := hfiled a ha
      obtain ⟨place', hplace'⟩ := hfiled b hb
      exact not_covers_of_mem hplace hplace' horder hab hp hq
  · obtain ⟨names, n, -, hreached, -, hsome, rfl⟩ := (hlisted p).mp hp
    obtain ⟨e, he⟩ := Option.isSome_iff_exists.mp hsome
    have hbelow := (hreached.leadsDown horder).child (horder.above he).1.normal
    exact Path.same_of_not_covers (hbelow.not_covers (by simp))

/-! ### Picking up -/

variable {σ : Type} [Site σ] {ready : σ → Prop} {calls : σ → List Grant} {s : σ} {t : DirTree}
  {key : Key} {node : Node} {path : Path}

/-- What was created at a path under the key of a node was picked up: what can be reached from
there within the bound is registered and kept under the keys that were given, other keys keep what
they had, and what is in the new directories was found. -/
structure PicksUpExactly (calls : σ → List Grant) (s : σ) (t : DirTree) (node : Node) (path : Path)
    (top : Location) (kinds : List EventKind) (found : List Path) (w : Walk σ) : Prop where
  disk : Site.disk w.site = Site.disk s
  outcome : ∃ grants, calls w.site = calls s ++ grants ∧
    GrantsExactly (Site.disk s) path top (t.maxDepth - (node.depth + 1)) kinds grants ∧
    (∀ g ∈ grants, ∃ names, Reached (Site.disk s) path top names ∧
      g.dir = names.foldl Path.child path ∧
        w.tree.node? g.key = some ⟨g.dir, node.depth + 1 + names.length⟩) ∧
    (∀ k ∉ grants.map (·.key), w.tree.node? k = t.node? k) ∧
    FoundExactly (Site.disk s) path top (t.maxDepth - (node.depth + 1)) (grants.map (·.dir)) found

/-- If the walk ends well, what it registered is listed. -/
theorem onCreated_eq {depth : Nat} {kinds : List EventKind} {w : Walk σ}
    (hpickup : t.pickupDepth? (Site.disk s) key path = some depth)
    (hwalk : registerTree kinds path depth (.start s t) = w) (hfailure : w.failure = none) :
    t.onCreated s key path kinds =
      (.ok (existingEntries (Site.disk w.site) w.registered).1,
        { w with warnings :=
            w.warnings ++ (existingEntries (Site.disk w.site) w.registered).2 }) := by
  unfold onCreated
  rw [hpickup]
  dsimp only
  rw [hwalk, hfailure]

/-- A real directory that was created under a known key and not too deep is picked up. -/
theorem onCreated_exactly (law : Granting ready calls) (hready : ready s)
    (horder : (Site.disk s).InOrder) (hnode : t.node? key = some node)
    (hdepth : node.depth + 1 ≤ t.maxDepth) (hpath : (Site.disk s).lstat path = .ok (top, .dir))
    (kinds : List EventKind) : ∃ found w, t.onCreated s key path kinds = (.ok found, w) ∧
      PicksUpExactly calls s t node path top kinds found w := by
  have hstat := Disk.stat_of_lstat hpath
  have hpickup : t.pickupDepth? (Site.disk s) key path = some (node.depth + 1) := by
    unfold pickupDepth? Disk.isDir
    rw [hstat, hnode]
    exact if_pos hdepth
  have hstart : (Site.disk (Walk.start s t).site).lstat path = .ok (top, .dir) := hpath
  -- it is one level below the node, and so much less is left of the bound
  have hsweeps : Sweeps ready calls kinds
      (sweep (Site.disk s) (t.maxDepth - (node.depth + 1)) path (node.depth + 1)) (.start s t)
      (registerTree kinds path (node.depth + 1) (.start s t)) :=
    registerTree_sweeps law rfl hready hdepth hstart
  obtain ⟨entries, hw, hgrants, hmem, -, hkeys⟩ := hsweeps.exactly law horder hstat
  have hresult := onCreated_eq hpickup rfl hw.failure
  have hsame : Site.disk (registerTree kinds path (node.depth + 1) (.start s t)).site =
      Site.disk s := hw.disk
  have hdirs : (registerTree kinds path (node.depth + 1) (.start s t)).registered =
      (entries.map (grantOf kinds)).map (·.dir) := by
    rw [hw.registered, List.map_map]
    rfl
  rw [hsame, hdirs] at hresult
  refine ⟨_, _, hresult, ⟨hsame, entries.map (grantOf kinds), hw.calls, hgrants, ?_, ?_, ?_⟩⟩
  · intro g hg
    obtain ⟨entry, hentry, rfl⟩ := List.mem_map.mp hg
    obtain ⟨names, -, hreached, heq⟩ := (hmem entry.2).mp (List.mem_map_of_mem hentry)
    have hkept := hw.node? hkeys hentry
    rw [heq] at hkept
    refine ⟨names, hreached, congrArg Node.dir heq, hkept.trans ?_⟩
    exact congrArg (fun dir => some (Node.mk dir _)) (congrArg Node.dir heq).symm
  · intro k hk
    refine (congrArg (node? · k) hw.tree).trans ?_
    refine node?_setNodes_of_ne fun entry hentry heq => hk ?_
    rw [← heq, List.map_map]
    exact List.mem_map_of_mem hentry
  · exact foundExactly horder hstat hgrants.reached (List.pairwise_map.mpr hgrants.parentsFirst)

/-- What was created under an unknown key, is no directory and no link to one, or is too deep, is
not picked up. -/
theorem onCreated_ignores (s : σ) (kinds : List EventKind)
    (h : t.node? key = none ∨ (Site.disk s).isDir path = false ∨
      ∃ node, t.node? key = some node ∧ t.maxDepth < node.depth + 1) :
    t.onCreated s key path kinds = (.ok [], .start s t) := by
  have hpickup : t.pickupDepth? (Site.disk s) key path = none := by
    unfold pickupDepth?
    rcases h with hnone | hplain | ⟨node, hnode, hdeep⟩
    · rw [hnone]
      split <;> rfl
    · rw [hplain]
      rfl
    · rw [hnode]
      dsimp only
      rw [if_neg (Nat.not_le.mpr hdeep)]
      split <;> rfl
  unfold onCreated
  rw [hpickup]

end ChangeWatch.DirTree
