import ChangeWatch.Proofs.Path.Order
import ChangeWatch.Proofs.Strategy.Preparing
import ChangeWatch.Proofs.Strategy.Sweep
import ChangeWatch.Proofs.Watch.Growing

/-!
# What is registered at a start

A tree that was just made ready has the path of a real directory as its root
(`DirTree.prepare_root`), and no nodes.  To register it is to register what can be reached from
the root by real directories within the bound, each directory once and a parent
before its children, and nothing else; the nodes are then these directories in path order, each
under its key and with its depth (`register_exactly`).

A directory whose path is too long to be asked for is registered, but what is in it cannot be
listed and is left out (`directory_behind_long_path_is_left_out`).
-/

namespace ChangeWatch.DirTree

variable {disk made : Disk} {p : Path} {maxDepth : Nat} {t : DirTree}
  {σ : Type} [Site σ] {ready : σ → Prop} {calls : σ → List Grant}

/-- The root of a tree that was made ready is a real directory.  To register the tree, over any
disk on which its root is still one, comes to an end without a failure.  What is registered for
exactly the given kinds, each directory once and a parent before its children, are the directories
that can be reached from the root through at most `maxDepth` real ones.  The nodes are these
directories with the numbers of names that lead to them, strictly in path order, and under the keys
that were given. -/
theorem register_exactly (law : Granting ready calls)
    (hprepared : prepare disk p maxDepth = (.ok t, made)) :
    (made.InOrder → made.entry? made.cwd = some .dir →
      ∃ top, t.root = Location.toPath top ∧ made.lstat t.root = .ok (top, .dir)) ∧
    ∀ (s : σ) (top : Location) (kinds : List EventKind), ready s → (Site.disk s).InOrder →
      (Site.disk s).lstat t.root = .ok (top, .dir) →
      let w := t.register s kinds
      Walks kinds [.look t.root 0] (.start s t) w ∧ w.failure = none ∧
      Site.disk w.site = Site.disk s ∧
      ∃ grants, calls w.site = calls s ++ grants ∧
        GrantsExactly (Site.disk s) t.root top maxDepth kinds grants ∧
        (∀ node, node ∈ w.tree.sortedNodes ↔ ∃ names, names.length ≤ maxDepth ∧
          Reached (Site.disk s) t.root top names ∧
            node = ⟨names.foldl Path.child t.root, names.length⟩) ∧
        (w.tree.sortedNodes.Pairwise fun a b => a.dir.before b.dir) ∧
        ∀ g ∈ grants, ∃ node ∈ w.tree.sortedNodes, w.tree.node? g.key = some node ∧
          node.dir = g.dir := by
  refine ⟨prepare_root hprepared, ?_⟩
  intro s top kinds hready horder hroot w
  have htree := (prepare_eq hprepared).1
  have hnodes : t.nodes = [] := congrArg DirTree.nodes htree
  have hdepth : t.maxDepth = maxDepth := congrArg DirTree.maxDepth htree
  have hstart : (Site.disk (Walk.start s t).site).lstat t.root = .ok (top, .dir) := hroot
  have hsweeps : Sweeps ready calls kinds (sweep (Site.disk s) (maxDepth - 0) t.root 0)
      (.start s t) w := by
    rw [← hdepth]
    exact registerTree_sweeps law rfl hready (Nat.zero_le _) hstart
  obtain ⟨entries, hw, hgrants, hmem, hfirst, hkeys⟩ :=
    hsweeps.exactly law horder (Disk.stat_of_lstat hroot)
  rw [Nat.sub_zero] at hgrants hmem
  simp only [Nat.zero_add] at hmem
  -- no node was there before, so the nodes are those of the sweep
  have hkept : w.tree.nodes = entries := by
    rw [hw.tree]
    refine (nodes_setNodes hkeys fun old hold => ?_).trans ?_
    · exact absurd (hnodes ▸ hold) List.not_mem_nil
    · exact (congrArg (· ++ entries) hnodes).trans (List.nil_append _)
  have hsorted : ∀ node, node ∈ w.tree.sortedNodes ↔ node ∈ entries.map (·.2) := by
    intro node
    unfold sortedNodes
    rw [List.mem_mergeSort, hkept]
  refine ⟨walks_registerTree rfl _ _, hw.failure, hw.disk, entries.map (grantOf kinds), hw.calls,
    hgrants, fun node => (hsorted node).trans (hmem node), ?_, fun g hg => ?_⟩
  · refine Path.mergeSort_before Node.dir ?_
    rw [hkept]
    exact List.pairwise_map.mpr (hfirst.imp fun hab => Path.same_of_not_covers hab)
  · obtain ⟨entry, hentry, rfl⟩ := List.mem_map.mp hg
    exact ⟨entry.2, (hsorted entry.2).mpr (List.mem_map_of_mem hentry), hw.node? hkeys hentry, rfl⟩

/-- Of a tree with `a` and `a/b` in it, a link to itself and a file, what is one level deep is
registered. -/
theorem one_level_is_registered :
    let disk := (nestedDisk.put [[119], [108]] (.link ⟨[46]⟩)).put [[119], [102]] (.file [])
    let g : Ground := ⟨.memory (.new .none), disk⟩
    let t : DirTree := ⟨Location.toPath [[119]], 1, []⟩
    g.Counting ∧ prepare disk t.root 1 = (.ok t, disk) ∧ disk.InOrder ∧
      disk.lstat t.root = .ok ([[119]], .dir) ∧
      GrantsExactly disk t.root [[119]] 1 [.create] (t.register g [.create]).site.grants ∧
      (t.register g [.create]).site.grants =
        [⟨Location.toPath [[119]], [.create], ⟨0⟩⟩, ⟨Location.toPath [[119], [97]], [.create], ⟨1⟩⟩] ∧
      (t.register g [.create]).tree.nodes =
        [(⟨0⟩, ⟨Location.toPath [[119]], 0⟩), (⟨1⟩, ⟨Location.toPath [[119], [97]], 1⟩)] := by
  intro disk g t
  have hcounting : g.Counting := ⟨_, rfl, MemoryService.counting_new rfl rfl⟩
  have hprepared : prepare disk t.root 1 = (.ok t, disk) := by decide +kernel
  have horder : disk.InOrder := by decide +kernel
  have hroot : disk.lstat t.root = .ok ([[119]], .dir) := by decide +kernel
  obtain ⟨-, hregister⟩ := register_exactly granting_memory hprepared
  obtain ⟨-, -, -, grants, hcalls, hgrants, -⟩ :=
    hregister g [[119]] [.create] hcounting horder hroot
  have hnone : g.grants = [] := by decide +kernel
  rw [hnone, List.nil_append] at hcalls
  refine ⟨hcounting, hprepared, horder, hroot, ?_, by decide +kernel, by decide +kernel⟩
  rw [hcalls]
  exact hgrants

/-! ### Paths that are too long -/

/-- One more directory at the end of a column of long names. -/
def tailDisk (k : Nat) : Disk :=
  (Growing.columnDisk k).put (Growing.column k ++ [[98]]) .dir

theorem tailDisk_inOrder (k : Nat) : (tailDisk k).InOrder := by
  obtain ⟨horder, hdir, hall⟩ := Growing.columnDisk_spec k
  have hfree : Disk.entry? (Growing.columnDisk k) (Growing.column k ++ [[98]]) = none := by
    cases h : Disk.entry? (Growing.columnDisk k) (Growing.column k ++ [[98]]) with
    | none => rfl
    | some e =>
      -- nothing stands so deep
      obtain ⟨m, hm, heq⟩ := hall _ e h
      have hlength := congrArg List.length heq
      simp only [Growing.column, List.length_append, List.length_replicate, List.length_singleton]
        at hlength
      omega
  have hname : IsName [98] := by decide
  exact horder.put hdir hfree hname

/-- Below a directory whose path is too long to be asked for, a real directory two levels down
is not registered. -/
theorem directory_behind_long_path_is_left_out :
    let disk := tailDisk 16
    let g : Ground := ⟨.memory (.new .none), disk⟩
    let t : DirTree := ⟨(Growing.column 15).toPath, 2, []⟩
    let names := [Growing.longName, [98]]
    Granting Ground.Counting Ground.grants ∧ g.Counting ∧
      prepare disk t.root 2 = (.ok t, disk) ∧ disk.InOrder ∧
      disk.lstat t.root = .ok (Growing.column 15, .dir) ∧ names.length ≤ 2 ∧
      (∀ front ∈ names.inits, disk.entry? (Growing.column 15 ++ front) = some .dir) ∧
      ∀ grant ∈ (t.register g [.create]).site.grants,
        grant.dir.same (names.foldl Path.child t.root) = false := by
  intro disk g t names
  refine ⟨granting_memory, ⟨_, rfl, MemoryService.counting_new rfl rfl⟩, ?_, tailDisk_inOrder 16, ?_,
    Nat.le_refl _, ?_, ?_⟩
  · decide +kernel
  · decide +kernel
  · decide +kernel
  · decide +kernel

end ChangeWatch.DirTree
