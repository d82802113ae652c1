import ChangeWatch.Proofs.Service.Steps
import ChangeWatch.Proofs.Strategy.Listing
import ChangeWatch.Proofs.Strategy.Walk

/-!
# A walk over a tree that grows

Between two errands of a walk anything may be added to the disk, so what a walk
has done says nothing of what stands there now.  What counts is what an errand has
still to come by: it `Covers` the directories below its start, to list a directory
covers what is below it, and one step registers what it covers or leaves it to the
errands that follow (`advance_walked`).

Tree and service belong together (`Rooted`): whatever the service has a key for
is kept in the tree under that key, with its depth.
-/

namespace ChangeWatch.Growing

open DirTree

/-- A path names a directory that stands so many levels below the root. -/
def Spot (root : Location) (disk : Disk) (path : Path) (depth : Nat) : Prop :=
  ∃ rel, path = Location.toPath (root ++ rel) ∧ rel.length = depth ∧
    disk.entry? (root ++ rel) = some .dir

/-- A directory within bounds whose path is not too long to be asked for. -/
structure Wanted (root : Location) (maxDepth : Nat) (disk : Disk) (dir : Location) : Prop where
  below : ∃ rel, dir = root ++ rel ∧ rel.length ≤ maxDepth
  stands : disk.entry? dir = some .dir
  short : dir.Short

/-- A directory is registered. -/
def Known (service : Service) (dir : Location) : Prop :=
  (service.keyOf? dir.toPath).isSome = true

/-- The disk is in order, the service refuses nothing, and what has a key is kept in
the tree. -/
structure Rooted (root : Location) (maxDepth : Nat) (g : Ground) (t : DirTree) : Prop where
  order : g.disk.InOrder
  top : t.root = root.toPath
  depth : t.maxDepth = maxDepth
  stands : g.disk.entry? root = some .dir
  service : ∃ s, g.service = .memory s ∧ s.Obliging ∧ ∀ entry ∈ s.dirs, ∃ depth,
    Spot root g.disk entry.1 depth ∧ t.node? entry.2 = some ⟨entry.1, depth⟩ ∧
      entry.2.id < s.nextKey

variable {root dir : Location} {maxDepth depth : Nat} {g : Ground} {t : DirTree}
  {disk disk' : Disk} {path : Path} {key : Key} {errand : Errand} {kinds : List EventKind}

/-! ### Spots -/

theorem Spot.grown (h : Spot root disk path depth) (hgrown : disk.Grown disk') :
    Spot root disk' path depth := by
  obtain ⟨rel, hpath, hdepth, hstands⟩ := h
  exact ⟨rel, hpath, hdepth, hgrown _ _ hstands⟩

/-- A registered directory is kept in the tree under its key. -/
theorem Rooted.node (h : Rooted root maxDepth g t) (hnames : ∀ n ∈ dir, IsName n)
    (hkey : g.service.keyOf? dir.toPath = some key) :
    ∃ rel, dir = root ++ rel ∧ g.disk.entry? dir = some .dir ∧
      t.node? key = some ⟨dir.toPath, rel.length⟩ := by
  obtain ⟨s, hs, -, hdirs⟩ := h.service
  rw [hs] at hkey
  obtain ⟨entry, hfind, rfl⟩ := Option.map_eq_some_iff.mp hkey
  obtain ⟨depth, hspot, hnode, -⟩ := hdirs entry (List.mem_of_find?_eq_some hfind)
  obtain ⟨rel, hpath, rfl, hstands⟩ := hspot
  have hsame := List.find?_some hfind
  rw [hpath] at hsame
  obtain rfl := (Location.same_toPath (h.order.names hstands) hnames).mp hsame
  exact ⟨rel, rfl, hstands, by rw [hnode, hpath]⟩

/-- The disk may grow. -/
theorem Rooted.grown (h : Rooted root maxDepth g t) (hgrown : g.disk.Grown disk')
    (horder : disk'.InOrder) {s s' : MemoryService} (hs : g.service = .memory s)
    (hobliging : s'.Obliging) (hdirs : s'.dirs = s.dirs) (hnext : s'.nextKey = s.nextKey) :
    Rooted root maxDepth ⟨.memory s', disk'⟩ t := by
  refine ⟨horder, h.top, h.depth, hgrown _ _ h.stands, s', rfl, hobliging, ?_⟩
  obtain ⟨s₁, hs₁, -, hall⟩ := h.service
  obtain rfl := Service.memory.inj (hs.symm.trans hs₁)
  rw [hdirs, hnext]
  intro entry hentry
  obtain ⟨depth, hspot, hnode, hkey⟩ := hall entry hentry
  exact ⟨depth, hspot.grown hgrown, hnode, hkey⟩

/-! ### Errands -/

/-- The errand is about a directory below the root, and knows how deep it is. -/
def Aimed (root : Location) (disk : Disk) : Errand → Prop
  | .look start depth | .enter start depth | .list start depth => Spot root disk start depth

/-- A directory that an errand comes by, or leads to one that does. -/
def Covers (dir : Location) : Errand → Prop
  | .look start _ | .enter start _ => ∃ top rest, start = Location.toPath top ∧ dir = top ++ rest
  | .list start _ => ∃ top n rest, start = Location.toPath top ∧ dir = top ++ n :: rest

theorem Aimed.grown (h : Aimed root disk errand) (hgrown : disk.Grown disk') :
    Aimed root disk' errand := by
  cases errand <;> exact Spot.grown h hgrown

/-- What is below a directory that is covered is covered too. -/
theorem Covers.below (h : Covers dir errand) (n : Bytes) : Covers (dir ++ [n]) errand := by
  cases errand with
  | look start depth =>
    obtain ⟨top, rest, hstart, rfl⟩ := h
    exact ⟨top, rest ++ [n], hstart, by rw [List.append_assoc]⟩
  | enter start depth =>
    obtain ⟨top, rest, hstart, rfl⟩ := h
    exact ⟨top, rest ++ [n], hstart, by rw [List.append_assoc]⟩
  | list start depth =>
    obtain ⟨top, m, rest, hstart, rfl⟩ := h
    exact ⟨top, m, rest ++ [n], hstart, by rw [List.append_assoc]; rfl⟩

/-- What one step of a walk brings about. -/
structure Walked (root : Location) (maxDepth : Nat) (g : Ground) (errand : Errand)
    (more : List Errand) (k : Walk Ground) : Prop where
  failure : k.failure = none
  rooted : Rooted root maxDepth k.site k.tree
  disk : k.site.disk = g.disk
  signals : k.site.service.signals = g.service.signals
  kept : ∀ path key, g.service.keyOf? path = some key → k.site.service.keyOf? path = some key
  aimed : ∀ e ∈ more, Aimed root g.disk e
  covered : ∀ dir, Wanted root maxDepth g.disk dir → Covers dir errand →
    Known k.site.service dir ∨ ∃ e ∈ more, Covers dir e
  fresh : ∀ dir, (∀ n ∈ dir, IsName n) → Known k.site.service dir →
    Known g.service dir ∨ dir.toPath ∈ k.registered

/-- A step that registers nothing. -/
theorem Walked.still {more : List Errand} {warnings : List Warning}
    (h : Rooted root maxDepth g t) (haimed : ∀ e ∈ more, Aimed root g.disk e)
    (hcovered : ∀ dir, Wanted root maxDepth g.disk dir → Covers dir errand →
      ∃ e ∈ more, Covers dir e) :
    Walked root maxDepth g errand more ⟨g, t, [], warnings, none⟩ :=
  ⟨rfl, h, rfl, rfl, fun _ _ hk => hk, haimed, fun dir hd hc => Or.inr (hcovered dir hd hc),
    fun _ _ hk => Or.inl hk⟩

/-- What stands above a wanted directory is a directory that can be asked for. -/
theorem Wanted.above {top rest : Location} (h : Wanted root maxDepth disk (top ++ rest))
    (horder : disk.InOrder) : disk.entry? top = some .dir ∧ top.Short := by
  refine ⟨?_, h.short.of_append⟩
  by_cases hrest : rest = []
  · have hstands := h.stands
    rwa [hrest, List.append_nil] at hstands
  · exact horder.dir_of_append hrest h.stands

/-- A wanted directory is not deeper than the tree goes. -/
theorem Wanted.length_le {rel rest : Location} (h : Wanted root maxDepth disk (root ++ rel ++ rest)) :
    rel.length + rest.length ≤ maxDepth := by
  obtain ⟨rel', heq, hle⟩ := h.below
  rw [List.append_assoc] at heq
  rw [← List.append_cancel_left heq, List.length_append] at hle
  exact hle

/-! ### One step of a walk -/

/-- Looking at the start of a walk leads to entering it. -/
theorem look_walked (h : Rooted root maxDepth g t) (haimed : Spot root g.disk path depth) :
    Walked root maxDepth g (.look path depth) (advance kinds (.look path depth) (.start g t)).1
      (advance kinds (.look path depth) (.start g t)).2 := by
  obtain ⟨rel, rfl, rfl, hstands⟩ := haimed
  -- a wanted directory below makes the start one that is walked
  have hfound : ∀ dir, Wanted root maxDepth g.disk dir →
      Covers dir (.look (Location.toPath (root ++ rel)) rel.length) →
        rel.length ≤ maxDepth ∧ (root ++ rel).Short := by
    rintro dir hdir ⟨top, rest, htop, rfl⟩
    obtain rfl := Location.toPath_injective (h.order.names hstands)
      (fun n hn => h.order.names hdir.stands n (List.mem_append_left _ hn)) htop
    exact ⟨by have := hdir.length_le; omega, hdir.short.of_append⟩
  have hsite : Site.disk (Walk.start g t).site = g.disk := rfl
  simp only [advance, hsite]
  by_cases hdeep : (Walk.start g t).tree.maxDepth < rel.length
  · rw [if_pos hdeep]
    refine .still h (by simp) fun dir hdir hcovers => ?_
    have hle := (hfound dir hdir hcovers).1
    rw [← h.depth] at hle
    exact absurd hdeep (Nat.not_lt.mpr hle)
  · rw [if_neg hdeep]
    by_cases hshort : (root ++ rel).Short
    · have hfooting : footing g.disk (Location.toPath (root ++ rel)) = .directory := by
        unfold footing
        rw [h.order.lstat_toPath hstands hshort]
      rw [hfooting]
      refine .still h ?_ fun dir _ hcovers => ⟨_, List.mem_singleton_self _, hcovers⟩
      intro e he
      rw [List.mem_singleton.mp he]
      exact ⟨rel, rfl, rfl, hstands⟩
    · have hnone : ∀ dir, Wanted root maxDepth g.disk dir →
          ¬ Covers dir (.look (Location.toPath (root ++ rel)) rel.length) :=
        fun dir hdir hcovers => hshort (hfound dir hdir hcovers).2
      have hfooting : footing g.disk (Location.toPath (root ++ rel)) = .unreadable := by
        unfold footing
        rw [(Disk.InOrder.stat_of_long (h.order.names hstands) hshort).2]
      rw [hfooting]
      exact .still h (by simp) fun dir hdir hcovers => absurd hcovers (hnone dir hdir)

/-- Listing finds the directories in a directory, unless its path is too long to be
asked for. -/
theorem mem_subdirectories (horder : disk.InOrder) (hstands : disk.entry? dir = some .dir)
    {child : Path} : child ∈ subdirectories disk dir.toPath ↔
      dir.Short ∧ ∃ n, child = Location.toPath (dir ++ [n]) ∧ disk.entry? (dir ++ [n]) = some .dir := by
  have hchild : ∀ {n : Bytes}, disk.entry? (dir ++ [n]) = some .dir →
      dir.toPath.child n = Location.toPath (dir ++ [n]) := fun hbelow =>
    Location.child_toPath (horder.names hstands) (horder.above hbelow).1
  rw [DirTree.mem_subdirectories (horder.filed_toPath hstands) horder]
  constructor
  · rintro ⟨n, hshort, hbelow, rfl⟩
    exact ⟨hshort, n, hchild hbelow, hbelow⟩
  · rintro ⟨hshort, n, rfl, hbelow⟩
    exact ⟨n, hshort, hbelow, (hchild hbelow).symm⟩

/-- Listing a directory leads to entering the directories in it. -/
theorem list_walked (h : Rooted root maxDepth g t) (haimed : Spot root g.disk path depth) :
    Walked root maxDepth g (.list path depth) (advance kinds (.list path depth) (.start g t)).1
      (advance kinds (.list path depth) (.start g t)).2 := by
  obtain ⟨rel, rfl, rfl, hstands⟩ := haimed
  have hnames := h.order.names hstands
  have hsite : Site.disk (Walk.start g t).site = g.disk := rfl
  simp only [advance, hsite]
  by_cases hdeep : rel.length < (Walk.start g t).tree.maxDepth
  · rw [if_pos hdeep]
    refine .still h ?_ ?_
    · intro e he
      obtain ⟨child, hchild, rfl⟩ := List.mem_map.mp he
      obtain ⟨-, n, rfl, hbelow⟩ := (mem_subdirectories h.order hstands).mp hchild
      exact ⟨rel ++ [n], by rw [List.append_assoc], by simp, by rwa [← List.append_assoc]⟩
    · -- what is wanted below stands in one of the directories that are found
      rintro dir hdir ⟨top, n, rest, htop, rfl⟩
      obtain rfl := Location.toPath_injective hnames
        (fun m hm => h.order.names hdir.stands m (List.mem_append_left _ hm)) htop
      have hsplit : root ++ rel ++ n :: rest = (root ++ rel ++ [n]) ++ rest := by simp
      rw [hsplit] at hdir
      have hchild := (hdir.above h.order).1
      have hshort : (root ++ rel).Short := (hdir.above h.order).2.of_append
      refine ⟨.enter (Location.toPath (root ++ rel ++ [n])) (rel.length + 1), ?_,
        ⟨_, rest, rfl, hsplit⟩⟩
      exact List.mem_map.mpr ⟨_, (mem_subdirectories h.order hstands).mpr ⟨hshort, n, rfl, hchild⟩,
        rfl⟩
  · rw [if_neg hdeep]
    refine .still h (by simp) ?_
    rintro dir hdir ⟨top, n, rest, htop, rfl⟩
    obtain rfl := Location.toPath_injective hnames
      (fun m hm => h.order.names hdir.stands m (List.mem_append_left _ hm)) htop
    have hle := hdir.length_le
    rw [← h.depth, List.length_cons] at hle
    have hdeep : ¬ rel.length < t.maxDepth := hdeep
    omega

/-- Registering a directory keeps tree and service together. -/
theorem Rooted.registered (h : Rooted root maxDepth g t) {s s' : MemoryService}
    (hs : g.service = .memory s) (hregisters : s.Registers path key s')
    (hspot : Spot root g.disk path depth) :
    Rooted root maxDepth ⟨.memory s', g.disk⟩ (t.setNode key ⟨path, depth⟩) := by
  obtain ⟨s₁, hs₁, hobliging, hall⟩ := h.service
  obtain rfl := Service.memory.inj (hs.symm.trans hs₁)
  refine ⟨h.order, (setNode_root _ _ _).trans h.top, (setNode_maxDepth _ _ _).trans h.depth,
    h.stands, s', rfl, hregisters.obliging hobliging, ?_⟩
  intro entry hentry
  cases hregisters with
  | again hkey =>
    obtain ⟨depth', hspot', hnode, hless⟩ := hall entry hentry
    refine ⟨depth', hspot', ?_, hless⟩
    rw [node?_setNode]
    split
    · next heq =>
      -- the directory has this key already, and so the node is the same
      obtain ⟨rel, rfl, rfl, hstands⟩ := hspot
      rw [heq] at hnode
      obtain ⟨rel', hrel, -, hnode'⟩ := h.node (h.order.names hstands) (by rw [hs]; exact hkey)
      obtain rfl := List.append_cancel_left hrel
      exact hnode'.symm.trans hnode
    · exact hnode
  | anew hnone =>
    rcases List.mem_append.mp hentry with hentry | hentry
    · obtain ⟨depth', hspot', hnode, hless⟩ := hall entry hentry
      refine ⟨depth', hspot', ?_, Nat.lt_succ_of_lt hless⟩
      rw [node?_setNode, if_neg ?_, hnode]
      intro heq
      rw [heq] at hless
      exact absurd hless (Nat.lt_irrefl _)
    · rw [List.mem_singleton.mp hentry]
      exact ⟨depth, hspot, by rw [node?_setNode, if_pos rfl], Nat.lt_succ_self _⟩

/-- What entering a directory comes to when the service refuses nothing. -/
theorem enter_registers {s s' : MemoryService} (hs : g.service = .memory s)
    (hregister : s.register g.disk path kinds = (.ok key, s', g.disk)) (t : DirTree) (depth : Nat) :
    ∃ warnings, enter kinds path depth (.start g t) =
      (decide (depth < t.maxDepth) && g.disk.isDir path,
        ⟨⟨.memory s', g.disk⟩, t.setNode key ⟨path, depth⟩, [path], warnings, none⟩) := by
  obtain ⟨service, disk⟩ := g
  obtain rfl : service = .memory s := hs
  have hsite : Site.register path kinds (Walk.start ⟨.memory s, disk⟩ t).site =
      ((.ok key, ⟨.memory s', disk⟩) : Except WatchError Key × Ground) := by
    simp only [Walk.start, Site.register, Service.register, hregister]
  have hdisk : Site.disk (Walk.start (Ground.mk (.memory s) disk) t).site = disk := rfl
  unfold enter
  rw [hsite, hdisk]
  dsimp only
  have hmax : (t.setNode key ⟨path, depth⟩).maxDepth = t.maxDepth := setNode_maxDepth _ _ _
  simp only [Walk.start, hmax]
  by_cases hdeep : t.maxDepth ≤ depth
  · rw [if_pos hdeep, decide_eq_false (Nat.not_lt.mpr hdeep)]
    exact ⟨[], rfl⟩
  · rw [if_neg hdeep, decide_eq_true (Nat.not_le.mp hdeep)]
    cases disk.isDir path with
    | true => exact ⟨[], rfl⟩
    | false => exact ⟨[.unreadableEntry], rfl⟩

/-- Entering a directory registers it, and leads to listing it. -/
theorem enter_walked (h : Rooted root maxDepth g t) (haimed : Spot root g.disk path depth) :
    Walked root maxDepth g (.enter path depth) (advance kinds (.enter path depth) (.start g t)).1
      (advance kinds (.enter path depth) (.start g t)).2 := by
  obtain ⟨s, hs, hobliging, -⟩ := h.service
  obtain ⟨key, s', hregister, hregisters⟩ := hobliging.register g.disk path kinds
  obtain ⟨warnings, henter⟩ := enter_registers hs hregister t depth
  have hmore : advance kinds (.enter path depth) (.start g t) =
      (if (decide (depth < t.maxDepth) && g.disk.isDir path) = true then [.list path depth] else [],
        ⟨⟨.memory s', g.disk⟩, t.setNode key ⟨path, depth⟩, [path], warnings, none⟩) := by
    simp only [advance, henter]
    split <;> simp_all
  rw [hmore]
  have hknown : Service.keyOf? path (.memory s') = some key := hregisters.known
  obtain ⟨rel, hpath, hdepth, hstands⟩ := haimed
  have hnames := h.order.names hstands
  refine ⟨rfl, h.registered hs hregisters ⟨rel, hpath, hdepth, hstands⟩, rfl, ?_, ?_, ?_, ?_, ?_⟩
  · rw [hs]
    exact hregisters.queue
  · intro p k hk
    rw [hs] at hk
    exact hregisters.kept hk
  · intro e he
    split at he
    · rw [List.mem_singleton.mp he]
      exact ⟨rel, hpath, hdepth, hstands⟩
    · exact absurd he List.not_mem_nil
  · rintro dir hdir ⟨top, rest, htop, rfl⟩
    obtain rfl := Location.toPath_injective hnames
      (fun n hn => h.order.names hdir.stands n (List.mem_append_left _ hn)) (hpath.symm.trans htop)
    -- the directory itself is registered now, and what is below it is left to the listing
    cases rest with
    | nil =>
      left
      rw [List.append_nil, Known, ← hpath, hknown]
      rfl
    | cons n rest =>
      right
      have hle := hdir.length_le
      rw [List.length_cons] at hle
      have hbelow : depth < t.maxDepth := by rw [h.depth]; omega
      have hopened : g.disk.isDir path = true := by
        rw [hpath]
        exact h.order.isDir_toPath hstands hdir.short.of_append
      rw [decide_eq_true hbelow, hopened]
      exact ⟨.list path depth, List.mem_singleton_self _, _, n, rest, hpath, rfl⟩
  · intro dir hnames' hdir
    have hdir : (s'.keyOf? dir.toPath).isSome = true := hdir
    rcases hregisters.only hdir with hold | hsame
    · left
      rw [Known, hs]
      exact hold
    · right
      rw [hpath] at hsame ⊢
      rw [(Location.same_toPath hnames hnames').mp hsame]
      exact List.mem_singleton_self _

/-- Every step of a walk. -/
theorem advance_walked (h : Rooted root maxDepth g t) (haimed : Aimed root g.disk errand) :
    Walked root maxDepth g errand (advance kinds errand (.start g t)).1
      (advance kinds errand (.start g t)).2 := by
  cases errand with
  | look start depth => exact look_walked h haimed
  | enter dir depth => exact enter_walked h haimed
  | list dir depth => exact list_walked h haimed

end ChangeWatch.Growing
