import ChangeWatch.Proofs.Strategy.Depth
import ChangeWatch.Proofs.Strategy.Granting
import ChangeWatch.Proofs.Strategy.Listing

/-!
# What a walk registers

On a disk that stays as it is, and with a service that grants every registration, a walk from a
directory registers the directories of its `sweep` one after the other, and keeps a node for
each (`registerTree_sweeps`).

A sweep is what can be `Reached` by real directories, so many levels down (`mem_sweep`).  No
directory of it comes behind one that it covers, so none comes twice, and a parent comes before
its children (`sweep_parents_first`); the keys are different for that reason
(`Enrols.keys_differ`), and every node is found under the key that was given (`Enrols.node?`).
-/

namespace ChangeWatch.DirTree

/-! ### What can be reached -/

/-- One comes down by names from a path to a directory, where the names are those of real
directories, and the directories on the way have paths that can be asked for. -/
inductive Reached (disk : Disk) : Path → Location → List Bytes → Prop
  | here (dir : Path) (place : Location) : Reached disk dir place []
  | down {dir : Path} {place : Location} {n : Bytes} {names : List Bytes} :
      dir.Short → disk.entry? (place ++ [n]) = some .dir →
        Reached disk (dir.child n) (place ++ [n]) names → Reached disk dir place (n :: names)

/-- A directory and those below it, so many levels down, a directory before what is in it. -/
def sweep (disk : Disk) : Nat → Path → Nat → List Node
  | 0, dir, depth => [⟨dir, depth⟩]
  | levels + 1, dir, depth =>
    ⟨dir, depth⟩ ::
      (subdirectories disk dir).flatMap fun child => sweep disk levels child (depth + 1)

variable {disk : Disk} {dir child : Path} {place : Location} {names : List Bytes} {n : Bytes}
  {levels depth : Nat} {node : Node}

theorem Reached.leadsDown (horder : disk.InOrder) (h : Reached disk dir place names) :
    Path.Below dir names (names.foldl Path.child dir) := by
  refine ⟨?_, rfl⟩
  induction h with
  | here => exact fun _ hn => absurd hn List.not_mem_nil
  | down _ he _ ih =>
    intro m hm
    rcases List.mem_cons.mp hm with rfl | hm
    · exact (horder.above he).1.normal
    · exact ih m hm

/-- A sweep is what can be reached so many levels down. -/
theorem mem_sweep (h : disk.Filed dir place) (horder : disk.InOrder) :
    node ∈ sweep disk levels dir depth ↔ ∃ names, names.length ≤ levels ∧
      Reached disk dir place names ∧ node = ⟨names.foldl Path.child dir, depth + names.length⟩ := by
  induction levels generalizing dir place depth with
  | zero =>
    rw [sweep, List.mem_singleton]
    constructor
    · rintro rfl
      exact ⟨[], Nat.le_refl _, .here dir place, rfl⟩
    · rintro ⟨names, hlength, -, rfl⟩
      obtain rfl := List.eq_nil_of_length_eq_zero (Nat.le_zero.mp hlength)
      rfl
  | succ levels ih =>
    rw [sweep, List.mem_cons, List.mem_flatMap]
    constructor
    · rintro (rfl | ⟨child, hchild, hnode⟩)
      · exact ⟨[], Nat.zero_le _, .here dir place, rfl⟩
      · obtain ⟨n, hshort, he, rfl⟩ := (mem_subdirectories h horder).mp hchild
        obtain ⟨names, hlength, hreached, rfl⟩ := (ih (h.child horder hshort he)).mp hnode
        refine ⟨n :: names, Nat.succ_le_succ hlength, .down hshort he hreached, ?_⟩
        rw [List.foldl_cons, List.length_cons, Nat.add_assoc, Nat.add_comm 1]
    · rintro ⟨names, hlength, hreached, rfl⟩
      cases hreached with
      | here => exact Or.inl rfl
      | @down _ _ n names hshort he hreached =>
        refine Or.inr ⟨dir.child n, (mem_subdirectories h horder).mpr ⟨n, hshort, he, rfl⟩, ?_⟩
        refine (ih (h.child horder hshort he)).mpr
          ⟨names, Nat.le_of_succ_le_succ hlength, hreached, ?_⟩
        rw [List.foldl_cons, List.length_cons, Nat.add_assoc, Nat.add_comm 1]

/-- What comes later in a sweep does not cover what comes before it. -/
theorem sweep_parents_first (levels depth : Nat) (h : disk.Filed dir place)
    (horder : disk.InOrder) :
    (sweep disk levels dir depth).Pairwise fun a b => b.dir.covers a.dir = false := by
  induction levels generalizing dir place depth with
  | zero => exact List.pairwise_singleton _ _
  | succ levels ih =>
    -- below a child there is nothing but what goes down from it
    have hbelow : ∀ {n : Bytes} {node : Node}, dir.child n ∈ subdirectories disk dir →
        Path.Normal n → node ∈ sweep disk levels (dir.child n) (depth + 1) →
          ∃ names, Path.Below (dir.child n) names node.dir := by
      intro n node hchild hn hnode
      obtain ⟨m, hshort, he, heq⟩ := (mem_subdirectories h horder).mp hchild
      have hcomponents := congrArg Path.components heq
      rw [Path.components_child dir hn, Path.components_child dir (horder.above he).1.normal]
        at hcomponents
      obtain rfl : n = m := by simpa using hcomponents
      obtain ⟨names, -, hreached, rfl⟩ := (mem_sweep (h.child horder hshort he) horder).mp hnode
      exact ⟨names, hreached.leadsDown horder⟩
    rw [sweep, List.pairwise_cons, List.pairwise_flatMap]
    refine ⟨fun node hnode => ?_, fun child hchild => ?_, ?_⟩
    · obtain ⟨child, hchild, hnode⟩ := List.mem_flatMap.mp hnode
      obtain ⟨n, hshort, he, rfl⟩ := (mem_subdirectories h horder).mp hchild
      obtain ⟨names, -, hreached, rfl⟩ := (mem_sweep (h.child horder hshort he) horder).mp hnode
      have hdown : Reached disk dir place (n :: names) := .down hshort he hreached
      exact (hdown.leadsDown horder).not_covers (List.cons_ne_nil _ _)
    · obtain ⟨n, hshort, he, rfl⟩ := (mem_subdirectories h horder).mp hchild
      exact ih (depth + 1) (h.child horder hshort he)
    · refine (subdirectories_differ h horder).imp_of_mem fun {a b} ha hb hab x hx y hy => ?_
      obtain ⟨n, m, hne, hn, hm, rfl, rfl⟩ := hab
      obtain ⟨xs, hx⟩ := hbelow ha hn hx
      obtain ⟨ys, hy⟩ := hbelow hb hm hy
      exact hx.not_covers_beside hy hn hm hne

/-! ### What is kept -/

/-- Keeps several nodes, one after the other. -/
def setNodes (t : DirTree) (entries : List (Key × Node)) : DirTree :=
  entries.foldl (fun t entry => t.setNode entry.1 entry.2) t

variable {t : DirTree} {entries more : List (Key × Node)} {key : Key}

@[simp] theorem setNodes_maxDepth (t : DirTree) (entries : List (Key × Node)) :
    (t.setNodes entries).maxDepth = t.maxDepth := by
  induction entries generalizing t with
  | nil => rfl
  | cons entry rest ih => exact (ih (t.setNode entry.1 entry.2)).trans (setNode_maxDepth _ _ _)

theorem setNodes_append (t : DirTree) (entries more : List (Key × Node)) :
    t.setNodes (entries ++ more) = (t.setNodes entries).setNodes more :=
  List.foldl_append

/-- What is kept under another key stays. -/
theorem node?_setNodes_of_ne (h : ∀ entry ∈ entries, entry.1 ≠ key) :
    (t.setNodes entries).node? key = t.node? key := by
  induction entries generalizing t with
  | nil => rfl
  | cons entry rest ih =>
    have hrest := ih (t := t.setNode entry.1 entry.2) fun e he => h e (List.mem_cons_of_mem _ he)
    refine hrest.trans ?_
    rw [node?_setNode, if_neg (h entry List.mem_cons_self).symm]

/-- Under different keys every node is found. -/
theorem node?_setNodes (h : entries.Pairwise fun a b => a.1 ≠ b.1) {entry : Key × Node}
    (hentry : entry ∈ entries) : (t.setNodes entries).node? entry.1 = some entry.2 := by
  induction entries generalizing t with
  | nil => exact absurd hentry List.not_mem_nil
  | cons first rest ih =>
    obtain ⟨hfirst, hrest⟩ := List.pairwise_cons.mp h
    rcases List.mem_cons.mp hentry with rfl | hentry
    · refine (node?_setNodes_of_ne fun e he => (hfirst e he).symm).trans ?_
      rw [node?_setNode, if_pos rfl]
    · exact ih hrest hentry

/-- Nodes under different keys that are all new are added as they are. -/
theorem nodes_setNodes (h : entries.Pairwise fun a b => a.1 ≠ b.1)
    (hnew : ∀ old ∈ t.nodes, ∀ entry ∈ entries, old.1 ≠ entry.1) :
    (t.setNodes entries).nodes = t.nodes ++ entries := by
  induction entries generalizing t with
  | nil => exact (List.append_nil _).symm
  | cons first rest ih =>
    obtain ⟨hfirst, hrest⟩ := List.pairwise_cons.mp h
    have hadded : (t.setNode first.1 first.2).nodes = t.nodes ++ [first] := by
      unfold setNode
      rw [if_neg]
      intro hany
      obtain ⟨old, hold, hkey⟩ := List.any_eq_true.mp hany
      exact hnew old hold first List.mem_cons_self (of_decide_eq_true hkey)
    refine (ih hrest fun old hold entry hentry => ?_).trans ?_
    · rw [hadded] at hold
      rcases List.mem_append.mp hold with hold | hold
      · exact hnew old hold entry (List.mem_cons_of_mem _ hentry)
      · rw [List.mem_singleton.mp hold]
        exact hfirst entry hentry
    · rw [hadded, List.append_assoc]
      rfl

/-! ### A walk on a disk that stays as it is -/

variable {σ : Type} [Site σ] {ready : σ → Prop} {calls : σ → List Grant} {kinds : List EventKind}
  {nodes told : List Node} {w w' w'' : Walk σ}

/-- The call by which a node came to its key. -/
def grantOf (kinds : List EventKind) (entry : Key × Node) : Grant :=
  ⟨entry.2.dir, kinds, entry.1⟩

/-- From one state of a walk to another, nodes are registered one after the other and kept under
their keys, and nothing else happens but warnings. -/
structure Enrols (ready : σ → Prop) (calls : σ → List Grant) (kinds : List EventKind)
    (entries : List (Key × Node)) (w w' : Walk σ) : Prop where
  failure : w'.failure = none
  ready : ready w'.site
  disk : Site.disk w'.site = Site.disk w.site
  calls : calls w'.site = calls w.site ++ entries.map (grantOf kinds)
  tree : w'.tree = w.tree.setNodes entries
  registered : w'.registered = w.registered ++ entries.map (·.2.dir)

/-- These nodes are registered, under whatever keys. -/
def Sweeps (ready : σ → Prop) (calls : σ → List Grant) (kinds : List EventKind)
    (nodes : List Node) (w w' : Walk σ) : Prop :=
  ∃ entries, entries.map (·.2) = nodes ∧ Enrols ready calls kinds entries w w'

theorem Sweeps.nothing (hfailure : w.failure = none) (hready : ready w.site) :
    Sweeps ready calls kinds [] w w :=
  ⟨[], rfl, hfailure, hready, rfl, (List.append_nil _).symm, rfl, (List.append_nil _).symm⟩

theorem Sweeps.append (h : Sweeps ready calls kinds nodes w w')
    (hmore : Sweeps ready calls kinds told w' w'') :
    Sweeps ready calls kinds (nodes ++ told) w w'' := by
  obtain ⟨entries, rfl, hw⟩ := h
  obtain ⟨more, rfl, hw'⟩ := hmore
  refine ⟨entries ++ more, List.map_append, hw'.failure, hw'.ready, hw'.disk.trans hw.disk, ?_, ?_,
    ?_⟩
  · rw [hw'.calls, hw.calls, List.append_assoc, List.map_append]
  · rw [hw'.tree, hw.tree, setNodes_append]
  · rw [hw'.registered, hw.registered, List.append_assoc, List.map_append]

/-- The walk may go on from there as from where it came. -/
theorem Sweeps.goesOn (h : Sweeps ready calls kinds nodes w w') :
    w'.failure = none ∧ ready w'.site ∧ Site.disk w'.site = Site.disk w.site ∧
      w'.tree.maxDepth = w.tree.maxDepth := by
  obtain ⟨entries, -, hw⟩ := h
  refine ⟨hw.failure, hw.ready, hw.disk, ?_⟩
  rw [hw.tree, setNodes_maxDepth]

/-- To enter a directory is to register it; the walk goes on below it if it may and can. -/
theorem enter_sweeps (kinds : List EventKind) (law : Granting ready calls) (hfailure : w.failure = none)
    (hready : ready w.site) (dir : Path) (depth : Nat) : ∃ w',
      enter kinds dir depth w =
        (decide (depth < w.tree.maxDepth) && (Site.disk w.site).isDir dir, w') ∧
      Sweeps ready calls kinds [⟨dir, depth⟩] w w' := by
  obtain ⟨key, site, hregister, hsite, hdisk, hcalls⟩ := law.grants dir kinds w.site hready
  have henrolled : ∀ warnings, Sweeps ready calls kinds [⟨dir, depth⟩] w { w with
      site, tree := w.tree.setNode key ⟨dir, depth⟩, registered := w.registered ++ [dir]
      warnings } := fun warnings =>
    ⟨[(key, ⟨dir, depth⟩)], rfl, hfailure, hsite, hdisk, hcalls, rfl, rfl⟩
  unfold enter
  rw [hregister]
  dsimp only
  rw [setNode_maxDepth]
  by_cases hdeep : w.tree.maxDepth ≤ depth
  · rw [if_pos hdeep, decide_eq_false (Nat.not_lt.mpr hdeep)]
    exact ⟨_, rfl, henrolled w.warnings⟩
  · rw [if_neg hdeep, decide_eq_true (Nat.not_le.mp hdeep)]
    cases (Site.disk w.site).isDir dir with
    | true => exact ⟨_, rfl, henrolled w.warnings⟩
    | false => exact ⟨_, rfl, henrolled _⟩

/-- Walks from several directories, if each of them registers its sweep. -/
theorem each_sweeps {levels depth : Nat}
    (h : ∀ (dir : Path) (w : Walk σ), w.failure = none → ready w.site →
      levels = w.tree.maxDepth - depth → Sweeps ready calls kinds
        (sweep (Site.disk w.site) levels dir depth) w (descend kinds levels dir depth w)) :
    ∀ (dirs : List Path) (w : Walk σ), w.failure = none → ready w.site →
      levels = w.tree.maxDepth - depth → Sweeps ready calls kinds
        (dirs.flatMap fun dir => sweep (Site.disk w.site) levels dir depth) w
        (dirs.foldl (fun w child => descend kinds levels child depth w) w) := by
  intro dirs
  induction dirs with
  | nil => exact fun w hfailure hready _ => .nothing hfailure hready
  | cons dir rest ih =>
    intro w hfailure hready hlevels
    have hdir := h dir w hfailure hready hlevels
    obtain ⟨hfailure', hready', hdisk, hmax⟩ := hdir.goesOn
    have hrest := ih (descend kinds levels dir depth w) hfailure' hready' (by rw [hmax, hlevels])
    rw [hdisk] at hrest
    exact hdir.append hrest

/-- The whole walk from a directory registers its sweep. -/
theorem descend_sweeps (law : Granting ready calls) (levels : Nat) :
    ∀ (depth : Nat) (dir : Path) (w : Walk σ), w.failure = none → ready w.site →
      levels = w.tree.maxDepth - depth → Sweeps ready calls kinds
        (sweep (Site.disk w.site) levels dir depth) w (descend kinds levels dir depth w) := by
  induction levels with
  | zero =>
    intro depth dir w hfailure hready hlevels
    obtain ⟨w', henter, hsweeps⟩ := enter_sweeps kinds law hfailure hready dir depth
    -- no level is left, so this is at the bound and nothing below it is looked at
    rw [decide_eq_false (by omega), Bool.false_and] at henter
    rw [descend_of_leaf hfailure henter]
    exact hsweeps
  | succ levels ih =>
    intro depth dir w hfailure hready hlevels
    obtain ⟨w', henter, hsweeps⟩ := enter_sweeps kinds law hfailure hready dir depth
    rw [decide_eq_true (by omega), Bool.true_and] at henter
    cases hopened : (Site.disk w.site).isDir dir with
    | false =>
      -- what could not be opened beforehand has nothing below it in the sweep either
      rw [hopened] at henter
      rw [descend_of_leaf hfailure henter, sweep, subdirectories_of_not_isDir hopened]
      exact hsweeps
    | true =>
      rw [hopened] at henter
      -- it is listed after it was registered, but on the same disk
      obtain ⟨hfailure', hready', hdisk, hmax⟩ := hsweeps.goesOn
      have hrest := each_sweeps (ih (depth + 1)) (subdirectories (Site.disk w'.site) dir) w'
        hfailure' hready' (by omega)
      rw [hdisk] at hrest
      rw [descend_of_below hfailure henter, sweep, hdisk]
      exact hsweeps.append hrest

/-- The whole walk from a start that is a directory registers its sweep. -/
theorem registerTree_sweeps (law : Granting ready calls) {start : Path} {top : Location}
    (hfailure : w.failure = none) (hready : ready w.site) (hdepth : depth ≤ w.tree.maxDepth)
    (hstart : (Site.disk w.site).lstat start = .ok (top, .dir)) :
    Sweeps ready calls kinds (sweep (Site.disk w.site) (w.tree.maxDepth - depth) start depth) w
      (registerTree kinds start depth w) := by
  have hfooting : footing (Site.disk w.site) start = .directory := by
    unfold footing
    rw [hstart]
  unfold registerTree
  rw [if_neg (Nat.not_lt.mpr hdepth), hfooting]
  exact descend_sweeps law _ depth start w hfailure hready rfl

/-! ### The outcome -/

variable {start : Path} {top : Location}

/-- These are the registrations of what can be reached from a start so many levels down, for
exactly these kinds.  None is of a directory that covers one before it, so no directory comes
twice, and a parent comes before its children. -/
structure GrantsExactly (disk : Disk) (start : Path) (top : Location) (levels : Nat)
    (kinds : List EventKind) (grants : List Grant) : Prop where
  kinds : ∀ g ∈ grants, g.kinds = kinds
  reached : ∀ dir, dir ∈ grants.map (·.dir) ↔ ∃ names, names.length ≤ levels ∧
    Reached disk start top names ∧ dir = names.foldl Path.child start
  parentsFirst : grants.Pairwise fun a b => b.dir.covers a.dir = false

/-- What comes later does not cover what comes before it, if these are the nodes of a sweep. -/
theorem entries_parents_first (horder : disk.InOrder) (hfiled : disk.Filed start top)
    (hnodes : entries.map (·.2) = sweep disk levels start depth) :
    entries.Pairwise fun a b => b.2.dir.covers a.2.dir = false := by
  have hsweep := sweep_parents_first levels depth hfiled horder
  rw [← hnodes] at hsweep
  exact List.pairwise_map.mp hsweep

/-- The nodes of a sweep, each granted in turn. -/
theorem grantsExactly_of_sweep (horder : disk.InOrder)
    (hfiled : disk.Filed start top) (hnodes : entries.map (·.2) = sweep disk levels start depth) :
    GrantsExactly disk start top levels kinds (entries.map (grantOf kinds)) := by
  have hdirs : (entries.map (grantOf kinds)).map (·.dir) =
      (sweep disk levels start depth).map (·.dir) := by
    rw [← hnodes, List.map_map, List.map_map]
    rfl
  refine ⟨fun g hg => ?_, fun dir => ?_,
    List.pairwise_map.mpr (entries_parents_first horder hfiled hnodes)⟩
  · obtain ⟨entry, -, rfl⟩ := List.mem_map.mp hg
    rfl
  · rw [hdirs, List.mem_map]
    constructor
    · rintro ⟨node, hnode, rfl⟩
      obtain ⟨names, hlength, hreached, rfl⟩ := (mem_sweep hfiled horder).mp hnode
      exact ⟨names, hlength, hreached, rfl⟩
    · rintro ⟨names, hlength, hreached, rfl⟩
      exact ⟨_, (mem_sweep hfiled horder).mpr ⟨names, hlength, hreached, rfl⟩, rfl⟩

/-- Directories that are not the same were given different keys. -/
theorem Enrols.keys_differ (law : Granting ready calls)
    (h : Enrols ready calls kinds entries w w')
    (hfirst : entries.Pairwise fun a b => b.2.dir.covers a.2.dir = false) :
    entries.Pairwise fun a b => a.1 ≠ b.1 := by
  have hgranted : ∀ entry ∈ entries, grantOf kinds entry ∈ calls w'.site := by
    intro entry hentry
    rw [h.calls]
    exact List.mem_append_right _ (List.mem_map_of_mem hentry)
  refine hfirst.imp_of_mem fun {a b} ha hb hab hkey => ?_
  have hsame : a.2.dir.same b.2.dir = true :=
    law.distinct _ h.ready _ (hgranted a ha) _ (hgranted b hb) hkey
  rw [Path.same_of_not_covers hab] at hsame
  exact absurd hsame (by simp)

/-- Under different keys every node that was registered is kept. -/
theorem Enrols.node? (h : Enrols ready calls kinds entries w w')
    (hkeys : entries.Pairwise fun a b => a.1 ≠ b.1) {entry : Key × Node} (hentry : entry ∈ entries) :
    w'.tree.node? entry.1 = some entry.2 := by
  rw [h.tree]
  exact node?_setNodes hkeys hentry

/-- A sweep that was registered: its directories were granted each once, parents first, and have
different keys. -/
theorem Sweeps.exactly (law : Granting ready calls) (horder : disk.InOrder)
    (hstart : disk.stat start = .ok (top, .dir))
    (h : Sweeps ready calls kinds (sweep disk levels start depth) w w') :
    ∃ entries, Enrols ready calls kinds entries w w' ∧
      GrantsExactly disk start top levels kinds (entries.map (grantOf kinds)) ∧
      (∀ node, node ∈ entries.map (·.2) ↔ ∃ names, names.length ≤ levels ∧
        Reached disk start top names ∧
          node = ⟨names.foldl Path.child start, depth + names.length⟩) ∧
      (entries.Pairwise fun a b => b.2.dir.covers a.2.dir = false) ∧
      entries.Pairwise fun a b => a.1 ≠ b.1 := by
  obtain ⟨entries, hnodes, hw⟩ := h
  have hfiled := Disk.Filed.of_stat hstart
  have hfirst := entries_parents_first horder hfiled hnodes
  refine ⟨entries, hw, grantsExactly_of_sweep horder hfiled hnodes, fun node => ?_, hfirst,
    hw.keys_differ law hfirst⟩
  rw [hnodes]
  exact mem_sweep hfiled horder

end ChangeWatch.DirTree
