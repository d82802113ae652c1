import ChangeWatch.Proofs.Strategy.Listing
import ChangeWatch.Proofs.Strategy.Walk

/-!
# Links and the directories of a tree

A tree is registered from its root, and from then on directories are picked up where
something was created, while the disk changes in any way (`Session`).  Which of the
directories that come to be registered can be reached from the root without passing a
link (`RealBelow`)?

No walk passes a link below its start (`registerTree_behind`), and so a directory is
reached without a link exactly if the start of its walk is
(`session_registers_behind_starts`).  The root is, but a path at which something was
created need not be: when it is a link to a directory, the directories behind the link
are registered and kept as nodes (`linked_directory_is_registered`).
-/

namespace ChangeWatch

/-- A service whose registering leaves the disk alone. -/
def Service.Discreet : Service → Prop
  | .notifying _ => True
  | .memory s => s.faults.vanishing = []

theorem Service.Discreet.register {s : Service} (h : s.Discreet) (disk : Disk) (dir : Path)
    (kinds : List EventKind) :
    (s.register disk dir kinds).2.1.Discreet ∧ (s.register disk dir kinds).2.2 = disk := by
  cases s with
  | notifying s => exact ⟨trivial, rfl⟩
  | memory s =>
    have hnone : s.faults.vanishing = [] := h
    have hdisk : s.afterRegister disk dir = disk := by
      unfold MemoryService.afterRegister
      rw [hnone]
      rfl
    simp only [Service.register, MemoryService.register, hdisk]
    split
    · exact ⟨h, rfl⟩
    · split
      · exact ⟨h, rfl⟩
      · split <;> exact ⟨h, rfl⟩

namespace DirTree

/-! ### Reached without a link -/

/-- A path leads down from another one by names of real directories: no link is passed
on the way, and it does not end in one. -/
def RealBelow (disk : Disk) (start path : Path) : Prop :=
  ∃ top names, disk.stat start = .ok (top, .dir) ∧ path = names.foldl Path.child start ∧
    ∀ front, front <+: names → disk.entry? (top ++ front) = some .dir

variable {disk : Disk} {root start s : Location} {path dir : Path} {kinds : List EventKind}

/-- On a disk in order everything above a directory is one. -/
theorem realBelow_iff (h : disk.InOrder) : RealBelow disk start.toPath path ↔
    ∃ top names, disk.stat start.toPath = .ok (top, .dir) ∧
      path = names.foldl Path.child start.toPath ∧ disk.entry? (top ++ names) = some .dir := by
  constructor
  · rintro ⟨top, names, hstat, hpath, hreal⟩
    exact ⟨top, names, hstat, hpath, hreal names (List.prefix_refl names)⟩
  · rintro ⟨top, names, hstat, hpath, hdir⟩
    refine ⟨top, names, hstat, hpath, ?_⟩
    rintro front ⟨rest, rfl⟩
    rw [← List.append_assoc] at hdir
    by_cases hrest : rest = []
    · rwa [hrest, List.append_nil] at hdir
    · exact h.dir_of_append hrest hdir

/-- Below the path of a place, what is reached is written as the path of a place. -/
theorem RealBelow.names (h : disk.InOrder) (hstart : ∀ n ∈ start, IsName n)
    (hreal : RealBelow disk start.toPath path) :
    ∃ top names, disk.stat start.toPath = .ok (top, .dir) ∧ (∀ n ∈ names, IsName n) ∧
      path = Location.toPath (start ++ names) ∧ disk.entry? (top ++ names) = some .dir := by
  obtain ⟨top, names, hstat, rfl, hdir⟩ := (realBelow_iff h).mp hreal
  have hnames : ∀ n ∈ names, IsName n := fun n hn =>
    h.names hdir n (List.mem_append_right _ hn)
  exact ⟨top, names, hstat, hnames, Location.foldl_child_toPath hstart hnames, hdir⟩

theorem realBelow_self (h : disk.InOrder) {top : Location}
    (hstat : disk.stat start.toPath = .ok (top, .dir)) :
    RealBelow disk start.toPath start.toPath := by
  refine (realBelow_iff h).mpr ⟨top, [], hstat, rfl, ?_⟩
  rw [List.append_nil]
  exact (h.stands_of_stat (Or.inl (Location.isAbsolute_toPath start)) hstat).1

/-- The directories found in a directory that is reached without a link are reached
without one. -/
theorem RealBelow.child (h : disk.InOrder) (hstart : ∀ n ∈ start, IsName n)
    (hreal : RealBelow disk start.toPath dir) {child : Path}
    (hchild : child ∈ subdirectories disk dir) : RealBelow disk start.toPath child := by
  obtain ⟨top, names, hstat, rfl, hdir⟩ := (realBelow_iff h).mp hreal
  have hnames : ∀ n ∈ names, IsName n := fun n hn =>
    h.names hdir n (List.mem_append_right _ hn)
  have hfiled : disk.Filed (names.foldl Path.child start.toPath) (top ++ names) := by
    rw [Location.foldl_child_toPath hstart hnames]
    exact h.stat_below hstart hstat hdir
  obtain ⟨n, -, he, rfl⟩ := (mem_subdirectories hfiled h).mp hchild
  rw [List.append_assoc] at he
  refine (realBelow_iff h).mpr ⟨top, names ++ [n], hstat, ?_, he⟩
  rw [List.foldl_append]
  rfl

/-- What is reached without a link from below a root is so reached from the root exactly
if the way from the root to where it begins passes no link. -/
theorem RealBelow.trans_iff (h : disk.InOrder) (hroot : ∀ n ∈ root, IsName n)
    (hs : ∀ n ∈ s, IsName n) (hreal : RealBelow disk (Location.toPath (root ++ s)) dir) :
    RealBelow disk root.toPath dir ↔ RealBelow disk root.toPath (Location.toPath (root ++ s)) := by
  have hstart : ∀ n ∈ root ++ s, IsName n := List.forall_mem_append.mpr ⟨hroot, hs⟩
  obtain ⟨top, names, hstat, hnames, rfl, hdir⟩ := hreal.names h hstart
  have hpath := Location.foldl_child_toPath hroot hs
  constructor
  · intro hdown
    obtain ⟨top', names', hstat', hnames', heq, hdir'⟩ := hdown.names h hroot
    have hall : ∀ n ∈ root ++ names', IsName n := List.forall_mem_append.mpr ⟨hroot, hnames'⟩
    have hall' : ∀ n ∈ root ++ s ++ names, IsName n := List.forall_mem_append.mpr ⟨hstart, hnames⟩
    have hplace := Location.toPath_injective hall' hall heq
    rw [List.append_assoc] at hplace
    obtain rfl := List.append_cancel_left hplace
    -- the names of the start come first on the way down
    refine (realBelow_iff h).mpr ⟨top', s, hstat', hpath.symm, ?_⟩
    rw [← List.append_assoc] at hdir'
    by_cases hne : names = []
    · rwa [hne, List.append_nil] at hdir'
    · exact h.dir_of_append hne hdir'
  · intro hdown
    obtain ⟨top', names', hstat', hnames', heq, hdir'⟩ := hdown.names h hroot
    have hall : ∀ n ∈ root ++ names', IsName n := List.forall_mem_append.mpr ⟨hroot, hnames'⟩
    obtain rfl := List.append_cancel_left (Location.toPath_injective hstart hall heq)
    have hshort : Location.Short (root ++ s) := by
      by_contra hlong
      rw [(Disk.InOrder.stat_of_long hstart hlong).1] at hstat
      exact absurd hstat (by simp)
    -- both ways the same directory is found at the start
    obtain rfl : top = top' ++ s := by
      rw [h.stat_below hroot hstat' hdir' hshort] at hstat
      exact (Prod.mk.inj (Except.ok.inj hstat)).1.symm
    refine (realBelow_iff h).mpr ⟨top', s ++ names, hstat', ?_, by rwa [← List.append_assoc]⟩
    rw [List.foldl_append, hpath, Location.foldl_child_toPath hstart hnames]

/-! ### A walk -/

/-- What an errand of a walk from a start is about. -/
def Aims (disk : Disk) (start : Location) : Errand → Prop
  | .look path _ => path = start.toPath
  | .enter dir _ | .list dir _ => RealBelow disk start.toPath dir

/-- A walk that has registered nothing but what is reached from its start without a
link, and keeps a node for nothing else. -/
structure Behind (disk : Disk) (start : Location) (t : DirTree) (w : Walk Ground) : Prop where
  ground : w.site.disk = disk
  discreet : w.site.service.Discreet
  top : w.tree.root = t.root
  real : ∀ dir ∈ w.registered, RealBelow disk start.toPath dir
  nodes : ∀ entry ∈ w.tree.nodes, entry ∈ t.nodes ∨ entry.2.dir ∈ w.registered

variable {t : DirTree} {w : Walk Ground} {errand : Errand} {depth : Nat}

theorem behind_start {g : Ground} (hg : g.service.Discreet) (start : Location) (t : DirTree) :
    Behind g.disk start t (.start g t) :=
  ⟨rfl, hg, rfl, fun _ hdir => absurd hdir List.not_mem_nil, fun _ hentry => Or.inl hentry⟩

/-- Warnings and failures change nothing. -/
theorem Behind.noted (hw : Behind disk start t w) (warnings : List Warning)
    (failure : Option WatchError) : Behind disk start t { w with warnings, failure } :=
  ⟨hw.ground, hw.discreet, hw.top, hw.real, hw.nodes⟩

/-- Entering a directory registers it or fails. -/
theorem enter_behind (kinds : List EventKind) (depth : Nat) (hw : Behind disk start t w)
    (hdir : RealBelow disk start.toPath dir) :
    Behind disk start t (enter kinds dir depth w).2 := by
  obtain ⟨hdiscreet, hdisk⟩ := hw.discreet.register w.site.disk dir kinds
  have hsite : Site.register dir kinds w.site =
      ((w.site.service.register w.site.disk dir kinds).1,
        ⟨(w.site.service.register w.site.disk dir kinds).2.1, w.site.disk⟩) :=
    congrArg (fun d => (_, Ground.mk _ d)) hdisk
  unfold enter
  rw [hsite]
  cases (w.site.service.register w.site.disk dir kinds).1 with
  | error e => exact ⟨hw.ground, hdiscreet, hw.top, hw.real, hw.nodes⟩
  | ok key =>
    -- the directory is behind the start as the errand was, and its node goes with it
    have hentered : Behind disk start t { w with
        site := ⟨(w.site.service.register w.site.disk dir kinds).2.1, w.site.disk⟩
        tree := w.tree.setNode key ⟨dir, depth⟩, registered := w.registered ++ [dir] } := by
      refine ⟨hw.ground, hdiscreet, (setNode_root _ _ _).trans hw.top, ?_, ?_⟩
      · intro p hp
        rcases List.mem_append.mp hp with hp | hp
        · exact hw.real p hp
        · rwa [List.mem_singleton.mp hp]
      · intro entry hentry
        rcases mem_setNode hentry with hold | rfl
        · exact (hw.nodes entry hold).imp_right fun h => List.mem_append_left _ h
        · exact Or.inr (List.mem_append_right _ (List.mem_singleton_self _))
    dsimp only
    split
    · exact hentered
    · split
      · exact hentered
      · exact hentered.noted _ _

/-- What stands where a walk starts to go down is a directory, maybe behind a link. -/
theorem stat_of_footing {footing : Footing} (h : DirTree.footing disk path = footing)
    (hdown : footing = .directory ∨ footing = .linked) :
    ∃ top, disk.stat path = .ok (top, .dir) := by
  unfold DirTree.footing at h
  split at h
  · subst h
    exact absurd hdown (by simp)
  · next top hlstat => exact ⟨top, Disk.stat_of_lstat hlstat⟩
  · subst h
    exact absurd hdown (by simp)
  · split at h
    · subst h
      exact absurd hdown (by simp)
    · next top hstat => exact ⟨top, hstat⟩
    · subst h
      exact absurd hdown (by simp)

/-- No errand passes a link below the start of its walk. -/
theorem advance_behind (h : disk.InOrder) (hstart : ∀ n ∈ start, IsName n)
    (haims : Aims disk start errand) (hw : Behind disk start t w) :
    Behind disk start t (advance kinds errand w).2 ∧
      ∀ e ∈ (advance kinds errand w).1, Aims disk start e := by
  have hsite : Site.disk w.site = disk := hw.ground
  -- only a walk's first errand follows a link, and it is the start itself
  cases errand with
  | look path depth =>
    obtain rfl : path = start.toPath := haims
    have hself : ∀ footing, DirTree.footing disk start.toPath = footing →
        footing = .directory ∨ footing = .linked → RealBelow disk start.toPath start.toPath := by
      intro footing hfooting hdown
      obtain ⟨top, hstat⟩ := stat_of_footing hfooting hdown
      exact realBelow_self h hstat
    simp only [advance, hsite]
    split
    · exact ⟨hw, by simp⟩
    · split
      · next hfooting =>
        refine ⟨hw, fun e he => ?_⟩
        rw [List.mem_singleton.mp he]
        exact hself _ hfooting (Or.inl rfl)
      · next hfooting =>
        refine ⟨hw, fun e he => ?_⟩
        rw [List.mem_singleton.mp he]
        exact hself _ hfooting (Or.inr rfl)
      · exact ⟨hw, by simp⟩
      · exact ⟨hw.noted _ _, by simp⟩
  | enter dir depth =>
    have hentered := enter_behind kinds depth hw haims
    simp only [advance]
    rcases hbelow : enter kinds dir depth w with ⟨below, w'⟩
    rw [hbelow] at hentered
    cases below with
    | false => exact ⟨hentered, by simp⟩
    | true =>
      refine ⟨hentered, fun e he => ?_⟩
      rw [List.mem_singleton.mp he]
      exact haims
  | list dir depth =>
    simp only [advance, hsite]
    split
    · refine ⟨hw, fun e he => ?_⟩
      obtain ⟨child, hchild, rfl⟩ := List.mem_map.mp he
      exact RealBelow.child h hstart haims hchild
    · exact ⟨hw, by simp⟩

/-- No walk passes a link below its start. -/
theorem registerTree_behind (kinds : List EventKind) (depth : Nat) (h : disk.InOrder)
    (hstart : ∀ n ∈ start, IsName n) (hw : Behind disk start t w) (hnone : w.failure = none) :
    Behind disk start t (registerTree kinds start.toPath depth w) := by
  refine Walks.preserved (P := Aims disk start) ?_ (walks_registerTree hnone start.toPath depth)
    ?_ hw
  · exact fun errand w haims _ hw => advance_behind h hstart haims hw
  · intro e he
    rw [List.mem_singleton.mp he]
    exact rfl

theorem onCreated_behind {g : Ground} (h : g.disk.InOrder) (hg : g.service.Discreet)
    (hstart : ∀ n ∈ start, IsName n) (t : DirTree) (key : Key) :
    Behind g.disk start t (t.onCreated g key start.toPath kinds).2 := by
  have hbegin := behind_start hg start t
  unfold onCreated
  cases t.pickupDepth? (Site.disk g) key start.toPath with
  | none => exact hbegin
  | some depth =>
    have hwalk := registerTree_behind kinds depth h hstart hbegin rfl
    dsimp only
    split
    · exact hwalk
    · exact hwalk.noted _ _

/-! ### Registering and picking up -/

/-- A directory that was registered by a walk from a start, and the disk of that moment. -/
structure Enrolment where
  disk : Disk
  start : Path
  dir : Path
  deriving DecidableEq, Repr

/-- A tree, the ground it is on, and all that was registered for it. -/
structure Session where
  ground : Ground
  tree : DirTree
  enrolled : List Enrolment

inductive Turn where
  /-- The disk becomes any other one. -/
  | changed (disk : Disk)
  /-- The service becomes any other one. -/
  | served (service : Service)
  /-- A create event of an entry name is handled under a key. -/
  | created (key : Key) (name : Bytes)

namespace Session

/-- The session after a walk from a start. -/
def walked (x : Session) (start : Path) (w : Walk Ground) : Session :=
  ⟨w.site, w.tree, x.enrolled ++ w.registered.map fun dir => ⟨x.ground.disk, start, dir⟩⟩

/-- The tree is registered from its root. -/
def opened (kinds : List EventKind) (t : DirTree) (g : Ground) : Session :=
  walked ⟨g, t, []⟩ t.root (registerTree kinds t.root 0 (.start g t))

def turn (kinds : List EventKind) (x : Session) : Turn → Session
  | .changed disk => { x with ground := { x.ground with disk } }
  | .served service => { x with ground := { x.ground with service } }
  | .created key name =>
    match x.tree.resolve key ⟨.create, some ⟨name⟩⟩ with
    | none => x
    | some path => x.walked path (x.tree.onCreated x.ground key path kinds).2

/-- The tree is registered, and then anything happens. -/
def run (kinds : List EventKind) (t : DirTree) (g : Ground) (turns : List Turn) : Session :=
  turns.foldl (turn kinds) (opened kinds t g)

end Session

/-- A disk in order, and a service that leaves it alone. -/
structure Plain (g : Ground) : Prop where
  order : g.disk.InOrder
  discreet : g.service.Discreet

/-- What may happen from outside, and what an entry may be called. -/
def Turn.Fair : Turn → Prop
  | .changed disk => disk.InOrder
  | .served service => service.Discreet
  | .created _ name => IsName name

/-- Everything that was registered was reached from the start of its walk without a
link, the starts are paths of places below the root, and nothing else is a node. -/
structure Session.Sound (root : Location) (x : Session) : Prop where
  plain : Plain x.ground
  top : x.tree.root = root.toPath
  starts : ∀ e ∈ x.enrolled, e.disk.InOrder ∧ ∃ s : Location, (∀ n ∈ s, IsName n) ∧
    e.start = Location.toPath (root ++ s) ∧ RealBelow e.disk e.start e.dir
  nodes : ∀ entry ∈ x.tree.nodes, ∃ e ∈ x.enrolled, e.dir = entry.2.dir

variable {x : Session}

theorem Session.Sound.walked (hx : x.Sound root) (hs : ∀ n ∈ s, IsName n)
    (hw : Behind x.ground.disk (root ++ s) x.tree w) :
    (x.walked (Location.toPath (root ++ s)) w).Sound root := by
  have hdisk : w.site.disk = x.ground.disk := hw.ground
  refine ⟨⟨by rw [show (x.walked _ w).ground.disk = _ from hdisk]; exact hx.plain.order,
    hw.discreet⟩, hw.top.trans hx.top, ?_, ?_⟩
  · intro e he
    rcases List.mem_append.mp he with he | he
    · exact hx.starts e he
    · obtain ⟨dir, hdir, rfl⟩ := List.mem_map.mp he
      exact ⟨hx.plain.order, s, hs, rfl, hw.real dir hdir⟩
  · intro entry hentry
    rcases hw.nodes entry hentry with hold | hnew
    · obtain ⟨e, he, heq⟩ := hx.nodes entry hold
      exact ⟨e, List.mem_append_left _ he, heq⟩
    · exact ⟨_, List.mem_append_right _ (List.mem_map_of_mem hnew), rfl⟩

/-- An event resolves to the path of a place right below a node. -/
theorem Session.Sound.resolve (hx : x.Sound root) (hroot : ∀ n ∈ root, IsName n) {key : Key}
    {name : Bytes} (hname : IsName name)
    (hpath : x.tree.resolve key ⟨.create, some ⟨name⟩⟩ = some path) :
    ∃ s : Location, (∀ n ∈ s, IsName n) ∧ path = Location.toPath (root ++ s) := by
  obtain ⟨node, hnode, rfl⟩ := Option.map_eq_some_iff.mp hpath
  obtain ⟨front, back, hsplit, -⟩ := List.lookup_eq_some_iff.mp hnode
  obtain ⟨e, he, hdir⟩ := hx.nodes (key, node) (by rw [hsplit]; simp)
  obtain ⟨horder, s, hs, hstart, hreal⟩ := hx.starts e he
  have hall : ∀ n ∈ root ++ s, IsName n := List.forall_mem_append.mpr ⟨hroot, hs⟩
  rw [hstart] at hreal
  obtain ⟨top, names, -, hnames, heq, -⟩ := hreal.names horder hall
  have hdown : ∀ n ∈ root ++ s ++ names, IsName n := List.forall_mem_append.mpr ⟨hall, hnames⟩
  refine ⟨s ++ names ++ [name], ?_, ?_⟩
  · intro n hn
    rcases List.mem_append.mp hn with hn | hn
    · exact (List.mem_append.mp hn).elim (hs n) (hnames n)
    · rwa [List.mem_singleton.mp hn]
  · show node.dir.child name = _
    rw [← hdir, heq, Location.child_toPath hdown hname, ← List.append_assoc, ← List.append_assoc]

theorem turn_sound {turn : Turn} (hx : x.Sound root) (hroot : ∀ n ∈ root, IsName n)
    (hturn : turn.Fair) : (x.turn kinds turn).Sound root := by
  cases turn with
  | changed disk => exact ⟨⟨hturn, hx.plain.discreet⟩, hx.top, hx.starts, hx.nodes⟩
  | served service => exact ⟨⟨hx.plain.order, hturn⟩, hx.top, hx.starts, hx.nodes⟩
  | created key name =>
    simp only [Session.turn]
    cases hpath : x.tree.resolve key ⟨.create, some ⟨name⟩⟩ with
    | none => exact hx
    | some path =>
      obtain ⟨s, hs, rfl⟩ := hx.resolve hroot hturn hpath
      have hall : ∀ n ∈ root ++ s, IsName n := List.forall_mem_append.mpr ⟨hroot, hs⟩
      exact hx.walked hs (onCreated_behind hx.plain.order hx.plain.discreet hall x.tree key)

theorem run_sound {g : Ground} {turns : List Turn} (kinds : List EventKind) (maxDepth : Nat)
    (hroot : ∀ n ∈ root, IsName n) (hg : Plain g) (hturns : ∀ turn ∈ turns, turn.Fair) :
    (Session.run kinds ⟨root.toPath, maxDepth, []⟩ g turns).Sound root := by
  have hopened : (Session.opened kinds ⟨root.toPath, maxDepth, []⟩ g).Sound root := by
    have hbegin : Session.Sound root ⟨g, ⟨root.toPath, maxDepth, []⟩, []⟩ :=
      ⟨hg, rfl, fun _ he => absurd he List.not_mem_nil, fun _ he => absurd he List.not_mem_nil⟩
    have hall : ∀ n ∈ root ++ [], IsName n := by rwa [List.append_nil]
    have hwalk := registerTree_behind kinds 0 hg.order hall
      (behind_start hg.discreet (root ++ []) ⟨root.toPath, maxDepth, []⟩) rfl
    have hwalked := hbegin.walked (s := []) (by simp) hwalk
    rwa [List.append_nil] at hwalked
  unfold Session.run
  induction turns using List.reverseRecOn with
  | nil => exact hopened
  | append_singleton front last ih =>
    rw [List.foldl_append]
    exact turn_sound (ih fun turn h => hturns turn (List.mem_append_left _ h)) hroot
      (hturns last (List.mem_append_right _ (List.mem_singleton_self _)))

/-- Whatever links there are and whatever happens, every node was registered by a walk,
every directory was reached from the start of its walk without a link, and so it is
reached from the root without a link exactly if that start is. -/
theorem session_registers_behind_starts {g : Ground} {turns : List Turn}
    (kinds : List EventKind) (maxDepth : Nat) (hroot : ∀ n ∈ root, IsName n) (hg : Plain g)
    (hturns : ∀ turn ∈ turns, turn.Fair) :
    (∀ entry ∈ (Session.run kinds ⟨root.toPath, maxDepth, []⟩ g turns).tree.nodes,
      ∃ e ∈ (Session.run kinds ⟨root.toPath, maxDepth, []⟩ g turns).enrolled,
        e.dir = entry.2.dir) ∧
    ∀ e ∈ (Session.run kinds ⟨root.toPath, maxDepth, []⟩ g turns).enrolled,
      RealBelow e.disk e.start e.dir ∧
        (RealBelow e.disk root.toPath e.dir ↔ RealBelow e.disk root.toPath e.start) := by
  have hsound := run_sound kinds maxDepth hroot hg hturns
  refine ⟨hsound.nodes, fun e he => ?_⟩
  obtain ⟨horder, s, hs, hstart, hreal⟩ := hsound.starts e he
  refine ⟨hreal, ?_⟩
  rw [hstart] at hreal ⊢
  exact RealBelow.trans_iff horder hroot hs hreal

/-- A directory that is picked up beside a link is reached from the root without one,
and so is what is found in it. -/
theorem directory_beside_link_is_reached :
    let bare := Disk.empty.put [[119]] .dir
    let disk := ((bare.put [[119], [108]] (.link ⟨[46]⟩)).put [[119], [100]] .dir).put
      [[119], [100], [101]] .dir
    let x := Session.run [.create] ⟨Location.toPath [[119]], 2, []⟩ ⟨.memory (.new .none), bare⟩
      [.changed disk, .created ⟨0⟩ [100]]
    x.enrolled.map (·.dir) = [Location.toPath [[119]], Location.toPath [[119], [100]],
      Location.toPath [[119], [100], [101]]] ∧
    ∀ e ∈ x.enrolled, RealBelow e.disk (Location.toPath [[119]]) e.dir := by
  intro bare disk x
  have henrolled : x.enrolled =
      [⟨bare, Location.toPath [[119]], Location.toPath [[119]]⟩,
        ⟨disk, Location.toPath [[119], [100]], Location.toPath [[119], [100]]⟩,
        ⟨disk, Location.toPath [[119], [100]], Location.toPath [[119], [100], [101]]⟩] := by
    decide +kernel
  have hplain : Plain ⟨.memory (.new .none), bare⟩ := ⟨by decide, rfl⟩
  have hdisk : disk.InOrder := by decide
  have hfair : ∀ turn ∈ [Turn.changed disk, .created ⟨0⟩ [100]], turn.Fair := by
    intro turn hturn
    rcases List.mem_cons.mp hturn with rfl | hturn
    · exact hdisk
    · rw [List.mem_singleton.mp hturn]
      show IsName [100]
      decide
  have hname : ∀ n ∈ ([[119]] : Location), IsName n := by decide
  obtain ⟨-, hreal⟩ := session_registers_behind_starts [.create] 2 hname hplain hfair
  have hroot : RealBelow disk (Location.toPath [[119]]) (Location.toPath [[119], [100]]) :=
    (realBelow_iff hdisk).mpr ⟨[[119]], [[100]], by decide +kernel, by decide +kernel, by decide⟩
  refine ⟨by rw [henrolled]; rfl, fun e he => ?_⟩
  have hstart := hreal e he
  rw [henrolled] at he
  simp only [List.mem_cons, List.not_mem_nil, or_false] at he
  rcases he with rfl | rfl | rfl
  · exact hstart.1
  · exact hroot
  · exact hstart.2.mpr hroot

/-- A link to a directory that appears below the root is looked behind: the directory
`s` in its target is registered by a path through the link, and kept as a node. -/
theorem linked_directory_is_registered :
    let bare := ((Disk.empty.put [[119]] .dir).put [[116]] .dir).put [[116], [115]] .dir
    let disk := bare.put [[119], [108]] (.link ⟨[46, 46, 47, 116]⟩)
    let x := Session.run [.create] ⟨Location.toPath [[119]], 2, []⟩ ⟨.memory (.new .none), bare⟩
      [.changed disk, .created ⟨0⟩ [108]]
    Plain ⟨.memory (.new .none), bare⟩ ∧ disk.InOrder ∧ IsName [108] ∧ ∃ e ∈ x.enrolled,
      (⟨1⟩, ⟨e.dir, 2⟩) ∈ x.tree.nodes ∧
        x.ground.service.keyOf? e.dir = some ⟨1⟩ ∧
        ¬ RealBelow e.disk (Location.toPath [[119]]) e.dir := by
  intro bare disk x
  have henrolled : (⟨disk, Location.toPath [[119], [108]],
      Location.toPath [[119], [108], [115]]⟩ : Enrolment) ∈ x.enrolled := by
    decide +kernel
  have hdisk : disk.InOrder := by decide
  refine ⟨⟨by decide, rfl⟩, hdisk, by decide, _, henrolled, by decide +kernel, by decide +kernel,
    fun hreal => ?_⟩
  -- the only way down by names leads through the link
  obtain ⟨top, names, hstat, hnames, hpath, hdir⟩ := hreal.names hdisk (by decide)
  have hplace : [[119]] ++ [[108], [115]] = [[119]] ++ names :=
    Location.toPath_injective (by decide)
      (List.forall_mem_append.mpr ⟨by decide, hnames⟩) hpath
  obtain rfl : [[108], [115]] = names := List.append_cancel_left hplace
  have htop : disk.stat (Location.toPath [[119]]) = .ok ([[119]], .dir) := by decide +kernel
  obtain rfl : top = [[119]] := (Prod.mk.inj (Except.ok.inj (hstat.symm.trans htop))).1
  exact absurd hdir (by decide)

end DirTree

end ChangeWatch
