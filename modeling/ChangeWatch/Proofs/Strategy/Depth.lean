import ChangeWatch.Proofs.Disk.Descending
import ChangeWatch.Proofs.Service.Translating
import ChangeWatch.Proofs.Strategy.Walk

/-!
# How deep a tree is watched

A tree is registered, events are resolved, and what was created is picked up, call
after call and in any order, while the disk and the service become whatever they like at
any moment, also between two steps of a walk (`DirTree.Tour`).

The depth that is noted with a directory is always the number of names by which one goes
down to it from the root, and never beyond the bound (`DirTree.Placed`).  It is counted in two
places, from the start of a walk and from the directory in which something was created,
and both agree because every step goes down by one proper name.  So no walk starts
deeper than it may, and no path that is handed out is more than one name beyond the bound
(`DirTree.run_within`).
-/

namespace ChangeWatch

/-! ### Proper names -/

/-- All that is on the disk stands under proper names. -/
def Disk.Named (d : Disk) : Prop :=
  ∀ entry ∈ d.entries, ∀ n ∈ entry.1, Path.Normal n

instance (d : Disk) : Decidable d.Named :=
  inferInstanceAs (Decidable (∀ entry ∈ d.entries, ∀ n ∈ entry.1, Path.Normal n))

namespace Disk

variable {d : Disk} {place : Location} {n : Bytes} {e : Entry}

/-- What a directory lists are proper names. -/
theorem Named.children (h : d.Named) (hmem : (n, e) ∈ d.children place) : Path.Normal n := by
  obtain ⟨⟨loc, e'⟩, hentry, hlisted⟩ := List.mem_filterMap.mp hmem
  dsimp only at hlisted
  split at hlisted
  · next name hlast =>
    split at hlisted
    · obtain ⟨rfl, rfl⟩ := Prod.mk.inj (Option.some.inj hlisted)
      exact h _ hentry name (List.mem_of_getLast? hlast)
    · exact absurd hlisted (by simp)
  · exact absurd hlisted (by simp)

theorem Named.readDir (h : d.Named) {p : Path} {entries : List (Bytes × Entry)}
    (hread : d.readDir p = .ok entries) (hmem : (n, e) ∈ entries) : Path.Normal n := by
  unfold Disk.readDir at hread
  split at hread
  · obtain rfl := Except.ok.inj hread
    exact h.children hmem
  · exact absurd hread (by simp)
  · exact absurd hread (by simp)

theorem Named.drop (h : d.Named) (place : Location) : (d.drop place).Named :=
  fun entry hentry => h entry (List.mem_of_mem_filter hentry)

theorem Named.remove (h : d.Named) (p : Path) : (d.remove p).2.Named := by
  unfold Disk.remove
  split
  · split
    · exact h
    · split
      · exact h
      · exact h.drop _
  · exact h.drop _
  · exact h

end Disk

/-- The event has the shape of one that a report is translated to: a proper name, unless
changes were missed. -/
def RawEvent.Shaped (event : RawEvent) : Prop :=
  match event.name with
  | none => event.kind = .overflow
  | some name => event.kind ≠ .overflow ∧ Path.Normal name.bytes

instance : (event : RawEvent) → Decidable event.Shaped
  | ⟨kind, none⟩ => inferInstanceAs (Decidable (kind = .overflow))
  | ⟨kind, some name⟩ => inferInstanceAs (Decidable (kind ≠ .overflow ∧ Path.Normal name.bytes))

/-- Events are put together, and none is added. -/
theorem Batch.mem_group {located : List (Key × RawEvent)} {b : Batch} (hb : b ∈ group located) :
    ∀ event ∈ b.events, (b.key, event) ∈ located := by
  induction located generalizing b with
  | nil => exact absurd hb List.not_mem_nil
  | cons entry rest ih =>
    obtain ⟨key, first⟩ := entry
    unfold group at hb
    intro event hevent
    split at hb
    · next b' bs hgroup =>
      have hrest : ∀ c ∈ b' :: bs, ∀ event ∈ c.events, (c.key, event) ∈ rest :=
        fun c hc => ih (hgroup ▸ hc)
      split at hb
      · next hkey =>
        rcases List.mem_cons.mp hb with rfl | hb
        · rcases List.mem_cons.mp hevent with rfl | hevent
          · exact List.mem_cons_self
          · have hmem := hrest b' List.mem_cons_self event hevent
            rw [hkey] at hmem
            exact List.mem_cons_of_mem _ hmem
        · exact List.mem_cons_of_mem _ (hrest b (List.mem_cons_of_mem _ hb) event hevent)
      · rcases List.mem_cons.mp hb with rfl | hb
        · rw [List.mem_singleton.mp hevent]
          exact List.mem_cons_self
        · exact List.mem_cons_of_mem _ (hrest b hb event hevent)
    · rw [List.mem_singleton.mp hb] at hevent ⊢
      rw [List.mem_singleton.mp hevent]
      exact List.mem_cons_self

/-- Whatever is reported, it is translated to events of this shape. -/
theorem Registry.translate_shaped (r : Registry) (disk : Disk) (report : Report) :
    ∀ b ∈ r.translate disk report, ∀ event ∈ b.events, event.Shaped := by
  intro b hb event hevent
  unfold translate at hb
  split at hb
  · obtain ⟨key, -, rfl⟩ := Option.map_eq_some_iff.mp (Option.mem_toList.mp hb)
    rw [List.mem_singleton.mp hevent]
    exact rfl
  · obtain ⟨change, hchange, hlocate⟩ := List.mem_filterMap.mp (Batch.mem_group hb event hevent)
    have hkind : change.1 ≠ .overflow := report.changes_kind disk change hchange
    unfold locate at hlocate
    split at hlocate
    · next parent name hparent hname =>
      split at hlocate
      · split at hlocate
        · obtain ⟨-, rfl⟩ := Prod.mk.inj (Option.some.inj hlocate)
          exact ⟨hkind, Path.normal_fileName hname⟩
        · exact absurd hlocate (by simp)
      · exact absurd hlocate (by simp)
    · exact absurd hlocate (by simp)

/-- A site whose disk has proper names, and still has them after something was registered. -/
def Site.KeepsNames (σ : Type) [Site σ] : Prop :=
  ∀ (dir : Path) (kinds : List EventKind) (s : σ), (Site.disk s).Named →
    (Site.disk (Site.register dir kinds s).2).Named

/-- A service may make a directory disappear by registering it, but gives none another name. -/
theorem keepsNames_ground : Site.KeepsNames Ground := by
  intro dir kinds g hg
  obtain ⟨service, disk⟩ := g
  cases service with
  | notifying s => exact hg
  | memory s =>
    have hdisk : (s.register disk dir kinds).2.2 = disk ∨
        (s.register disk dir kinds).2.2 = (disk.remove dir).2 := by
      unfold MemoryService.register
      split
      · exact Or.inl rfl
      · split
        · exact Or.inl rfl
        · unfold MemoryService.afterRegister
          split <;> dsimp only <;> split
          all_goals first | exact Or.inr rfl | exact Or.inl rfl
    show (s.register disk dir kinds).2.2.Named
    rcases hdisk with heq | heq
    · rw [heq]
      exact hg
    · rw [heq]
      exact Disk.Named.remove hg dir

namespace DirTree

/-! ### One step of a walk -/

/-- One goes down by so many proper names from the root to a path. -/
def Placed (root : Path) (depth : Nat) (p : Path) : Prop :=
  ∃ names, names.length = depth ∧ Path.Below root names p

theorem Placed.child {root p : Path} {depth : Nat} {n : Bytes} (h : Placed root depth p)
    (hn : Path.Normal n) : Placed root (depth + 1) (p.child n) := by
  obtain ⟨names, rfl, hbelow⟩ := h
  exact ⟨names ++ [n], List.length_append, hbelow.child hn⟩

/-- The directory that an errand is about, and its depth. -/
def Errand.target : Errand → Path × Nat
  | .look start depth => (start, depth)
  | .enter dir depth => (dir, depth)
  | .list dir depth => (dir, depth)

/-- An errand is no deeper than it may be, and where its depth says. -/
def Errand.Fits (root : Path) (maxDepth : Nat) (e : Errand) : Prop :=
  e.target.2 ≤ maxDepth ∧ Placed root e.target.2 e.target.1

variable {σ : Type} [Site σ] {root : Path} {maxDepth : Nat} {kinds : List EventKind}

/-- The directories of a walk are where their depths say. -/
structure Within (root : Path) (maxDepth : Nat) (w : Walk σ) : Prop where
  rooted : w.tree.root = root
  bounded : w.tree.maxDepth = maxDepth
  named : (Site.disk w.site).Named
  nodes : ∀ entry ∈ w.tree.nodes, entry.2.depth ≤ maxDepth ∧ Placed root entry.2.depth entry.2.dir
  registered : ∀ dir ∈ w.registered, ∃ depth ≤ maxDepth, Placed root depth dir

/-- A new walk over the same tree. -/
theorem Within.restart {w : Walk σ} (h : Within root maxDepth w) :
    Within root maxDepth (.start w.site w.tree) :=
  ⟨h.rooted, h.bounded, h.named, h.nodes, fun _ hdir => absurd hdir List.not_mem_nil⟩

theorem Within.enter (hnames : Site.KeepsNames σ) {w : Walk σ} (h : Within root maxDepth w)
    {dir : Path} {depth : Nat} (hdepth : depth ≤ maxDepth) (hplaced : Placed root depth dir) :
    Within root maxDepth (enter kinds dir depth w).2 := by
  have hsite := hnames dir kinds w.site h.named
  rcases enter_cases kinds dir depth w with
    ⟨_, _, hregister, heq⟩ | ⟨_, _, _, _, hregister, -, heq⟩ <;>
    rw [hregister] at hsite <;> rw [heq]
  · exact ⟨h.rooted, h.bounded, hsite, h.nodes, h.registered⟩
  · refine ⟨by rw [setNode_root, h.rooted], by rw [setNode_maxDepth, h.bounded], hsite,
      fun entry hentry => ?_, fun d hd => ?_⟩
    · rcases mem_setNode hentry with hold | rfl
      · exact h.nodes entry hold
      · exact ⟨hdepth, hplaced⟩
    · rcases List.mem_append.mp hd with hold | hnew
      · exact h.registered d hold
      · rw [List.mem_singleton.mp hnew]
        exact ⟨depth, hdepth, hplaced⟩

/-- The directories found in a directory are one level below it. -/
theorem placed_of_mem_subdirectories {disk : Disk} (hdisk : disk.Named) {dir child : Path}
    {depth : Nat} (hplaced : Placed root depth dir) (hchild : child ∈ subdirectories disk dir) :
    Placed root (depth + 1) child := by
  unfold subdirectories at hchild
  split at hchild
  · next entries hread =>
    obtain ⟨⟨n, e⟩, hentry, hlisted⟩ := List.mem_filterMap.mp hchild
    dsimp only at hlisted
    split at hlisted
    · obtain rfl := Option.some.inj hlisted
      exact hplaced.child (hdisk.readDir hread hentry)
    · exact absurd hlisted (by simp)
  · exact absurd hchild List.not_mem_nil

/-- A step of a walk keeps its directories where their depths say, and leads to no errand that
is too deep. -/
theorem Within.advance (hnames : Site.KeepsNames σ) {w : Walk σ} (h : Within root maxDepth w)
    {errand : Errand} (hfits : errand.Fits root maxDepth) :
    Within root maxDepth (advance kinds errand w).2 ∧
      ∀ e ∈ (advance kinds errand w).1, e.Fits root maxDepth := by
  obtain ⟨hdepth, hplaced⟩ := hfits
  -- only listing goes a level down, and it does so above the last one
  cases errand with
  | look start depth =>
    unfold DirTree.advance
    dsimp only
    split
    · exact ⟨h, by simp⟩
    · split
      · exact ⟨h, fun e he => by rw [List.mem_singleton.mp he]; exact ⟨hdepth, hplaced⟩⟩
      · exact ⟨h, fun e he => by rw [List.mem_singleton.mp he]; exact ⟨hdepth, hplaced⟩⟩
      · exact ⟨h, by simp⟩
      · exact ⟨⟨h.rooted, h.bounded, h.named, h.nodes, h.registered⟩, by simp⟩
  | enter dir depth =>
    have hentered : Within root maxDepth (DirTree.enter kinds dir depth w).2 :=
      h.enter hnames hdepth hplaced
    unfold DirTree.advance
    dsimp only
    rcases hresult : DirTree.enter kinds dir depth w with ⟨below, w'⟩
    rw [hresult] at hentered
    cases below with
    | true => exact ⟨hentered, fun e he => by rw [List.mem_singleton.mp he]; exact ⟨hdepth, hplaced⟩⟩
    | false => exact ⟨hentered, by simp⟩
  | list dir depth =>
    unfold DirTree.advance
    dsimp only
    split
    · next hbelow =>
      refine ⟨h, fun e he => ?_⟩
      obtain ⟨child, hchild, rfl⟩ := List.mem_map.mp he
      rw [h.bounded] at hbelow
      exact ⟨hbelow, placed_of_mem_subdirectories h.named hplaced hchild⟩
    · exact ⟨h, by simp⟩

/-- The entries found in registered directories are at most one level beyond the bound. -/
theorem survey_within {disk : Disk} (hdisk : disk.Named) {found : List Path × List Warning}
    {dir : Path} (hdir : ∃ depth ≤ maxDepth, Placed root depth dir)
    (hfound : ∀ p ∈ found.1, ∃ depth ≤ maxDepth + 1, Placed root depth p) :
    ∀ p ∈ (survey disk found dir).1, ∃ depth ≤ maxDepth + 1, Placed root depth p := by
  obtain ⟨depth, hdepth, hplaced⟩ := hdir
  unfold survey sortedEntries
  intro p hp
  cases hread : disk.readDir dir with
  | error fault =>
    rw [hread] at hp
    exact hfound p hp
  | ok entries =>
    rw [hread] at hp
    rcases List.mem_append.mp hp with hp | hp
    · exact hfound p hp
    · obtain ⟨⟨n, e⟩, hentry, rfl⟩ := List.mem_map.mp (List.mem_mergeSort.mp hp)
      exact ⟨depth + 1, Nat.succ_le_succ hdepth, hplaced.child (hdisk.readDir hread hentry)⟩

/-! ### Call after call -/

/-- What a tree is asked to do at the moment. -/
inductive Activity where
  | idle
  /-- A path was just given for something created under a key. -/
  | given (key : Key) (path : Path)
  /-- A walk has these errands left; at the end of a pickup the directories are listed. -/
  | walking (pickup : Bool) (kinds : List EventKind) (agenda : List Errand)
  /-- Directories are left to be listed, and this was found in the others. -/
  | listing (dirs : List Path) (found : List Path × List Warning)
  deriving DecidableEq, Repr

/-- A tree in use: its site and its nodes are those of its last walk. -/
structure Tour (σ : Type) where
  walk : Walk σ
  activity : Activity
  /-- The paths that were handed out. -/
  handed : List Path

/-- What may happen to a tree in use. -/
inductive Tour.Turn (σ : Type) where
  /-- The disk and the service become any others. -/
  | change (site : σ)
  | register (kinds : List EventKind)
  | resolve (key : Key) (event : RawEvent)
  /-- What was created where a path was just given is picked up. -/
  | pickUp (kinds : List EventKind)
  /-- The call under way goes on by one step. -/
  | proceed

namespace Tour

/-- No call is under way. -/
def free (t : Tour σ) : Bool :=
  match t.activity with
  | .idle | .given .. => true
  | _ => false

/-- What is done by a call under way. -/
def proceed (t : Tour σ) : Option (Tour σ) :=
  match t.activity with
  | .idle | .given .. => none
  | .walking pickup kinds agenda =>
    if t.walk.failure.isSome then some { t with activity := .idle }
    else
      match agenda with
      | errand :: rest =>
        let (more, walk) := advance kinds errand t.walk
        some { t with walk, activity := .walking pickup kinds (more ++ rest) }
      | [] =>
        let next := if pickup then .listing t.walk.registered ([], []) else .idle
        some { t with activity := next }
  | .listing (dir :: rest) found =>
    some { t with activity := .listing rest (survey (Site.disk t.walk.site) found dir) }
  | .listing [] found =>
    some ⟨{ t.walk with warnings := t.walk.warnings ++ found.2 }, .idle, t.handed ++ found.1⟩

/-- One turn, if it can be taken. -/
def turn (t : Tour σ) : Turn σ → Option (Tour σ)
  | .change site => some { t with walk := { t.walk with site } }
  | .register kinds =>
    if t.free then
      some { t with
        walk := .start t.walk.site t.walk.tree
        activity := .walking false kinds [.look t.walk.tree.root 0] }
    else none
  | .resolve key event =>
    if t.free then
      match t.walk.tree.resolve key event with
      | none => some { t with activity := .idle }
      | some path =>
        let next := if event.kind = .create then .given key path else .idle
        some { t with activity := next, handed := t.handed ++ [path] }
    else none
  | .pickUp kinds =>
    match t.activity with
    | .given key path =>
      let walk : Walk σ := .start t.walk.site t.walk.tree
      match t.walk.tree.pickupDepth? (Site.disk t.walk.site) key path with
      | none => some { t with walk, activity := .idle }
      | some depth => some { t with walk, activity := .walking true kinds [.look path depth] }
    | _ => none
  | .proceed => t.proceed

def run? (t : Tour σ) : List (Turn σ) → Option (Tour σ)
  | [] => some t
  | a :: rest => (t.turn a).bind (·.run? rest)

/-- A tree that was not used yet. -/
def begin (site : σ) (root : Path) (maxDepth : Nat) : Tour σ :=
  ⟨.start site ⟨root, maxDepth, []⟩, .idle, []⟩

/-- The errands that are left of a walk under way. -/
def errands (t : Tour σ) : List Errand :=
  match t.activity with
  | .walking _ _ agenda => agenda
  | _ => []

end Tour

/-- Disks have proper names, and events the shape that reports are translated to. -/
def Tour.Turn.Proper : Tour.Turn σ → Prop
  | .change site => (Site.disk site).Named
  | .resolve _ event => event.Shaped
  | _ => True

instance : (a : Tour.Turn σ) → Decidable a.Proper
  | .change site => inferInstanceAs (Decidable (Site.disk site).Named)
  | .resolve _ event => inferInstanceAs (Decidable event.Shaped)
  | .register _ | .pickUp _ | .proceed => inferInstanceAs (Decidable True)

/-- What an activity is about is where its depths say. -/
def Activity.Fits (root : Path) (maxDepth : Nat) (tree : DirTree) : Activity → Prop
  | .idle => True
  | .given key path =>
    ∃ node, tree.node? key = some node ∧ Placed root (node.depth + 1) path
  | .walking _ _ agenda => ∀ e ∈ agenda, e.Fits root maxDepth
  | .listing dirs found =>
    (∀ dir ∈ dirs, ∃ depth ≤ maxDepth, Placed root depth dir) ∧
      ∀ p ∈ found.1, ∃ depth ≤ maxDepth + 1, Placed root depth p

/-- Everything of a tree in use is where its depths say. -/
structure Sound (root : Path) (maxDepth : Nat) (t : Tour σ) : Prop where
  walk : Within root maxDepth t.walk
  activity : t.activity.Fits root maxDepth t.walk.tree
  handed : ∀ p ∈ t.handed, ∃ depth ≤ maxDepth + 1, Placed root depth p

theorem sound_begin {site : σ} (h : (Site.disk site).Named) (root : Path) (maxDepth : Nat) :
    Sound root maxDepth (Tour.begin site root maxDepth) where
  walk := ⟨rfl, rfl, h, fun _ hentry => absurd hentry List.not_mem_nil,
    fun _ hdir => absurd hdir List.not_mem_nil⟩
  activity := trivial
  handed := fun _ hp => absurd hp List.not_mem_nil

variable {t t' : Tour σ}

theorem Sound.proceed (hnames : Site.KeepsNames σ) (h : Sound root maxDepth t)
    (ht : t.proceed = some t') : Sound root maxDepth t' := by
  obtain ⟨walk, activity, handed⟩ := t
  obtain ⟨hwalk, hactivity, hhanded⟩ := h
  cases activity with
  | idle => exact absurd ht (by simp [Tour.proceed])
  | given key path => exact absurd ht (by simp [Tour.proceed])
  | walking pickup kinds agenda =>
    simp only [Tour.proceed] at ht
    split at ht
    · obtain rfl := Option.some.inj ht
      exact ⟨hwalk, trivial, hhanded⟩
    -- a walk goes on with its first errand, and when none is left its directories are listed
    · cases agenda with
      | cons errand rest =>
        obtain rfl := Option.some.inj ht
        have hadvanced : Within root maxDepth (DirTree.advance kinds errand walk).2 ∧
            ∀ e ∈ (DirTree.advance kinds errand walk).1, e.Fits root maxDepth :=
          hwalk.advance hnames (hactivity errand List.mem_cons_self)
        obtain ⟨hnext, hmore⟩ := hadvanced
        refine ⟨hnext, fun e he => ?_, hhanded⟩
        rcases List.mem_append.mp he with he | he
        · exact hmore e he
        · exact hactivity e (List.mem_cons_of_mem _ he)
      | nil =>
        obtain rfl := Option.some.inj ht
        refine ⟨hwalk, ?_, hhanded⟩
        dsimp only
        split
        · exact ⟨hwalk.registered, fun p hp => absurd hp List.not_mem_nil⟩
        · trivial
  | listing dirs found =>
    obtain ⟨hdirs, hfound⟩ := hactivity
    cases dirs with
    | cons dir rest =>
      obtain rfl := Option.some.inj ht
      exact ⟨hwalk, ⟨fun d hd => hdirs d (List.mem_cons_of_mem _ hd),
        survey_within hwalk.named (hdirs dir List.mem_cons_self) hfound⟩, hhanded⟩
    | nil =>
      obtain rfl := Option.some.inj ht
      refine ⟨⟨hwalk.rooted, hwalk.bounded, hwalk.named, hwalk.nodes, hwalk.registered⟩, trivial,
        fun p hp => ?_⟩
      rcases List.mem_append.mp hp with hp | hp
      · exact hhanded p hp
      · exact hfound p hp

/-- What an event is resolved to is the directory of its key or one level below it. -/
theorem Sound.resolve (h : Sound root maxDepth t) {key : Key} {event : RawEvent} {path : Path}
    (hshape : event.Shaped) (hresolve : t.walk.tree.resolve key event = some path) :
    (∃ depth ≤ maxDepth + 1, Placed root depth path) ∧
      (event.kind = .create →
        ∃ node, t.walk.tree.node? key = some node ∧ Placed root (node.depth + 1) path) := by
  obtain ⟨node, hnode, hpath⟩ := Option.map_eq_some_iff.mp hresolve
  obtain ⟨front, back, hnodes, -⟩ := List.lookup_eq_some_iff.mp hnode
  obtain ⟨hdepth, hplaced⟩ := h.walk.nodes (key, node) (by rw [hnodes]; simp)
  unfold RawEvent.Shaped at hshape
  cases hname : event.name with
  | none =>
    rw [hname] at hpath hshape
    obtain rfl : node.dir = path := hpath
    refine ⟨⟨_, Nat.le_succ_of_le hdepth, hplaced⟩, fun hcreate => ?_⟩
    -- only what was missed has no name
    exact absurd (hcreate.symm.trans hshape) (by simp)
  | some name =>
    rw [hname] at hpath hshape
    obtain rfl : node.dir.child name.bytes = path := hpath
    have hbelow := hplaced.child hshape.2
    exact ⟨⟨_, Nat.succ_le_succ hdepth, hbelow⟩, fun _ => ⟨node, hnode, hbelow⟩⟩

/-- Every turn keeps everything where its depth says. -/
theorem Sound.turn (hnames : Site.KeepsNames σ) (h : Sound root maxDepth t) {a : Tour.Turn σ}
    (ha : a.Proper) (ht : t.turn a = some t') : Sound root maxDepth t' := by
  cases a with
  | change site =>
    obtain rfl := Option.some.inj ht
    exact ⟨⟨h.walk.rooted, h.walk.bounded, ha, h.walk.nodes, h.walk.registered⟩, h.activity,
      h.handed⟩
  | register kinds =>
    simp only [Tour.turn] at ht
    split at ht
    · obtain rfl := Option.some.inj ht
      refine ⟨h.walk.restart, fun e he => ?_, h.handed⟩
      rw [List.mem_singleton.mp he]
      exact ⟨Nat.zero_le _, [], rfl, h.walk.rooted ▸ Path.Below.refl _⟩
    · exact absurd ht (by simp)
  | resolve key event =>
    simp only [Tour.turn] at ht
    split at ht
    · split at ht
      · obtain rfl := Option.some.inj ht
        exact ⟨h.walk, trivial, h.handed⟩
      · next path hresolve =>
        obtain rfl := Option.some.inj ht
        obtain ⟨hpath, hcreated⟩ := h.resolve ha hresolve
        refine ⟨h.walk, ?_, fun p hp => ?_⟩
        · dsimp only
          split
          · next hcreate => exact hcreated hcreate
          · trivial
        · rcases List.mem_append.mp hp with hp | hp
          · exact h.handed p hp
          · rw [List.mem_singleton.mp hp]
            exact hpath
    · exact absurd ht (by simp)
  | pickUp kinds =>
    simp only [Tour.turn] at ht
    split at ht
    · next key path hgiven =>
      have hactivity := h.activity
      rw [hgiven] at hactivity
      obtain ⟨node, hnode, hplaced⟩ := hactivity
      split at ht
      · obtain rfl := Option.some.inj ht
        exact ⟨h.walk.restart, trivial, h.handed⟩
      · next depth hdepth =>
        obtain rfl := Option.some.inj ht
        refine ⟨h.walk.restart, fun e he => ?_, h.handed⟩
        rw [List.mem_singleton.mp he]
        -- the walk starts one level below the node, if that is not too deep
        unfold pickupDepth? at hdepth
        rw [hnode] at hdepth
        split at hdepth
        · dsimp only at hdepth
          split at hdepth
          · next hle =>
            obtain rfl := Option.some.inj hdepth
            rw [h.walk.bounded] at hle
            exact ⟨hle, hplaced⟩
          · exact absurd hdepth (by simp)
        · exact absurd hdepth (by simp)
    · exact absurd ht (by simp)
  | proceed => exact h.proceed hnames ht

theorem Sound.run (hnames : Site.KeepsNames σ) {turns : List (Tour.Turn σ)} :
    ∀ {t : Tour σ}, Sound root maxDepth t → (∀ a ∈ turns, a.Proper) → t.run? turns = some t' →
      Sound root maxDepth t' := by
  induction turns with
  | nil =>
    intro t h _ ht
    obtain rfl := Option.some.inj ht
    exact h
  | cons a rest ih =>
    intro t h hproper ht
    obtain ⟨u, hu, hrest⟩ := Option.bind_eq_some_iff.mp ht
    exact ih (h.turn hnames (hproper a List.mem_cons_self) hu)
      (fun b hb => hproper b (List.mem_cons_of_mem _ hb)) hrest

/-- However a tree is used while the disk and the service change: the depth of a node is the
number of names by which its directory lies below the root, and within the bound; no walk has
anything left to do that is deeper than the bound; and every path that was handed out lies
below the root, by one name more than the bound at most. -/
theorem run_within (hnames : Site.KeepsNames σ) {site : σ} (hsite : (Site.disk site).Named)
    {turns : List (Tour.Turn σ)} (hturns : ∀ a ∈ turns, a.Proper)
    (hrun : (Tour.begin site root maxDepth).run? turns = some t) :
    (∀ entry ∈ t.walk.tree.nodes, entry.2.depth ≤ maxDepth ∧ ∃ names : List Bytes,
      names.length = entry.2.depth ∧ Path.Below root names entry.2.dir ∧
        entry.2.dir.components = root.components ++ names.map .name) ∧
    (∀ e ∈ t.errands, e.target.2 ≤ maxDepth) ∧
    (∀ p ∈ t.handed, ∃ names : List Bytes, names.length ≤ maxDepth + 1 ∧
      Path.Below root names p ∧ p.components = root.components ++ names.map .name) := by
  obtain ⟨hwalk, hactivity, hhanded⟩ :=
    (sound_begin hsite root maxDepth).run hnames hturns hrun
  refine ⟨fun entry hentry => ?_, fun e he => ?_, fun p hp => ?_⟩
  · obtain ⟨hdepth, names, hlength, hbelow⟩ := hwalk.nodes entry hentry
    exact ⟨hdepth, names, hlength, hbelow, hbelow.components⟩
  · unfold Tour.errands at he
    split at he
    · next hwalking =>
      rw [hwalking] at hactivity
      exact (hactivity e he).1
    · exact absurd he List.not_mem_nil
  · obtain ⟨depth, hdepth, names, rfl, hbelow⟩ := hhanded p hp
    exact ⟨names, hdepth, hbelow, hbelow.components⟩

/-! ### Calls that nothing disturbs -/

theorem Tour.run?_append (t : Tour σ) (turns more : List (Turn σ)) :
    t.run? (turns ++ more) = (t.run? turns).bind (·.run? more) := by
  induction turns generalizing t with
  | nil => rfl
  | cons a rest ih =>
    show (t.turn a).bind (fun u => u.run? (rest ++ more)) = _
    cases hturn : t.turn a with
    | none => simp [Tour.run?, hturn]
    | some u => simp [Tour.run?, hturn, ih u]

/-- A walk comes to its end by so many steps. -/
theorem Walks.proceeds {agenda : List Errand} {w w' : Walk σ} (h : Walks kinds agenda w w')
    (pickup : Bool) (handed : List Path) : ∃ n agenda',
      (⟨w, .walking pickup kinds agenda, handed⟩ : Tour σ).run? (List.replicate n .proceed) =
        some ⟨w', .walking pickup kinds agenda', handed⟩ ∧
      (w'.failure = none → agenda' = []) := by
  induction h with
  | done w => exact ⟨0, [], rfl, fun _ => rfl⟩
  | @failed agenda w e hfailed =>
    exact ⟨0, agenda, rfl, fun hnone => absurd (hfailed.symm.trans hnone) (by simp)⟩
  | @step errand rest w w' hnone _ ih =>
    obtain ⟨n, agenda', hrun, hend⟩ := ih
    refine ⟨n + 1, agenda', ?_, hend⟩
    rw [List.replicate_succ, Tour.run?, Tour.turn, Tour.proceed]
    simp only [hnone, Option.isSome_none, Bool.false_eq_true, if_false]
    exact hrun

/-- Directories are listed one by one. -/
theorem listing_proceeds (w : Walk σ) (handed : List Path) (dirs : List Path) :
    ∀ found : List Path × List Warning,
      (⟨w, .listing dirs found, handed⟩ : Tour σ).run?
          (List.replicate (dirs.length + 1) .proceed) =
        some ⟨{ w with
            warnings := w.warnings ++ (dirs.foldl (survey (Site.disk w.site)) found).2 },
          .idle, handed ++ (dirs.foldl (survey (Site.disk w.site)) found).1⟩ := by
  induction dirs with
  | nil => intro found; rfl
  | cons dir rest ih =>
    intro found
    rw [List.length_cons, List.replicate_succ, Tour.run?, Tour.turn, Tour.proceed]
    exact ih _

/-- To register a tree that nothing disturbs is the whole walk from its root. -/
theorem register_undisturbed {t : Tour σ} (h : t.free = true) (kinds : List EventKind) :
    ∃ n, t.run? (.register kinds :: List.replicate n .proceed) =
      some ⟨t.walk.tree.register t.walk.site kinds, .idle, t.handed⟩ := by
  have hwalk : Walks kinds [.look t.walk.tree.root 0] (.start t.walk.site t.walk.tree)
      (t.walk.tree.register t.walk.site kinds) := walks_registerTree rfl _ _
  obtain ⟨n, agenda, hrun, hend⟩ := hwalk.proceeds false t.handed
  refine ⟨n + 1, ?_⟩
  rw [Tour.run?, Tour.turn, if_pos h, Option.bind_some, List.replicate_succ', Tour.run?_append,
    hrun, Option.bind_some, Tour.run?, Tour.turn, Tour.proceed]
  dsimp only
  split
  · rfl
  · next hfailure =>
    rw [hend (by simpa using hfailure)]
    rfl

/-- To pick up what was created, if nothing disturbs it, is the whole walk from there and
the listing after it. -/
theorem pickUp_undisturbed {t : Tour σ} {key : Key} {path : Path}
    (h : t.activity = .given key path) (kinds : List EventKind) :
    ∃ n, t.run? (.pickUp kinds :: List.replicate n .proceed) =
      some ⟨(t.walk.tree.onCreated t.walk.site key path kinds).2, .idle,
        t.handed ++ ((t.walk.tree.onCreated t.walk.site key path kinds).1.toOption.getD [])⟩ := by
  obtain ⟨walk, activity, handed⟩ := t
  obtain rfl : activity = .given key path := h
  unfold onCreated
  dsimp only
  cases hdepth : walk.tree.pickupDepth? (Site.disk walk.site) key path with
  | none =>
    refine ⟨0, ?_⟩
    simp only [Tour.run?, Tour.turn, hdepth, List.replicate_zero, Option.bind_some]
    simp [Except.toOption]
  | some depth =>
    have hwalk : Walks kinds [.look path depth] (.start walk.site walk.tree)
        (registerTree kinds path depth (.start walk.site walk.tree)) := walks_registerTree rfl _ _
    obtain ⟨n, agenda, hrun, hend⟩ := hwalk.proceeds true handed
    dsimp only
    generalize registerTree kinds path depth (.start walk.site walk.tree) = w at hrun hend ⊢
    have hsteps : ∀ more, (⟨walk, .given key path, handed⟩ : Tour σ).run?
        (.pickUp kinds :: (List.replicate n .proceed ++ more)) =
          (⟨w, .walking true kinds agenda, handed⟩ : Tour σ).run? more := by
      intro more
      simp only [Tour.run?, Tour.turn, hdepth, Option.bind_some]
      rw [Tour.run?_append, hrun, Option.bind_some]
    cases hfailure : w.failure with
    | some e =>
      refine ⟨n + 1, ?_⟩
      rw [List.replicate_succ', hsteps]
      simp [Tour.run?, Tour.turn, Tour.proceed, hfailure, Except.toOption]
    | none =>
      -- first the agenda is found to be empty, then the directories are listed
      refine ⟨n + (1 + (w.registered.length + 1)), ?_⟩
      rw [List.replicate_add, hsteps, List.replicate_add, Tour.run?_append, hend hfailure]
      have hlist := listing_proceeds w handed w.registered ([], [])
      rw [hfailure] at hlist
      simp only [List.replicate_one, Tour.run?, Tour.turn, Tour.proceed, hfailure,
        Option.isSome_none, Bool.false_eq_true, if_false, if_true, Option.bind_some]
      exact hlist

/-- The directories `w`, `w/a` and `w/a/b`. -/
def nestedDisk : Disk :=
  ((Disk.empty.put [[119]] .dir).put [[119], [97]] .dir).put [[119], [97], [98]] .dir

/-- A tree is registered one level deep, and then more directories come up.  One in `w/a` is
told but not picked up; of one in `w` the entries are told, which are two levels down. -/
theorem tree_of_one_level_is_within :
    let site : Ground := ⟨.memory (.new .none), nestedDisk⟩
    let later : Ground := ⟨.memory { MemoryService.new .none with nextKey := 2 },
      (nestedDisk.put [[119], [99]] .dir).put [[119], [99], [100]] .dir⟩
    let created (name : Bytes) : RawEvent := ⟨.create, some ⟨name⟩⟩
    let turns : List (Tour.Turn Ground) := .register [.create] :: List.replicate 5 .proceed ++
      [.change later, .resolve ⟨1⟩ (created [98]), .pickUp [.create], .resolve ⟨0⟩ (created [99]),
        .pickUp [.create]] ++ List.replicate 5 .proceed
    Site.KeepsNames Ground ∧ (Site.disk site).Named ∧ (∀ a ∈ turns, a.Proper) ∧
    ∃ t, (Tour.begin site (Location.toPath [[119]]) 1).run? turns = some t ∧
      t.handed = [Location.toPath [[119], [97], [98]], Location.toPath [[119], [99]],
        Location.toPath [[119], [99], [100]]] ∧
      (∀ entry ∈ t.walk.tree.nodes, entry.2.depth ≤ 1) ∧
      ∀ p ∈ t.handed, ∃ names : List Bytes, names.length ≤ 2 ∧
        Path.Below (Location.toPath [[119]]) names p := by
  intro site later created turns
  have hsite : (Site.disk site).Named := by decide +kernel
  have hproper : ∀ a ∈ turns, a.Proper := by decide +kernel
  have hend : ((Tour.begin site (Location.toPath [[119]]) 1).run? turns).map (·.handed) =
      some [Location.toPath [[119], [97], [98]], Location.toPath [[119], [99]],
        Location.toPath [[119], [99], [100]]] := by decide +kernel
  obtain ⟨t, ht, hhanded⟩ := Option.map_eq_some_iff.mp hend
  obtain ⟨hnodes, -, hpaths⟩ := run_within keepsNames_ground hsite hproper ht
  refine ⟨keepsNames_ground, hsite, hproper, t, ht, hhanded, fun entry hentry =>
    (hnodes entry hentry).1, fun p hp => ?_⟩
  obtain ⟨names, hlength, hbelow, -⟩ := hpaths p hp
  exact ⟨names, hlength, hbelow⟩

end DirTree

end ChangeWatch
