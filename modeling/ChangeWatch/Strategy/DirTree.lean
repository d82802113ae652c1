import ChangeWatch.Disk.Edit
import ChangeWatch.Service.Basic

/-!
# Watching a tree of directories

Every directory down to `maxDepth` levels below the root is registered on its
own and kept as a `Node` under its key.  `DirTree.enter` registers one
directory and `subdirectories` lists one; a walk is made of these two, and
either may see a disk that has changed since the other.

`DirTree.descend` is the whole walk from a directory, parents before
children.  Links below the start are not directories; a start that is a link
is not registered itself, yet the directories behind it are.  The same walk
is also given step by step, as an agenda of `Errand`s that `advance` takes
one at a time, for a watch during which other things happen in between.

When a directory appears, `onCreated` registers it and what is below it first
and lists the registered directories after that: whatever came into being in
between is then reported at least once.
-/

namespace ChangeWatch

/-- A registered directory and how far below the root it is. -/
structure Node where
  dir : Path
  depth : Nat
  deriving DecidableEq, Repr, Inhabited

structure DirTree where
  /-- The absolute path, without links and dots, of the topmost directory. -/
  root : Path
  maxDepth : Nat
  nodes : List (Key × Node)
  deriving DecidableEq, Repr

namespace DirTree

/-- Makes ready to watch a directory, which is made when missing. -/
def prepare (disk : Disk) (p : Path) (maxDepth : Nat) : Except WatchError DirTree × Disk :=
  if disk.exists? p && !disk.isDir p then (.error (.notADirectory p), disk)
  else
    let (made, disk) := if disk.exists? p then (.ok (), disk) else disk.createDirAll p
    match made.bind fun _ => disk.canonicalize p with
    | .error fault => (.error (.io p fault), disk)
    | .ok root => (.ok ⟨root, maxDepth, []⟩, disk)

def node? (t : DirTree) (key : Key) : Option Node :=
  t.nodes.lookup key

/-- Keeps a node under a key, in place of an earlier one. -/
def setNode (t : DirTree) (key : Key) (node : Node) : DirTree :=
  if t.nodes.any fun entry => entry.1 = key then
    { t with nodes := t.nodes.map fun (k, old) => if k = key then (k, node) else (k, old) }
  else { t with nodes := t.nodes ++ [(key, node)] }

/-- The nodes, in path order. -/
def sortedNodes (t : DirTree) : List Node :=
  (t.nodes.map (·.2)).mergeSort fun a b => a.dir.le b.dir

def resolve (t : DirTree) (key : Key) (event : RawEvent) : Option Path :=
  (t.node? key).map fun node =>
    match event.name with
    | some name => node.dir.join name
    | none => node.dir

/-- The real directories in a directory, in listing order; none where nothing
can be listed. -/
def subdirectories (disk : Disk) (dir : Path) : List Path :=
  match disk.readDir dir with
  | .ok entries =>
    entries.filterMap fun (name, e) => if e = .dir then some (dir.child name) else none
  | .error _ => []

/-- The entries of a directory, in path order. -/
def sortedEntries (disk : Disk) (dir : Path) : Except Fault (List Path) :=
  (disk.readDir dir).map fun entries =>
    (entries.map fun (name, _) => dir.child name).mergeSort Path.le

/-- A walk under way. -/
structure Walk (σ : Type) where
  site : σ
  tree : DirTree
  registered : List Path
  warnings : List Warning
  /-- Why the walk was broken off. -/
  failure : Option WatchError

def Walk.start {σ : Type} (site : σ) (tree : DirTree) : Walk σ := ⟨site, tree, [], [], none⟩

variable {σ : Type} [Site σ]

/-- Registers one directory at a depth, and says whether the walk goes on below
it.  Where it should but the directory could not be opened beforehand, that is
noted. -/
def enter (kinds : List EventKind) (dir : Path) (depth : Nat) (w : Walk σ) : Bool × Walk σ :=
  -- it is opened before it is registered, and read after that
  let opened := (Site.disk w.site).isDir dir
  match Site.register dir kinds w.site with
  | (.error e, site) => (false, { w with site, failure := some e })
  | (.ok key, site) =>
    let w := { w with
      site, tree := w.tree.setNode key ⟨dir, depth⟩, registered := w.registered ++ [dir] }
    if w.tree.maxDepth ≤ depth then (false, w)
    else if opened then (true, w)
    else (false, { w with warnings := w.warnings ++ [.unreadableEntry] })

/-- Registers a directory and those below it, so many levels down. -/
def descend (kinds : List EventKind) : Nat → Path → Nat → Walk σ → Walk σ
  | levels, dir, depth, w =>
    if w.failure.isSome then w
    else
      match enter kinds dir depth w, levels with
      | (true, w), levels + 1 =>
        (subdirectories (Site.disk w.site) dir).foldl
          (fun w child => descend kinds levels child (depth + 1) w) w
      | (_, w), _ => w

/-- What a walk finds where it starts. -/
inductive Footing where
  /-- A directory, to be registered. -/
  | directory
  /-- A link to a directory, which is only looked behind. -/
  | linked
  /-- Something else, with nothing to walk. -/
  | nothing
  | unreadable
  deriving DecidableEq, Repr

/-- What stands at the start of a walk. -/
def footing (disk : Disk) (start : Path) : Footing :=
  match disk.lstat start with
  | .error _ => .unreadable
  | .ok (_, .dir) => .directory
  | .ok (_, .file _) => .nothing
  | .ok (_, .link _) =>
    match disk.stat start with
    | .error _ => .unreadable
    | .ok (_, .dir) => .linked
    | .ok _ => .nothing

/-- Registers everything within bounds from a starting path at a depth. -/
def registerTree (kinds : List EventKind) (start : Path) (depth : Nat) (w : Walk σ) : Walk σ :=
  if w.tree.maxDepth < depth then w
  else
    let levels := w.tree.maxDepth - depth
    match footing (Site.disk w.site) start with
    | .directory => descend kinds levels start depth w
    -- only the start itself is looked behind, and not registered
    | .linked =>
      match levels with
      | 0 => w
      | levels + 1 =>
        (subdirectories (Site.disk w.site) start).foldl
          (fun w child => descend kinds levels child (depth + 1) w) w
    | .nothing => w
    | .unreadable => { w with warnings := w.warnings ++ [.unreadableEntry] }

/-- What a walk has still to do. -/
inductive Errand where
  /-- Look at what stands where the walk starts. -/
  | look (start : Path) (depth : Nat)
  | enter (dir : Path) (depth : Nat)
  | list (dir : Path) (depth : Nat)
  deriving DecidableEq, Repr

/-- One step of a walk, and what is to be done next because of it. -/
def advance (kinds : List EventKind) : Errand → Walk σ → List Errand × Walk σ
  | .look start depth, w =>
    if w.tree.maxDepth < depth then ([], w)
    else
      match footing (Site.disk w.site) start with
      | .directory => ([.enter start depth], w)
      | .linked => ([.list start depth], w)
      | .nothing => ([], w)
      | .unreadable => ([], { w with warnings := w.warnings ++ [.unreadableEntry] })
  | .enter dir depth, w =>
    match enter kinds dir depth w with
    | (true, w) => ([.list dir depth], w)
    | (false, w) => ([], w)
  | .list dir depth, w =>
    if depth < w.tree.maxDepth then
      ((subdirectories (Site.disk w.site) dir).map (.enter · (depth + 1)), w)
    else ([], w)

/-- Registers the tree from its root down. -/
def register (t : DirTree) (site : σ) (kinds : List EventKind) : Walk σ :=
  registerTree kinds t.root 0 (.start site t)

/-- Adds the entries of one more directory to what was found. -/
def survey (disk : Disk) (found : List Path × List Warning) (dir : Path) :
    List Path × List Warning :=
  match sortedEntries disk dir with
  | .ok entries => (found.1 ++ entries, found.2)
  | .error _ => (found.1, found.2 ++ [.unlistable])

/-- The entries of some directories, directory by directory, and what was noted
of those that cannot be listed. -/
def existingEntries (disk : Disk) (dirs : List Path) : List Path × List Warning :=
  dirs.foldl (survey disk) ([], [])

/-- How deep a directory that appeared under a key is, if it is to be watched. -/
def pickupDepth? (t : DirTree) (disk : Disk) (key : Key) (path : Path) : Option Nat :=
  if disk.isDir path then
    match t.node? key with
    | some node => if node.depth + 1 ≤ t.maxDepth then some (node.depth + 1) else none
    | none => none
  else none

/-- Registers what appeared at a path under a key, and yields the entries that
were there already, with the walk that was made. -/
def onCreated (t : DirTree) (site : σ) (key : Key) (path : Path) (kinds : List EventKind) :
    Except WatchError (List Path) × Walk σ :=
  match t.pickupDepth? (Site.disk site) key path with
  | none => (.ok [], .start site t)
  | some depth =>
    let w := registerTree kinds path depth (.start site t)
    match w.failure with
    | some e => (.error e, w)
    | none =>
      let (found, noted) := existingEntries (Site.disk w.site) w.registered
      (.ok found, { w with warnings := w.warnings ++ noted })

end DirTree

end ChangeWatch
