import ChangeWatch.Disk.Change
import ChangeWatch.Service.Report

/-!
# The notification backend

A backend watches directories one by one, never what is below them.  What it
watches is the directory itself, wherever a path led to it and wherever it is
moved; a path is kept to name its entries in reports, the one by which it was
last asked for.

A change is reported once for each watched directory that it shows in.  A
renaming is reported for the old side, for the new side, and for both if both
are watched.  A watched directory that vanishes or is moved is reported also on
its own account, and one that gives way to another in a renaming counts as
changed before it vanishes.

Watches are given up by path: when an entry vanishes or is moved away, the watch
that was asked for by its path is given up, and those whose entries are named
by a path below it.  Changes that come together are all reported before.
-/

namespace ChangeWatch

structure Watched where
  /-- Its number among all that were ever watched. -/
  id : Nat
  /-- Where it is now. -/
  place : Location
  /-- The path by which it was last asked for. -/
  path : Path
  deriving DecidableEq, Repr

structure Backend where
  watched : List Watched
  /-- The paths that were asked for, and the number of what each led to. -/
  asked : List (Path × Nat)
  nextId : Nat
  deriving DecidableEq, Repr

namespace Backend

def new : Backend := ⟨[], [], 0⟩

def at? (b : Backend) (place : Location) : Option Watched :=
  b.watched.find? fun w => w.place = place

/-- Notes what a path led to. -/
def ask (b : Backend) (path : Path) (id : Nat) : Backend :=
  { b with asked := b.asked.filter (fun a => !a.1.same path) ++ [(path, id)] }

/-- Watches what is at a place; a directory watched before gets another name. -/
def watchPlace (b : Backend) (place : Location) (path : Path) : Backend :=
  match b.at? place with
  | some w =>
    let renamed := b.watched.map fun v => if v.id = w.id then { v with path } else v
    ask { b with watched := renamed } path w.id
  | none =>
    let added := b.watched ++ [⟨b.nextId, place, path⟩]
    ask { b with watched := added, nextId := b.nextId + 1 } path b.nextId

def watch (b : Backend) (disk : Disk) (dir : Path) : Except BackendError Backend :=
  let target := disk.cwd.toPath.join dir
  match disk.stat target with
  | .ok (place, _) => .ok (b.watchPlace place target)
  | .error .zeroByte => .error ⟨.io (.other "data provided contains a nul byte"), [target]⟩
  | .error fault => .error ⟨.io fault, [target]⟩

/-- The backend without what is named by a path or by one below it. -/
def clearBelow (b : Backend) (path : Path) : Backend :=
  let (given, kept) := b.watched.partition fun w => path.covers w.path
  { b with
    watched := kept
    asked := b.asked.filter fun a => !given.any fun w => w.path.same a.1 }

/-- Gives up what was asked for by a path, and if `deep` also what is named by
paths below it.  Where it has vanished already there is nothing more to do. -/
def release (deep : Bool) (b : Backend) (path : Path) : Backend :=
  match b.asked.find? fun a => a.1.same path with
  | none => b
  | some (_, id) =>
    let rest := { b with asked := b.asked.filter fun a => !a.1.same path }
    if rest.watched.any fun w => w.id = id then
      let rest := { rest with watched := rest.watched.filter fun w => w.id ≠ id }
      if deep then rest.clearBelow path else rest
    else rest

def unwatch (b : Backend) (disk : Disk) (dir : Path) : Backend :=
  b.release false (disk.cwd.toPath.join dir)

/-- The path by which an entry of a watched directory is named in reports. -/
def entryPath? (b : Backend) (place : Location) : Option Path := do
  let name ← place.getLast?
  let w ← b.at? place.dropLast
  some (w.path.child name)

def ownPath? (b : Backend) (place : Location) : Option Path :=
  (b.at? place).map (·.path)

/-- The report of a change of the path given, if there is one. -/
def reportOf (kind : ReportKind) (path : Option Path) : List Report :=
  path.toList.map fun p => ⟨kind, [p], false⟩

/-- The report of a renaming of which both sides are watched. -/
def reportBoth (old new : Option Path) : List Report :=
  match old, new with
  | some old, some new => [⟨.rename .both, [old, new], false⟩]
  | _, _ => []

/-- What is reported of a change. -/
def reports (b : Backend) : Change → List Report
  | .appeared place => reportOf .create (b.entryPath? place)
  | .altered place => reportOf .change (b.entryPath? place)
  | .vanished place =>
    reportOf .remove (b.ownPath? place) ++ reportOf .remove (b.entryPath? place)
  | .moved source target =>
    let old := b.entryPath? source
    let new := b.entryPath? target
    let replaced := b.ownPath? target
    reportOf (.rename .origin) old ++ reportOf (.rename .to) new ++ reportBoth old new ++
      reportOf .change replaced ++ reportOf (.rename .origin) (b.ownPath? source) ++
      reportOf .remove replaced

/-- The paths of which a change says that nothing is there any longer. -/
def farewells (b : Backend) : Change → List Path
  | .appeared _ | .altered _ => []
  | .vanished place => (b.ownPath? place).toList ++ (b.entryPath? place).toList
  | .moved source target => (b.entryPath? source).toList ++ (b.ownPath? target).toList

/-- A place after everything at another one and below was moved. -/
def movedPlace (source target place : Location) : Location :=
  if source.isPrefixOf place then target ++ place.drop source.length else place

/-- The backend after a change: what vanished is watched no longer, and what was
moved is watched where it is now. -/
def follow (b : Backend) : Change → Backend
  | .appeared _ | .altered _ => b
  | .vanished place => { b with watched := b.watched.filter fun w => w.place ≠ place }
  | .moved source target =>
    { b with
      watched := (b.watched.filter fun w => w.place ≠ target).map fun w =>
        { w with place := movedPlace source target w.place } }

/-- What is reported of changes, the paths to be given up because of them, and
the backend after them. -/
def followAll (b : Backend) : List Change → List Report × List Path × Backend
  | [] => ([], [], b)
  | c :: rest =>
    let (told, gone, after) := (b.follow c).followAll rest
    (b.reports c ++ told, b.farewells c ++ gone, after)

/-- What is reported of changes that come together, and the backend after them. -/
def witness (b : Backend) (changes : List Change) : List Report × Backend :=
  let (told, gone, after) := b.followAll changes
  (told, gone.foldl (release true) after)

end Backend

end ChangeWatch
