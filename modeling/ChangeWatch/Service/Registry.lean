import ChangeWatch.Disk.Basic
import ChangeWatch.Service.Report

/-!
# Registered directories and their keys

A `Registry` maps directories to keys and back.  Directories are told apart
by their components, so two spellings of one sequence share a registration;
the spelling that a key leads back to is the last one used.

`Registry.translate` turns a report into batches.  Each path of the report is
paired with a kind of change (`Report.changes`), kept if the directory that
holds it is registered for that kind (`Registry.locate`), and put into the
batch before it when that one has the same key (`Batch.group`).  A report that
asks for a rescan becomes one event without a name.
-/

namespace ChangeWatch

/-- The key of a directory, and the kinds it is registered for. -/
structure Registration where
  key : Key
  kinds : List EventKind
  deriving DecidableEq, Repr

/-- Directories and keys. -/
structure Registry where
  byDir : List (Path × Registration)
  byKey : List (Key × Path)
  nextKey : Nat
  deriving DecidableEq, Repr

namespace Registry

def empty : Registry := ⟨[], [], 0⟩

def registration? (r : Registry) (dir : Path) : Option Registration :=
  (r.byDir.find? fun entry => entry.1.same dir).map (·.2)

def keyOf? (r : Registry) (dir : Path) : Option Key :=
  (r.registration? dir).map (·.key)

def dirOf? (r : Registry) (key : Key) : Option Path :=
  r.byKey.lookup key

/-- The smallest key. -/
def firstKey? (r : Registry) : Option Key :=
  (r.byKey.map (·.1.id)).min?.map Key.mk

def size (r : Registry) : Nat :=
  r.byKey.length

/-- Sets the registration of a directory, old or new. -/
def setDir (r : Registry) (dir : Path) (reg : Registration) : Registry :=
  if r.byDir.any fun entry => entry.1.same dir then
    { r with byDir := r.byDir.map fun (d, old) => if d.same dir then (d, reg) else (d, old) }
  else { r with byDir := r.byDir ++ [(dir, reg)] }

/-- Sets the directory of a key, old or new. -/
def setKey (r : Registry) (key : Key) (dir : Path) : Registry :=
  if r.byKey.any fun entry => entry.1 = key then
    { r with byKey := r.byKey.map fun (k, old) => if k = key then (k, dir) else (k, old) }
  else { r with byKey := r.byKey ++ [(key, dir)] }

/-- Registers a directory under a key. -/
def insert (r : Registry) (dir : Path) (reg : Registration) : Registry :=
  (r.setDir dir reg).setKey reg.key dir

def eraseDir (r : Registry) (dir : Path) : Registry :=
  { r with byDir := r.byDir.filter fun (d, _) => !d.same dir }

/-- Drops the registration of a directory if it has the given key. -/
def eraseDirOf (r : Registry) (dir : Path) (key : Key) : Registry :=
  { r with byDir := r.byDir.filter fun (d, reg) => !(d.same dir && reg.key = key) }

def eraseKey (r : Registry) (key : Key) : Registry :=
  { r with byKey := r.byKey.filter fun (k, _) => k ≠ key }

/-- Drops every registration; keys already given out stay used. -/
def clear (r : Registry) : Registry :=
  { r with byDir := [], byKey := [] }

end Registry

/-- The paths of a report, each with the kind of change that it underwent. -/
def Report.changes (report : Report) (disk : Disk) : List (EventKind × Path) :=
  match report.kind with
  | .create | .rename .to => report.paths.map (.create, ·)
  | .remove | .rename .origin => report.paths.map (.delete, ·)
  | .rename .both =>
    match report.paths with
    | [] => []
    | old :: new => (.delete, old) :: new.map (.create, ·)
  | .rename .any | .rename .other =>
    report.paths.map fun p => (if disk.exists? p then .create else .delete, p)
  | .change => report.paths.map (.modify, ·)
  | .any | .access | .other => []

/-- Puts events together that follow one another and have the same key. -/
def Batch.group : List (Key × RawEvent) → List Batch
  | [] => []
  | (key, event) :: rest =>
    match Batch.group rest with
    | b :: bs => if b.key = key then ⟨key, event :: b.events⟩ :: bs else ⟨key, [event]⟩ :: b :: bs
    | [] => [⟨key, [event]⟩]

namespace Registry

/-- The key and the event of a change, if the directory that holds the path is
registered for its kind. -/
def locate (r : Registry) (change : EventKind × Path) : Option (Key × RawEvent) :=
  match change.2.parent, change.2.fileName with
  | some parent, some name =>
    match r.registration? parent with
    | some reg =>
      if change.1 ∈ reg.kinds then some (reg.key, ⟨change.1, some ⟨name⟩⟩) else none
    | none => none
  | _, _ => none

/-- The key under which a rescan is reported: that of the first path, else of
the directory that holds it, else the smallest one. -/
def rescanKey? (r : Registry) (paths : List Path) : Option Key :=
  let near := paths.head?.bind fun p => r.keyOf? p <|> p.parent.bind r.keyOf?
  near <|> r.firstKey?

def translate (r : Registry) (disk : Disk) (report : Report) : List Batch :=
  if report.rescan then
    ((r.rescanKey? report.paths).map fun key => ⟨key, [RawEvent.overflow]⟩).toList
  else Batch.group ((report.changes disk).filterMap r.locate)

end Registry

end ChangeWatch
