import ChangeWatch.Disk.Edit
import ChangeWatch.Service.Basic

/-!
# Watching one file

Directories alone can be watched, so for a file it is the directory that holds
it, and events of its neighbours are told apart by name.
-/

namespace ChangeWatch

/-- A file to watch, which need not exist. -/
structure FileTarget where
  /-- The path of the file, behind that of its directory. -/
  path : Path
  /-- The absolute path, without links and dots, of the directory. -/
  parent : Path
  name : Bytes
  deriving DecidableEq, Repr

namespace FileTarget

/-- The directory part of a path; a lone name is in the working directory. -/
def directoryOf (p : Path) : Path :=
  match p.parent with
  | some q => if q.bytes = [] then .here else q
  | none => .here

/-- Makes ready to watch a file: its directory is made when missing, and a
directory at the path itself is refused. -/
def prepare (disk : Disk) (p : Path) : Except WatchError FileTarget × Disk :=
  match p.fileName with
  | none => (.error (.namesNoFile p), disk)
  | some name =>
    if disk.isDir p then (.error (.directoryGiven p), disk)
    else
      let dir := directoryOf p
      let (made, disk) := if disk.exists? dir then (.ok (), disk) else disk.createDirAll dir
      match made.bind fun _ => disk.canonicalize dir with
      | .error fault => (.error (.io dir fault), disk)
      | .ok parent => (.ok ⟨parent.child name, parent, name⟩, disk)

/-- The path that an event concerns, if it concerns the file: an event without
a name concerns whatever is watched. -/
def resolve (t : FileTarget) (event : RawEvent) : Option Path :=
  match event.name with
  | none => some t.path
  | some name =>
    let candidate := t.parent.join name
    if candidate.fileName = some t.name then some candidate else none

def register {σ : Type} [Site σ] (t : FileTarget) (site : σ) (kinds : List EventKind) :
    Except WatchError Key × σ :=
  Site.register t.parent kinds site

end FileTarget

end ChangeWatch
