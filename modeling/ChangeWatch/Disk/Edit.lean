import ChangeWatch.Disk.Basic

/-!
# Changing the disk

Every operation yields the disk as it is afterwards together with its
verdict, since an operation of several steps, such as `createDirAll`, may
have changed something before a later step is refused.

`createDirAll` asks for the directory itself first and turns to the parent
only when the way to it is missing; a directory that is already there is no
refusal.

Links and renamings are made in a `Slot`, a name in a directory: what stands
under the name is not followed, so a link is renamed and not what it leads to.
-/

namespace ChangeWatch.Disk

/-- What an operation came to, and the disk after it. -/
abbrev Edit := Except Fault Unit × Disk

/-- Puts an entry at a free location. -/
def put (d : Disk) (place : Location) (e : Entry) : Disk :=
  { d with entries := d.entries ++ [(place, e)] }

def replace (d : Disk) (place : Location) (e : Entry) : Disk :=
  { d with entries := d.entries.map fun (loc, old) => if loc = place then (loc, e) else (loc, old) }

/-- Drops a location and everything below it. -/
def drop (d : Disk) (place : Location) : Disk :=
  { d with entries := d.entries.filter fun (loc, _) => !place.isPrefixOf loc }

/-- Moves a location and everything below it to a free location. -/
def move (d : Disk) (source target : Location) : Disk :=
  let (moved, kept) := d.entries.partition fun (loc, _) => source.isPrefixOf loc
  { d with
    entries := kept ++ moved.map fun (loc, e) => (target ++ loc.drop source.length, e) }

/-- The parts of a path without the slashes at its end. -/
def unmarkedParts (p : Path) : List Bytes :=
  (p.parts.reverse.dropWhile (· = [])).reverse

/-- Makes a directory whose parent exists. -/
def makeDir (d : Disk) (p : Path) : Edit :=
  match d.resolve false p (unmarkedParts p) with
  | .found .. => (.error .alreadyExists, d)
  | .vacant dir name _ => (.ok (), d.put (dir ++ [name]) .dir)
  | .refused f => (.error f, d)

/-- A path and its parents, the nearest first, at most so many. -/
def ancestors : Nat → Path → List Path
  | 0, _ => []
  | n + 1, p => p :: (p.parent.elim [] (ancestors n))

/-- Makes the first of a chain of directories, each the parent of the one
before, and whichever of the others it needs. -/
def makeChain (d : Disk) : List Path → Edit
  | [] => (.error (.other "failed to create whole tree"), d)
  | p :: up =>
    if p.bytes = [] then (.ok (), d)
    else
      match d.makeDir p with
      | (.ok (), made) => (.ok (), made)
      -- the way to it is missing: first what is above it, then once more
      | (.error .notFound, _) =>
        match d.makeChain up with
        | (.error f, tried) => (.error f, tried)
        | (.ok (), below) =>
          match below.makeDir p with
          | (.ok (), made) => (.ok (), made)
          | (.error f, _) => (if below.isDir p then .ok () else .error f, below)
      | (.error f, _) => (if d.isDir p then .ok () else .error f, d)

/-- Makes a directory and whichever of its parents are missing. -/
def createDirAll (d : Disk) (p : Path) : Edit :=
  d.makeChain (ancestors (p.bytes.length + 1) p)

/-- Makes the directories above a path. -/
def createParents (d : Disk) (p : Path) : Edit :=
  match p.parent with
  | some parent => d.createDirAll parent
  | none => (.ok (), d)

/-- Where the last name of a path stands. -/
structure Slot where
  dir : Location
  name : Bytes
  marked : Bool

namespace Slot

def place (s : Slot) : Location :=
  s.dir ++ [s.name]

/-- Whether there is no name but a dot, two dots, or nothing at all. -/
def isNameless (s : Slot) : Bool :=
  s.name ∈ [[], [Path.dot], [Path.dot, Path.dot]]

end Slot

/-- The directory in which the last name of a path stands: the way to it is
followed, the name is not. -/
def slot (d : Disk) (p : Path) : Except Fault Slot :=
  let named := unmarkedParts p
  (d.resolve true p (named.dropLast ++ [[]])).entry.map fun (dir, _) =>
    ⟨dir, named.getLast?.getD [], decide (named.length < p.parts.length)⟩

/-- Writes a file, whether or not it exists; links are followed.  A name with
slashes after it is not a file's, whatever it names. -/
def writeFile (d : Disk) (p : Path) (content : Bytes) : Edit :=
  match d.slot p, d.resolve true p p.parts with
  | .error f, _ => (.error f, d)
  | .ok ⟨_, _, true⟩, _ => (.error .isADirectory, d)
  | .ok _, .found place (.file _) false => (.ok (), d.replace place (.file content))
  | .ok _, .vacant dir name false => (.ok (), d.put (dir ++ [name]) (.file content))
  | .ok _, .refused f => (.error f, d)
  | .ok _, _ => (.error .isADirectory, d)

/-- Makes an empty file, unless there is a file already. -/
def touch (d : Disk) (p : Path) : Edit :=
  match d.stat p with
  | .ok (_, .file _) => (.ok (), d)
  | _ => d.writeFile p []

def makeLink (d : Disk) (p target : Path) : Edit :=
  match unfit? target, d.resolve false p (unmarkedParts p) with
  | some f, _ => (.error f, d)
  | none, .found .. => (.error .alreadyExists, d)
  | none, .vacant dir name _ =>
    if p.parts.getLast? = some [] then (.error .notFound, d)
    else (.ok (), d.put (dir ++ [name]) (.link target))
  | none, .refused f => (.error f, d)

/-- Removes an entry, a directory with everything in it.  A directory goes by its
own name, neither by a dot nor by that of a link. -/
def remove (d : Disk) (p : Path) : Edit :=
  match d.lstat p, d.slot p with
  | .ok (place, .dir), .ok named =>
    if named.name = [Path.dot] then (.error .invalidArgument, d)
    else if d.entry? named.place matches some (.link _) then (.error .notADirectory, d)
    else (.ok (), d.drop place)
  | .ok (place, _), _ => (.ok (), d.drop place)
  | .error f, _ => (.error f, d)

/-- Whether an entry may take the place of another in a renaming. -/
def mayReplace (d : Disk) (entry old : Entry) (place : Location) : Except Fault Unit :=
  match entry, old with
  | .dir, .dir => if (d.children place).isEmpty then .ok () else .error .notEmpty
  | .dir, _ => .error .notADirectory
  | _, .dir => .error .isADirectory
  | _, _ => .ok ()

/-- Whether an entry may get another name, in a place that may be taken. -/
def mayRename (d : Disk) (entry : Entry) (old new : Slot) : Except Fault Unit :=
  if entry ≠ .dir ∧ (old.marked ∨ new.marked) then .error .notADirectory
  -- a directory cannot be moved into itself
  else if old.place.isPrefixOf new.dir then .error .invalidArgument
  else if new.place.isPrefixOf old.dir then .error .notEmpty
  else
    match d.entry? new.place with
    | none => .ok ()
    | some taken =>
      if old.place = new.place then .ok () else d.mayReplace entry taken new.place

/-- Renames an entry, in place of what stands at the new path. -/
def rename (d : Disk) (p q : Path) : Edit :=
  let verdict : Except Fault (Location × Location) := do
    if (0 : UInt8) ∈ p.bytes ++ q.bytes then .error .zeroByte
    let old ← d.slot p
    let new ← d.slot q
    if old.isNameless ∨ new.isNameless then .error .busy
    if nameLimit < old.name.length then .error .nameTooLong
    match d.entry? old.place with
    | none => .error .notFound
    | some entry =>
      if nameLimit < new.name.length then .error .nameTooLong
      d.mayRename entry old new
      .ok (old.place, new.place)
  match verdict with
  | .error f => (.error f, d)
  | .ok (source, target) =>
    (.ok (), if source = target then d else (d.drop target).move source target)

/-- One change to the disk, as asked for from outside. -/
inductive Act where
  | makeDirs (path : Path)
  | write (path : Path) (content : Bytes)
  | makeLink (path target : Path)
  | remove (path : Path)
  | rename (path target : Path)
  deriving DecidableEq, Repr

def attempt (d : Disk) : Act → Edit
  | .makeDirs p => d.createDirAll p
  | .write p content =>
    match d.createParents p with
    | (.ok (), d) => d.writeFile p content
    | refused => refused
  | .makeLink p target => d.makeLink p target
  | .remove p => d.remove p
  | .rename p q => d.rename p q

/-- The disk after a change; a refused change leaves what it had done. -/
def act (d : Disk) (a : Act) : Disk :=
  (d.attempt a).2

def acts (d : Disk) (changes : List Act) : Disk :=
  changes.foldl act d

/-- The disk after several changes, none of which may be refused. -/
def allActs (d : Disk) : List Act → Except Fault Disk
  | [] => .ok d
  | a :: rest =>
    match d.attempt a with
    | (.ok (), d) => d.allActs rest
    | (.error f, _) => .error f

/-- What an entry's path ends in, in an outline. -/
def mark : Entry → Bytes
  | .dir => [Path.slash]
  | .file _ => []
  | .link _ => [0x40]

/-- Everything below a location, as paths relative to it, in the order of their
texts: a directory ends in `/`, a link in `@`. -/
def outline (d : Disk) (below : Location) : List String :=
  (d.entries.filterMap fun (loc, e) =>
    if below.isPrefixOf loc ∧ loc ≠ below then
      some (Utf8.lossy ([Path.slash].intercalate (loc.drop below.length) ++ mark e))
    else none).mergeSort fun a b => decide (a ≤ b)

end ChangeWatch.Disk
