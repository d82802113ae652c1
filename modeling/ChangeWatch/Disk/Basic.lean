import ChangeWatch.Disk.Fault
import ChangeWatch.Path

/-!
# The disk

A `Disk` is a finite tree of directories, files and symbolic links.  It is
kept flat: every entry but the root stands in one list under its `Location`,
the names on the way down from the root.  A location is not a path: it
passes through no link and holds no `..`.

`Disk.follow` is path resolution.  It follows the parts of a path from a
directory, spends one of a budget of links for each link it passes, and ends
at an entry, at a free place in an existing directory, or with a refusal.
Everything else asks it: `stat` and `lstat`, the tests `exists?` and `isDir`,
`canonicalize`, `readDir` and `readFile`.
-/

namespace ChangeWatch

/-- Where an entry is: the names from the root down. -/
abbrev Location := List Bytes

/-- What a place on disk holds. -/
inductive Entry where
  | dir
  | file (content : Bytes)
  | link (target : Path)
  deriving DecidableEq, Repr, Inhabited

/-- A tree of entries, and the directory where relative paths start. -/
structure Disk where
  entries : List (Location × Entry)
  cwd : Location
  deriving DecidableEq, Repr, Inhabited

/-- Where a path leads. -/
inductive Lookup where
  /-- To an entry; `marked` when slashes follow the name of a file. -/
  | found (place : Location) (entry : Entry) (marked : Bool)
  /-- To a free name in an existing directory; `marked` when slashes follow. -/
  | vacant (dir : Location) (name : Bytes) (marked : Bool)
  | refused (fault : Fault)
  deriving DecidableEq, Repr

namespace Lookup

/-- What a lookup found; slashes after a name ask for a directory. -/
def entry : Lookup → Except Fault (Location × Entry)
  | .found place e false => .ok (place, e)
  | .found _ _ true => .error .notADirectory
  | .vacant .. => .error .notFound
  | .refused f => .error f

end Lookup

namespace Location

/-- The absolute path of a location. -/
def toPath (place : Location) : Path :=
  ⟨Path.slash :: [Path.slash].intercalate place⟩

end Location

namespace Disk

def empty : Disk := ⟨[], []⟩

/-- The longest name that a directory holds. -/
def nameLimit : Nat := 255

/-- The length from which on a path is refused. -/
def pathLimit : Nat := 4096

/-- How many links the resolution of one path may pass. -/
def linkLimit : Nat := 40

/-- The entry at a location; the root is always a directory. -/
def entry? (d : Disk) (place : Location) : Option Entry :=
  if place = [] then some .dir else d.entries.lookup place

/-- The entries of a directory, by name, in the order they were made. -/
def children (d : Disk) (place : Location) : List (Bytes × Entry) :=
  d.entries.filterMap fun (loc, e) =>
    match loc.getLast? with
    | some name => if loc.dropLast = place then some (name, e) else none
    | none => none

/-- Follows the parts of a path from the directory `place`, up to the first link
to pass; `pass` says where that leads.  A link that ends the path is passed only
if `last`. -/
def followParts (d : Disk) (last : Bool) (pass : Location → List Bytes → Lookup)
    (place : Location) : List Bytes → Lookup
  | [] => .found place .dir false
  | part :: rest =>
    if part = [] ∨ part = [Path.dot] then followParts d last pass place rest
    else if part = [Path.dot, Path.dot] then followParts d last pass place.dropLast rest
    else if nameLimit < part.length then .refused .nameTooLong
    else
      match d.entry? (place ++ [part]) with
      | none =>
        -- slashes at the end do not make the name less free
        if rest.all (· = []) then .vacant place part (!rest.isEmpty) else .refused .notFound
      | some .dir => followParts d last pass (place ++ [part]) rest
      | some (.file content) =>
        if rest.all (· = []) then .found (place ++ [part]) (.file content) (!rest.isEmpty)
        else .refused .notADirectory
      | some (.link target) =>
        if rest = [] ∧ last = false then .found (place ++ [part]) (.link target) false
        else pass (if target.isAbsolute then [] else place) (target.parts ++ rest)

/-- Follows the parts of a path from a directory; at most so many links are
passed. -/
def follow (d : Disk) (last : Bool) : Nat → Location → List Bytes → Lookup
  | 0 => followParts d last fun _ _ => .refused .tooManyLinks
  | budget + 1 => followParts d last (follow d last budget)

/-- Why a path as a whole is not fit to be asked for. -/
def unfit? (p : Path) : Option Fault :=
  if (0 : UInt8) ∈ p.bytes then some .zeroByte
  else if p.bytes = [] then some .notFound
  else if pathLimit ≤ p.bytes.length then some .nameTooLong
  else none

/-- Resolves parts from where a path starts, once the path as a whole is fit to
be asked for. -/
def resolve (d : Disk) (last : Bool) (p : Path) (parts : List Bytes) : Lookup :=
  match unfit? p with
  | some f => .refused f
  | none => d.follow last linkLimit (if p.isAbsolute then [] else d.cwd) parts

/-- The entry that a path leads to, links followed. -/
def stat (d : Disk) (p : Path) : Except Fault (Location × Entry) :=
  (d.resolve true p p.parts).entry

/-- The entry that a path leads to, a link at its end not followed. -/
def lstat (d : Disk) (p : Path) : Except Fault (Location × Entry) :=
  (d.resolve false p p.parts).entry

def exists? (d : Disk) (p : Path) : Bool :=
  (d.stat p).isOk

def isDir (d : Disk) (p : Path) : Bool :=
  match d.stat p with
  | .ok (_, .dir) => true
  | _ => false

/-- Whether a path is a directory itself, not a link to one. -/
def isRealDir (d : Disk) (p : Path) : Bool :=
  match d.lstat p with
  | .ok (_, .dir) => true
  | _ => false

/-- The absolute path, without links and dots, of what a path leads to, if it can be
asked for in its turn. -/
def canonicalize (d : Disk) (p : Path) : Except Fault Path :=
  (d.stat p).bind fun found =>
    if pathLimit ≤ found.1.toPath.bytes.length then .error .nameTooLong else .ok found.1.toPath

/-- The entries of the directory that a path leads to. -/
def readDir (d : Disk) (p : Path) : Except Fault (List (Bytes × Entry)) :=
  match d.stat p with
  | .ok (place, .dir) => .ok (d.children place)
  | .ok _ => .error .notADirectory
  | .error f => .error f

/-- The contents of the file that a path leads to. -/
def readFile (d : Disk) (p : Path) : Except Fault Bytes :=
  match d.stat p with
  | .ok (_, .file content) => .ok content
  | .ok _ => .error .isADirectory
  | .error f => .error f

def readText (d : Disk) (p : Path) : Except Fault (List Char) :=
  (d.readFile p).bind fun content =>
    match Utf8.decode? content with
    | some text => .ok text
    | none => .error .notText

end Disk

end ChangeWatch
