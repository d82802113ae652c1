import ChangeWatch.Text.Quoted

/-!
# Paths

A path is a byte string in which `/` separates names.  Two spellings can
name the same sequence of components: repeated slashes, a slash at the end
and a `.` that is not the first part leave no trace in `components`, whereas
`..` stays, because what it leads to is known to the disk alone.  Paths are
therefore compared (`Path.same`, `Path.le`) by their components; plain
equality is that of the bytes.

`parent` and `fileName` look at the last component, whatever trails it, and
`join` appends one path to another, an absolute one replacing what stood
before.
-/

namespace ChangeWatch

/-- A path, as the bytes it is written with. -/
structure Path where
  bytes : Bytes
  deriving DecidableEq, Repr, Inhabited

/-- One step of a path. -/
inductive Component where
  | root
  | here
  | up
  | name (bytes : Bytes)
  deriving DecidableEq, Repr

namespace Component

/-- The rank of a component among the kinds of components. -/
def rank : Component → Nat
  | .root => 0
  | .here => 1
  | .up => 2
  | .name _ => 3

/-- Components are ordered by kind, and names by their bytes. -/
def compare : Component → Component → Ordering
  | .name a, .name b => compareOfLessAndEq a b
  | a, b => Ord.compare a.rank b.rank

end Component

namespace Path

def slash : UInt8 := 0x2F

def dot : UInt8 := 0x2E

def ofString (s : String) : Path :=
  ⟨Utf8.ofString s⟩

/-- The path as text for a message, broken parts replaced. -/
def display (p : Path) : String :=
  Utf8.lossy p.bytes

/-- The path in double quotes, with nothing lost. -/
def quoted (p : Path) : String :=
  String.ofList (Text.quotedBytes p.bytes)

def isAbsolute (p : Path) : Bool :=
  p.bytes.head? = some slash

/-- The parts between the slashes; never empty. -/
def parts (p : Path) : List Bytes :=
  p.bytes.splitOn slash

/-- The component of a part that is not the first of a relative path. -/
def innerComponent (part : Bytes) : Option Component :=
  if part = [] ∨ part = [dot] then none
  else if part = [dot, dot] then some .up
  else some (.name part)

/-- The component of the first part of a relative path, where `.` counts. -/
def firstComponent (part : Bytes) : Option Component :=
  if part = [dot] then some .here else innerComponent part

def components (p : Path) : List Component :=
  if p.isAbsolute then .root :: p.parts.tail.filterMap innerComponent
  else
    (p.parts.head?.bind firstComponent).toList ++ p.parts.tail.filterMap innerComponent

/-- Two spellings of the same components. -/
def same (p q : Path) : Bool :=
  p.components = q.components

/-- Whether a path is the same as another or leads on from it. -/
def covers (p q : Path) : Bool :=
  p.components.isPrefixOf q.components

def compareComponents : List Component → List Component → Ordering
  | [], [] => .eq
  | [], _ :: _ => .lt
  | _ :: _, [] => .gt
  | a :: as, b :: bs => (a.compare b).then (compareComponents as bs)

/-- Paths are ordered by their components. -/
def le (p q : Path) : Bool :=
  compareComponents p.components q.components != .gt

def fileName (p : Path) : Option Bytes :=
  match p.components.getLast? with
  | some (.name n) => some n
  | _ => none

/-- Parts without those at the end that are no components. -/
def dropIdle (parts : List Bytes) : List Bytes :=
  (parts.reverse.dropWhile fun part => (innerComponent part).isNone).reverse

/-- The parts joined by slashes. -/
def ofParts (parts : List Bytes) : Path :=
  ⟨[slash].intercalate parts⟩

/-- The path without its last component, ending where the one before it
ends; `none` for the root and for the empty path. -/
def parent (p : Path) : Option Path :=
  match p.parts with
  | [] => none
  | first :: rest =>
    match (dropIdle rest).reverse with
    | [] => if first = [] then none else some ⟨[]⟩
    | _ :: before =>
      match first, dropIdle before.reverse with
      | [], [] => some ⟨[slash]⟩
      | first, kept => some (ofParts (first :: kept))

/-- `q` as seen from `p`: an absolute `q` stands for itself, any other is
appended after one slash. -/
def join (p q : Path) : Path :=
  if q.isAbsolute then q
  else if p.bytes = [] ∨ p.bytes.getLast? = some slash then ⟨p.bytes ++ q.bytes⟩
  else ⟨p.bytes ++ slash :: q.bytes⟩

def child (p : Path) (name : Bytes) : Path :=
  p.join ⟨name⟩

/-- The working directory of a relative path. -/
def here : Path := ⟨[dot]⟩

end Path

end ChangeWatch
