import ChangeWatch.Strategy.DirTree
import ChangeWatch.Strategy.FileTarget

/-!
# What a watch makes of its events

A `Target` is one file or one tree of directories.  It says which path an
event concerns (`Target.resolve`) and which kinds it has to hear of even where
there is no callback for them (`Target.required`).

A `Strategy` is a target of which some answers may be overridden, event by
event, so that a watch can be shown to bear with any answer, a panic included.
-/

namespace ChangeWatch

inductive Target where
  | file (t : FileTarget)
  | tree (t : DirTree)
  deriving DecidableEq, Repr

namespace Target

def root : Target → Path
  | .file t => t.path
  | .tree t => t.root

/-- The path that an event under a key concerns, if any. -/
def resolve (key : Key) (event : RawEvent) : Target → Option Path
  | .file t => t.resolve event
  | .tree t => t.resolve key event

/-- The kinds that must be heard of even without a callback. -/
def required : Target → List EventKind
  | .file _ => []
  | .tree _ => [.create]

end Target

inductive Resolution where
  | path (p : Path)
  | irrelevant
  | panicked
  deriving DecidableEq, Repr

/-- The resolution that an answer stands for. -/
def Resolution.ofOption : Option Path → Resolution
  | some p => .path p
  | none => .irrelevant

/-- What becomes of something that appeared. -/
inductive Pickup where
  /-- It is registered, and these entries were there already. -/
  | found (paths : List Path)
  | failed (e : WatchError)
  | panicked
  deriving DecidableEq, Repr

/-- Answers that stand in for those of a target; the first argument counts the
events handled before. -/
structure Override where
  resolve : Nat → Key → RawEvent → Option Resolution
  created : Nat → Key → Path → Option Pickup
  required : Option (List EventKind)

def Override.none : Override := ⟨fun _ _ _ => .none, fun _ _ _ => .none, .none⟩

/-- A target and the answers that stand in for its own. -/
structure Strategy where
  target : Target
  override : Override

namespace Strategy

def resolve (s : Strategy) (count : Nat) (key : Key) (event : RawEvent) : Resolution :=
  (s.override.resolve count key event).getD (.ofOption (s.target.resolve key event))

def required (s : Strategy) : List EventKind :=
  s.override.required.getD s.target.required

end Strategy

end ChangeWatch
