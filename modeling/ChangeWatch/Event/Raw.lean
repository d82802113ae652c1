import ChangeWatch.Event.Kind
import ChangeWatch.Path

/-!
# Changes as a service delivers them

A service hands out one `Key` per registered directory.  It delivers changes
as batches: a key, and raw events that name entries of that directory.  An
event without a name concerns the directory as a whole.
-/

namespace ChangeWatch

/-- The handle of a registered directory. -/
structure Key where
  id : Nat
  deriving DecidableEq, Repr, Inhabited

/-- A change in a registered directory. -/
structure RawEvent where
  kind : EventKind
  name : Option Path
  deriving DecidableEq, Repr, Inhabited

namespace RawEvent

def overflow : RawEvent := ⟨.overflow, none⟩

/-- The text under which changes of one entry are gathered: its name, broken
parts replaced, or nothing. -/
def gatherKey (e : RawEvent) : String :=
  match e.name with
  | some name => name.display
  | none => ""

end RawEvent

/-- Changes delivered together, all in one directory. -/
structure Batch where
  key : Key
  events : List RawEvent
  deriving DecidableEq, Repr, Inhabited

end ChangeWatch
