import ChangeWatch.Error
import ChangeWatch.Handlers

/-!
# What a watch has done, and how callbacks behave

The `Journal` holds what can be seen of a running watch: which callbacks ran
with which change, what calls of `start` and offers were answered, and the
warnings.

A callback is known by its number alone.  What it does beyond being run is
said by a `Behaviour`: what it asks for, and whether it panics in the end.
The behaviour is also told how much was noted before, so that a callback may
do something else each time.
-/

namespace ChangeWatch

/-- Who asked for something. -/
inductive Caller where
  /-- The program that owns the watch. -/
  | owner
  | callback
  | loop
  deriving DecidableEq, Repr

/-- One thing that happened. -/
inductive Note where
  | ran (callback : Callback) (context : Context)
  | started (caller : Caller) (error : Option WatchError)
  | offered (caller : Caller) (key : String) (accepted : Bool)
  deriving DecidableEq, Repr

/-- What happened, in order, and the warnings. -/
structure Journal where
  notes : List Note
  warnings : List Warning
  deriving DecidableEq, Repr

namespace Journal

def empty : Journal := ⟨[], []⟩

def note (j : Journal) (n : Note) : Journal :=
  { j with notes := j.notes ++ [n] }

def warn (j : Journal) (w : Warning) : Journal :=
  { j with warnings := j.warnings ++ [w] }

def runs (j : Journal) : Nat :=
  j.notes.countP fun
    | .ran .. => true
    | _ => false

/-- The error that the first call of `start` by the owner was answered with. -/
def startError? (j : Journal) : Option WatchError :=
  (j.notes.findSome? fun
    | .started .owner error => some error
    | _ => none).join

end Journal

structure Reaction (ρ : Type) where
  /-- What it asks for, in order. -/
  requests : List ρ
  /-- Whether it panics after that. -/
  panics : Bool
  deriving DecidableEq, Repr

/-- A callback that only looks. -/
def Reaction.none {ρ : Type} : Reaction ρ := ⟨[], false⟩

/-- What every callback does, given how much was noted before. -/
def Behaviour (ρ : Type) : Type := Nat → Callback → Context → Reaction ρ

end ChangeWatch
