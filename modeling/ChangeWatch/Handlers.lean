import ChangeWatch.Event.Context

/-!
# Callbacks by kind

A callback is known by a number; what it does is said elsewhere, by the
`Behaviour` of the program that set it.  `Handlers` holds at most one
callback per kind, and setting one replaces the one before.
-/

namespace ChangeWatch

/-- A callback, by its number. -/
structure Callback where
  id : Nat
  deriving DecidableEq, Repr, Inhabited

/-- At most one callback for each kind of change. -/
structure Handlers where
  create : Option Callback
  modify : Option Callback
  delete : Option Callback
  overflow : Option Callback
  deriving DecidableEq, Repr

namespace Handlers

def none : Handlers := ⟨.none, .none, .none, .none⟩

def get (h : Handlers) : EventKind → Option Callback
  | .create => h.create
  | .modify => h.modify
  | .delete => h.delete
  | .overflow => h.overflow

def set (h : Handlers) (kind : EventKind) (c : Callback) : Handlers :=
  match kind with
  | .create => { h with create := some c }
  | .modify => { h with modify := some c }
  | .delete => { h with delete := some c }
  | .overflow => { h with overflow := some c }

/-- A callback is what was set last for its kind. -/
theorem get_set (h : Handlers) (k k' : EventKind) (c : Callback) :
    (h.set k c).get k' = if k' = k then some c else h.get k' := by
  cases k <;> cases k' <;> rfl

/-- The kinds that have a callback, in listing order. -/
def kinds (h : Handlers) : List EventKind :=
  EventKind.all.filter fun k => (h.get k).isSome

def isEmpty (h : Handlers) : Bool :=
  h.kinds.isEmpty

/-- The kinds that have a callback, as a listing. -/
def describe (h : Handlers) : String :=
  "[" ++ ", ".intercalate (h.kinds.map EventKind.title) ++ "]"

end Handlers

end ChangeWatch
