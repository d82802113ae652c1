import ChangeWatch.Watch.Basic

/-!
# Building a watch

A `Builder` starts from what is to be watched and collects choices; of several
choices of one thing the last counts.  `Builder.build` looks for mistakes in
the choices before it prepares the target, so that a mistaken build leaves the
disk as it is.

A delay of zero is refused where a delay is asked for; to do without gathering
is a choice of its own (`withoutDebounce`), and settings with a zero delay make
that choice.
-/

namespace ChangeWatch

inductive Subject where
  | file (path : Path)
  | dir (path : Path) (maxDepth : Nat)
  deriving DecidableEq, Repr

/-- The choice of a delay. -/
inductive DelayChoice where
  | default
  | custom (delay : Duration)
  /-- Changes are delivered as they come. -/
  | disabled
  deriving DecidableEq, Repr

/-- The choices made for a watch. -/
structure Builder where
  subject : Subject
  handlers : Handlers
  delay : DelayChoice
  backend : BackendOptions
  manner : Option Manner
  policy : Option Policy
  service : Option Service
  deriving DecidableEq, Repr

namespace Builder

def new (subject : Subject) : Builder :=
  ⟨subject, .none, .default, .default, none, none, none⟩

inductive Call where
  | on (kind : EventKind) (callback : Callback)
  | delay (delay : Duration)
  | withoutDebounce
  | withSettings (s : Settings)
  | backend (options : BackendOptions)
  | manner (m : Manner)
  | policy (p : Policy)
  | service (s : Service)
  deriving DecidableEq, Repr

/-- The choice of a delay that settings make. -/
def delayOf (s : Settings) : DelayChoice :=
  if s.delayMs = 0 then .disabled else .custom s.delay

/-- The builder after one more choice. -/
def apply (b : Builder) : Call → Builder
  | .on kind callback => { b with handlers := b.handlers.set kind callback }
  | .delay d => { b with delay := .custom d }
  | .withoutDebounce => { b with delay := .disabled }
  | .withSettings s => { b with delay := delayOf s, backend := s.backendOptions }
  | .backend options => { b with backend := options }
  | .manner m => { b with manner := some m }
  | .policy p => { b with policy := some p }
  | .service s => { b with service := some s }

def applyAll (b : Builder) (calls : List Call) : Builder :=
  calls.foldl apply b

/-- The delay that a choice comes to. -/
def resolveDelay : DelayChoice → Except WatchError Duration
  | .default => .ok defaultDelay
  | .disabled => .ok .zero
  | .custom d => if d.isZero then .error .zeroDelay else .ok d

def prepare (disk : Disk) : Subject → Except WatchError Target × Disk
  | .file p =>
    let (t, disk) := FileTarget.prepare disk p
    (t.map .file, disk)
  | .dir p maxDepth =>
    let (t, disk) := DirTree.prepare disk p maxDepth
    (t.map .tree, disk)

/-- The options that the choices come to. -/
def options (b : Builder) (delay : Duration) : Watch.Options :=
  ⟨delay, b.backend, b.manner, b.policy, b.service⟩

/-- Builds the watch, and yields the disk as it is then. -/
def build (b : Builder) (disk : Disk) : Except WatchError Watch × Disk :=
  if b.handlers.isEmpty then (.error .noCallback, disk)
  else
    match resolveDelay b.delay with
    | .error e => (.error e, disk)
    | .ok delay =>
      match prepare disk b.subject with
      | (.error e, disk) => (.error e, disk)
      | (.ok target, disk) =>
        (Watch.new ⟨target, .none⟩ b.handlers (b.options delay) disk, disk)

end Builder

end ChangeWatch
