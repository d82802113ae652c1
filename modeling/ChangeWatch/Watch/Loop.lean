import ChangeWatch.Watch.Basic

/-!
# What a watch does, job by job

`Watch.perform` is the whole of a running watch.  Every way of calling it is a
thread of jobs: `start` claims the start, registers the root and submits the
loop; `stop` claims the stop, closes the service and shuts the debouncer down;
the loop takes batches until it is told that the service is closed.

An event is resolved first.  For a creation, what appeared is registered before
the callback hears of it, and the entries that were there already are found by
listing the registered directories afterwards.  A failure on the way keeps back
these entries, but not the event.

Whoever stops the watch claims it by the flag: all others find it set and do
nothing more.
-/

namespace ChangeWatch.Watch

def withGround (w : Watch) (ground : Ground) : Watch :=
  { w with ground }

def withService (w : Watch) (service : Service) : Watch :=
  { w with ground := { w.ground with service } }

def note (w : Watch) (n : Note) : Watch :=
  { w with desk := { w.desk with journal := w.desk.journal.note n } }

def warn (w : Watch) (warning : Warning) : Watch :=
  { w with desk := { w.desk with journal := w.desk.journal.warn warning } }

def withTarget (w : Watch) (target : Target) : Watch :=
  { w with strategy := { w.strategy with target } }

/-! ### What follows what -/

/-- What follows a start that failed: the watch is stopped, then the call is
answered. -/
def startFailed (caller : Caller) (e : WatchError) : List Job :=
  [.stop, .started caller (some e)]

/-- What follows something taken from the service. -/
def afterTaken : Taken → List Job
  | .batch b => b.events.map (.handle b.key) ++ [.reset b.key, .recheck]
  | .failure _ => [.desk (.warn .backendError), .recheck]
  | .closed => [.stop]

/-- What follows a walk that came to its end. -/
def afterWalk (registered : List Path) : Purpose → List Job
  | .start caller => [.submit caller]
  | .pickup event path => [.survey event path registered []]

/-- What follows a walk that was broken off. -/
def afterBrokenWalk (e : WatchError) : Purpose → List Job
  | .start caller => startFailed caller e
  | .pickup event path => [.desk (.warn .unregistered), .dispatch event path []]

/-- What follows a resolution. -/
def afterResolve (count : Nat) (key : Key) (event : RawEvent) : Resolution → List Job
  | .panicked => [.desk (.warn .eventPanicked)]
  | .irrelevant => []
  | .path p => if event.kind = .create then [.pickUp count key event p] else [.dispatch event p []]

/-- What follows an answer that stands in for a pickup. -/
def afterPickup (event : RawEvent) (path : Path) : Pickup → List Job
  | .found paths => [.dispatch event path paths]
  | .failed _ => [.desk (.warn .unregistered), .dispatch event path []]
  | .panicked => [.desk (.warn .eventPanicked)]

/-- How a callback is given a change: later if its kind is gathered, else now. -/
def handOver (w : Watch) (event : RawEvent) (callback : Callback) (context : Context) : Job :=
  if w.gathers event.kind then .desk (.offer ⟨event.gatherKey, context, callback⟩ .loop)
  else .desk (.call callback context .callbackPanicked)

/-- The jobs by which an event and what was found because of it are handed to
the callback of its kind, if there is one. -/
def handOverAll (w : Watch) (event : RawEvent) (path : Path) (found : List Path) : List Job :=
  match w.handlers.get event.kind with
  | none => []
  | some callback =>
    w.handOver event callback (.observe w.ground.disk event.kind path) ::
      found.map (.announce callback)

/-! ### The steps -/

/-- One errand of a walk. -/
def walkOn (w : Watch) (purpose : Purpose) (errand : DirTree.Errand) (rest : List DirTree.Errand)
    (registered : List Path) (tree : DirTree) : Done Watch Job :=
  let (more, k) := DirTree.advance w.kinds errand (.start w.ground tree)
  let w := k.warnings.foldl warn ((w.withGround k.site).withTarget (.tree k.tree))
  match k.failure with
  | some e => .andThen w (afterBrokenWalk e purpose)
  | none => .andThen w [.walk purpose (more ++ rest) (registered ++ k.registered)]

/-- Registers the root, at once or by a walk. -/
def registerRoot (w : Watch) (caller : Caller) : Done Watch Job :=
  match w.strategy.target with
  | .file t =>
    match t.register w.ground w.kinds with
    | (.ok _, ground) => .andThen (w.withGround ground) [.submit caller]
    | (.error e, ground) => .andThen (w.withGround ground) (startFailed caller e)
  | .tree t => .andThen w [.walk (.start caller) [.look t.root 0] []]

/-- Gives the loop to the executor. -/
def submit (w : Watch) (caller : Caller) : Done Watch Job :=
  match w.executor.execute .run with
  | (.ok (.thread _), executor) => ⟨{ w with executor }, [.started caller none], [[.run]]⟩
  | (.ok .parked, executor) => .andThen { w with executor } [.started caller none]
  | (.error e, executor) => .andThen { w with executor } (startFailed caller e)

/-- Begins to register what appeared at a path. -/
def pickUp (w : Watch) (count : Nat) (key : Key) (event : RawEvent) (path : Path) : List Job :=
  match w.strategy.override.created count key path with
  | some pickup => afterPickup event path pickup
  | none =>
    match w.strategy.target with
    | .file _ => [.dispatch event path []]
    | .tree t =>
      match t.pickupDepth? w.ground.disk key path with
      | none => [.dispatch event path []]
      | some depth => [.walk (.pickup event path) [.look path depth] []]

/-- Does one job, if it need not wait. -/
def perform (behaviour : Behaviour Wish) (job : Job) (w : Watch) : Option (Done Watch Job) :=
  match job with
  | .start caller =>
    if w.started then some (.andThen w [.started caller (some .alreadyStarted)])
    else some (.andThen { w with started := true } [.startUnlessStopped caller])
  | .startUnlessStopped caller =>
    if w.stopped then some (.andThen w [.started caller (some .alreadyStopped)])
    else some (.andThen w [.registerRoot caller])
  | .registerRoot caller => some (w.registerRoot caller)
  | .submit caller => some (w.submit caller)
  | .started caller error => some (.just (w.note (.started caller error)))
  | .stop =>
    -- whoever sets the flag does the rest
    if w.stopped then some (.just w)
    else some (.andThen { w with stopped := true } [.close .mark, .closed, .desk .shutdown])
  | .close step =>
    let (service, next) := w.ground.service.closeStep step
    some (.andThen (w.withService service) (next.toList.map .close))
  | .closed =>
    if w.ground.service.closeError?.isSome then some (.just (w.warn .unclosed)) else some (.just w)
  | .run => some (.andThen w (if w.stopped then [] else [.take]))
  | .take =>
    match w.ground.service.enter with
    | (some taken, service) => some (.andThen (w.withService service) (afterTaken taken))
    | (none, service) => some (.andThen (w.withService service) [.receive])
  | .receive =>
    -- waits as long as the queue is empty
    w.ground.service.receive.map fun (taken, service) =>
      .andThen (w.withService service) (afterTaken taken)
  | .handle key event =>
    let count := w.handled
    some (.andThen { w with handled := count + 1 }
      (afterResolve count key event (w.strategy.resolve count key event)))
  | .pickUp count key event path => some (.andThen w (w.pickUp count key event path))
  | .walk purpose agenda registered =>
    match agenda, w.strategy.target with
    | errand :: rest, .tree t => some (w.walkOn purpose errand rest registered t)
    | _, _ => some (.andThen w (afterWalk registered purpose))
  | .survey event path [] found => some (.andThen w [.dispatch event path found])
  | .survey event path (dir :: dirs) found =>
    let (found, warnings) := DirTree.survey w.ground.disk (found, []) dir
    some (.andThen (warnings.foldl warn w) [.survey event path dirs found])
  | .dispatch event path found => some (.andThen w (w.handOverAll event path found))
  | .announce callback path =>
    -- looked at on its own, when its turn has come
    let context := Context.observe w.ground.disk .create path
    some (.andThen w [.desk (.call callback context .callbackPanicked)])
  | .reset key =>
    some (.just (w.withService (w.ground.service.reset w.ground.disk key).2))
  | .recheck => some (.andThen w (if w.stopped then [] else [.take]))
  | .desk (.request .start _) => some (.andThen w [.start .callback])
  | .desk (.request .stop _) => some (.andThen w [.stop])
  | .desk job =>
    (Desk.perform behaviour job w.desk).map fun (desk, next) =>
      .andThen { w with desk } (next.map .desk)

def machine (behaviour : Behaviour Wish) : Machine Watch Job := ⟨perform behaviour⟩

end ChangeWatch.Watch
