import ChangeWatch.Proofs.Strategy.Listing
import ChangeWatch.Proofs.Strategy.Walk
import ChangeWatch.Proofs.Watch.Control
import ChangeWatch.Proofs.Work.Thread

/-!
# What a loop does with what it takes

`Scene.trace` says which callbacks a loop invokes and which keys it acknowledges,
as a function of what it takes alone: event by event, from the answers of the
strategy, by plain recursion and with no jobs in it.  `loop_computes_trace` says
that the loop does exactly this, whatever its callbacks do short of stopping the
watch.  So a callback that panics changes nothing but the log.

A piece of the loop `Does` what it is to do if it comes to its end and shows the
right signs.  Each job has a lemma that says what it does, in the order in which
jobs lead to one another: callbacks, dispatching, walking, events, batches, and
then the loop, by induction on what it takes.
-/

namespace ChangeWatch

/-! ### The trace -/

/-- What can be seen of a loop without delay. -/
inductive Sign where
  /-- A callback is invoked for a path. -/
  | invoked (callback : Callback) (kind : EventKind) (path : Path)
  /-- A batch is acknowledged. -/
  | acknowledged (key : Key)
  deriving DecidableEq, Repr

/-- What a loop works with. -/
structure Scene where
  strategy : Strategy
  ground : Ground
  /-- How many events were handled. -/
  handled : Nat

namespace Scene

variable (handlers : Handlers) (kinds : List EventKind)

/-- An event of a path and the entries found because of it. -/
def invoke (kind : EventKind) (path : Path) (found : List Path) : List Sign :=
  match handlers.get kind with
  | none => []
  | some callback => .invoked callback kind path :: found.map (.invoked callback .create)

/-- An event of a path at which something appeared, given what became of it. -/
def invokePickup (kind : EventKind) (path : Path) : Pickup → List Sign
  | .panicked => []
  | .failed _ => invoke handlers kind path []
  | .found paths => invoke handlers kind path paths

/-- The scene with a ground and a tree as they are after a walk. -/
def walked (s : Scene) (k : DirTree.Walk Ground) : Scene :=
  { s with ground := k.site, strategy := { s.strategy with target := .tree k.tree } }

/-- The answer of the strategy about a path at which something appeared, and the
scene after it. -/
def created (s : Scene) (count : Nat) (key : Key) (path : Path) : Pickup × Scene :=
  match s.strategy.override.created count key path with
  | some pickup => (pickup, s)
  | none =>
    match s.strategy.target with
    | .file _ => (.found [], s)
    | .tree t =>
      let (result, walk) := t.onCreated s.ground key path kinds
      let pickup := match result with
        | .ok found => Pickup.found found
        | .error e => .failed e
      (pickup, s.walked walk)

/-- One event. -/
def event (key : Key) (e : RawEvent) (s : Scene) : List Sign × Scene :=
  let next := { s with handled := s.handled + 1 }
  match s.strategy.resolve s.handled key e with
  | .panicked => ([], next)
  | .irrelevant => ([], next)
  | .path path =>
    if e.kind = .create then
      let (pickup, next) := next.created kinds s.handled key path
      (invokePickup handlers e.kind path pickup, next)
    else (invoke handlers e.kind path [], next)

/-- The events of a batch. -/
def events (key : Key) : List RawEvent → Scene → List Sign × Scene
  | [], s => ([], s)
  | e :: rest, s =>
    let (signs, s) := s.event handlers kinds key e
    let (more, s) := events key rest s
    (signs ++ more, s)

/-- The scene after a batch was acknowledged. -/
def reset (key : Key) (s : Scene) : Scene :=
  { s with ground := { s.ground with service := (s.ground.service.reset s.ground.disk key).2 } }

/-- The scene after something was taken from the service. -/
def taken (s : Scene) : Scene :=
  { s with ground := { s.ground with service := s.ground.service.take.2 } }

/-- What a loop does with what it takes until the service is closed. -/
def trace : List Signal → Scene → List Sign
  | [], _ => []
  | .batch b :: rest, s =>
    let (signs, s) := s.taken.events handlers kinds b.key b.events
    signs ++ .acknowledged b.key :: trace rest (s.reset b.key)
  | .failure _ :: rest, s => trace rest s.taken
  | .closed :: _, _ => []

end Scene

namespace Watch

/-- What the loop of a watch works with. -/
def scene (w : Watch) : Scene := ⟨w.strategy, w.ground, w.handled⟩

/-- What is seen when a job is done. -/
def signOf : Job → Option Sign
  | .desk (.call callback context _) => some (.invoked callback context.kind context.path)
  | .reset key => some (.acknowledged key)
  | _ => none

/-- A piece of a thread comes to its end, and this is seen of it. -/
def Does (behaviour : Behaviour Wish) (jobs : List Job) (w : Watch) (signs : List Sign)
    (w' : Watch) : Prop :=
  ∃ log, Runs (machine behaviour) jobs w log w' ∧ log.filterMap signOf = signs

variable {behaviour : Behaviour Wish} {jobs more : List Job} {signs told : List Sign}
  {w w' w'' : Watch}

theorem Does.nothing (w : Watch) : Does behaviour [] w [] w := ⟨[], .done w, rfl⟩

theorem Does.append (h : Does behaviour jobs w signs w') (hmore : Does behaviour more w' told w'') :
    Does behaviour (jobs ++ more) w (signs ++ told) w'' := by
  obtain ⟨log, hlog, rfl⟩ := h
  obtain ⟨log', hlog', rfl⟩ := hmore
  exact ⟨log ++ log', hlog.append hlog', List.filterMap_append⟩

/-- A job that is not seen, and what follows it. -/
theorem Does.unseen {job : Job} (hsign : signOf job = none)
    (h : perform behaviour job w = some (.andThen w' more)) (hmore : Does behaviour more w' told w'') :
    Does behaviour [job] w told w'' := by
  obtain ⟨log, hlog, rfl⟩ := hmore
  refine ⟨job :: log, .andThen h ?_, List.filterMap_cons_none hsign⟩
  rwa [List.append_nil]

/-- A job that is seen, and what follows it. -/
theorem Does.seen {job : Job} {sign : Sign} (hsign : signOf job = some sign)
    (h : perform behaviour job w = some (.andThen w' more)) (hmore : Does behaviour more w' told w'') :
    Does behaviour [job] w (sign :: told) w'' := by
  obtain ⟨log, hlog, rfl⟩ := hmore
  refine ⟨job :: log, .andThen h ?_, List.filterMap_cons_some hsign⟩
  rwa [List.append_nil]

/-! ### What handling an event leaves alone -/

/-- A watch that runs without delay and whose debouncer, if it has one, is not
being waited for. -/
structure Steady (w : Watch) : Prop where
  started : w.started = true
  running : w.stopped = false
  prompt : w.delay.isZero = true
  unlocked : ∀ g, w.desk.debouncer = some g → g.locked = false

/-- A watch after some of its events were handled. -/
structure Alongside (w w' : Watch) : Prop where
  handlers : w'.handlers = w.handlers
  kinds : w'.kinds = w.kinds
  delay : w'.delay = w.delay
  started : w'.started = w.started
  stopped : w'.stopped = w.stopped
  debouncer : w'.desk.debouncer = w.desk.debouncer
  service : w'.ground.service.Alike w.ground.service

theorem Alongside.refl (w : Watch) : Alongside w w :=
  ⟨rfl, rfl, rfl, rfl, rfl, rfl, .refl _⟩

theorem Alongside.trans (h : Alongside w w') (h' : Alongside w' w'') : Alongside w w'' :=
  ⟨h'.handlers.trans h.handlers, h'.kinds.trans h.kinds, h'.delay.trans h.delay,
    h'.started.trans h.started, h'.stopped.trans h.stopped, h'.debouncer.trans h.debouncer,
    h'.service.trans h.service⟩

theorem Alongside.steady (h : Alongside w w') (hw : Steady w) : Steady w' :=
  ⟨h.started.trans hw.started, h.stopped.trans hw.running, h.delay ▸ hw.prompt,
    fun g hg => hw.unlocked g (h.debouncer.symm.trans hg)⟩

/-- A piece of a thread comes to its end, this is seen of it, and the loop then works
with a given scene. -/
def Brings (behaviour : Behaviour Wish) (jobs : List Job) (w : Watch) (signs : List Sign)
    (s : Scene) : Prop :=
  ∃ w', Does behaviour jobs w signs w' ∧ Alongside w w' ∧ w'.scene = s

theorem Brings.nothing (w : Watch) : Brings behaviour [] w [] w.scene :=
  ⟨w, .nothing w, .refl w, rfl⟩

theorem Brings.append {s s' : Scene} (h : Brings behaviour jobs w signs s)
    (hmore : ∀ w', Alongside w w' → w'.scene = s → Brings behaviour more w' told s') :
    Brings behaviour (jobs ++ more) w (signs ++ told) s' := by
  obtain ⟨w', hdoes, halong, hscene⟩ := h
  obtain ⟨w'', hdoes', halong', hscene'⟩ := hmore w' halong hscene
  exact ⟨w'', hdoes.append hdoes', halong.trans halong', hscene'⟩

theorem Brings.unseen {job : Job} {s : Scene} (hsign : signOf job = none)
    (h : perform behaviour job w = some (.andThen w' more)) (halong : Alongside w w')
    (hmore : Brings behaviour more w' told s) : Brings behaviour [job] w told s := by
  obtain ⟨w'', hdoes, halong', hscene⟩ := hmore
  exact ⟨w'', hdoes.unseen hsign h, halong.trans halong', hscene⟩

/-! ### Callbacks -/

/-- A warning is given. -/
theorem brings_warn (w : Watch) (x : Warning) :
    Brings behaviour [.desk (.warn x)] w [] w.scene := by
  have hperform : perform behaviour (.desk (.warn x)) w = some (.andThen (w.warn x) []) :=
    perform_record (fun _ => rfl) (by simp) w
  have halong : Alongside w (w.warn x) := ⟨rfl, rfl, rfl, rfl, rfl, rfl, .refl _⟩
  exact .unseen rfl hperform halong (.nothing (w.warn x))

/-- A callback that asks for a start is told that the watch was started before. -/
theorem brings_requests (hw : Steady w) {requests : List Wish} (hquiet : .stop ∉ requests)
    (context : Context) :
    Brings behaviour (requests.map fun r => .desk (.request r context)) w [] w.scene := by
  induction requests generalizing w with
  | nil => exact .nothing w
  | cons r rest ih =>
    have hr : r = .start := by
      cases r with
      | start => rfl
      | stop => exact absurd List.mem_cons_self hquiet
    subst hr
    let w' := w.note (.started .callback (some .alreadyStarted))
    have halong : Alongside w w' := ⟨rfl, rfl, rfl, rfl, rfl, rfl, .refl _⟩
    have hstarted : Brings behaviour [.started .callback (some .alreadyStarted)] w [] w.scene :=
      .unseen rfl rfl halong (.nothing w')
    have hstart : perform behaviour (.start .callback) w =
        some (.andThen w [.started .callback (some .alreadyStarted)]) := by
      simp only [perform, hw.started, if_true]
    have hfirst : Brings behaviour [.desk (.request .start context)] w [] w.scene :=
      .unseen rfl rfl (.refl w) (.unseen rfl hstart (.refl w) hstarted)
    refine hfirst.append fun w' halong hscene => ?_
    rw [← hscene]
    exact ih (halong.steady hw) fun hmem => hquiet (List.mem_cons_of_mem _ hmem)

/-- A callback is invoked, and may panic. -/
theorem brings_call (hw : Steady w)
    (hquiet : ∀ n c x, .stop ∉ (behaviour n c x).requests) (callback : Callback)
    (context : Context) (onPanic : Warning) :
    Brings behaviour [.desk (.call callback context onPanic)] w
      [.invoked callback context.kind context.path] w.scene := by
  let reaction := behaviour w.desk.journal.notes.length callback context
  let w' := w.note (.ran callback context)
  have hperform : perform behaviour (.desk (.call callback context onPanic)) w =
      some (.andThen w' ((Desk.aftermath reaction context onPanic).map .desk)) :=
    perform_record (fun _ => rfl) (by simp) w
  have halong : Alongside w w' := ⟨rfl, rfl, rfl, rfl, rfl, rfl, .refl _⟩
  have hrequests : Brings behaviour (reaction.requests.map fun r => .desk (.request r context)) w'
      [] w'.scene := brings_requests (halong.steady hw) (hquiet _ _ _) context
  have hpanic : ∀ w₁, Brings behaviour
      ((if reaction.panics then [Desk.Job.warn onPanic] else []).map Job.desk) w₁ [] w₁.scene := by
    intro w₁
    split
    · exact brings_warn w₁ onPanic
    · exact .nothing w₁
  obtain ⟨w'', hdoes, halong', hscene⟩ := hrequests.append fun w₁ _ hscene => hscene ▸ hpanic w₁
  refine ⟨w'', hdoes.seen rfl ?_, halong.trans halong', hscene⟩
  rw [hperform, Desk.aftermath, List.map_append, List.map_map]
  rfl

/-! ### Handing an event over -/

/-- Entries that were there already are announced one by one. -/
theorem brings_announce (hw : Steady w)
    (hquiet : ∀ n c x, .stop ∉ (behaviour n c x).requests) (callback : Callback)
    (found : List Path) :
    Brings behaviour (found.map (.announce callback)) w (found.map (.invoked callback .create))
      w.scene := by
  induction found generalizing w with
  | nil => exact .nothing w
  | cons path rest ih =>
    have hcall := brings_call hw hquiet callback (.observe w.ground.disk .create path)
      .callbackPanicked
    have hfirst : Brings behaviour [.announce callback path] w [.invoked callback .create path]
        w.scene := .unseen rfl rfl (.refl w) hcall
    refine hfirst.append fun w' halong hscene => ?_
    rw [← hscene]
    exact ih (halong.steady hw)

/-- An event and what was found because of it are handed to the callback. -/
theorem brings_dispatch (hw : Steady w)
    (hquiet : ∀ n c x, .stop ∉ (behaviour n c x).requests) (event : RawEvent) (path : Path)
    (found : List Path) :
    Brings behaviour [.dispatch event path found] w
      (Scene.invoke w.handlers event.kind path found) w.scene := by
  have hperform : perform behaviour (.dispatch event path found) w =
      some (.andThen w (w.handOverAll event path found)) := rfl
  refine .unseen rfl hperform (.refl w) ?_
  unfold handOverAll Scene.invoke
  cases w.handlers.get event.kind with
  | none => exact .nothing w
  | some callback =>
    have hprompt : w.gathers event.kind = false := by
      unfold gathers
      rw [hw.prompt]
      simp
    have hnow : w.handOver event callback (.observe w.ground.disk event.kind path) =
        .desk (.call callback (.observe w.ground.disk event.kind path) .callbackPanicked) := by
      unfold handOver
      rw [hprompt, if_neg (by simp)]
    dsimp only
    rw [hnow]
    refine (brings_call hw hquiet _ _ _).append fun w' halong hscene => ?_
    rw [← hscene]
    exact brings_announce (halong.steady hw) hquiet callback found

/-- What is found in a directory does not depend on the warnings given before. -/
theorem survey_found (disk : Disk) (dirs found : List Path) (warnings : List Warning) :
    (dirs.foldl (DirTree.survey disk) (found, warnings)).1 =
      (dirs.foldl (DirTree.survey disk) (found, [])).1 := by
  rw [DirTree.foldl_survey, DirTree.foldl_survey]

theorem alongside_warned (warnings : List Warning) (w : Watch) :
    Alongside w (w.warned warnings) :=
  ⟨rfl, rfl, rfl, rfl, rfl, rfl, .refl _⟩

/-- The directories that were registered are listed, and what is in them is handed
over with the event. -/
theorem brings_survey (hw : Steady w)
    (hquiet : ∀ n c x, .stop ∉ (behaviour n c x).requests) (event : RawEvent) (path : Path)
    (dirs found : List Path) :
    Brings behaviour [.survey event path dirs found] w
      (Scene.invoke w.handlers event.kind path
        (dirs.foldl (DirTree.survey w.ground.disk) (found, [])).1) w.scene := by
  induction dirs generalizing w found with
  | nil => exact .unseen rfl rfl (.refl w) (brings_dispatch hw hquiet event path found)
  | cons dir rest ih =>
    -- listing a directory changes nothing but the warnings
    have halong := alongside_warned (DirTree.survey w.ground.disk (found, []) dir).2 w
    have hrest := ih (halong.steady hw) (DirTree.survey w.ground.disk (found, []) dir).1
    rw [List.foldl_cons, ← Prod.eta (DirTree.survey w.ground.disk (found, []) dir), survey_found]
    exact .unseen rfl (Outcome.performed (.listed event path dir rest found)) halong hrest

/-! ### Walking -/

/-- What follows a walk, whether it failed or not. -/
def afterWalked (purpose : Purpose) (k : DirTree.Walk Ground) : List Job :=
  match k.failure with
  | some e => afterBrokenWalk e purpose
  | none => afterWalk k.registered purpose

/-- The jobs of a walk do what the agenda amounts to, and what follows the walk. -/
theorem brings_walk {agenda : List DirTree.Errand} {k k' : DirTree.Walk Ground}
    {purpose : Purpose} {s : Scene} (h : DirTree.Walks w.kinds agenda k k')
    (hfailure : k.failure = none) (hground : w.ground = k.site)
    (htarget : w.strategy.target = .tree k.tree)
    (hafter : ∀ w', Alongside w w' → w'.scene = w.scene.walked k' →
      Brings behaviour (afterWalked purpose k') w' signs s) :
    Brings behaviour [.walk purpose agenda k.registered] w signs s := by
  generalize hkinds : w.kinds = kinds at h
  induction h generalizing w with
  | done k =>
    have hscene : w.scene.walked k = w.scene := by
      unfold Scene.walked scene
      rw [← hground, ← htarget]
    have hperform : perform behaviour (.walk purpose [] k.registered) w =
        some (.andThen w (afterWalk k.registered purpose)) := rfl
    have hend := hafter w (.refl w) hscene.symm
    rw [afterWalked, hfailure] at hend
    exact .unseen rfl hperform (.refl w) hend
  | failed hfailed => exact absurd (hfailure.symm.trans hfailed) (by simp)
  | @step errand rest k k' hnone hrest ih =>
    -- the step is made afresh, and then added to what was done before it
    rw [DirTree.advance_eq hnone] at hrest ih
    rcases hstep : DirTree.advance kinds errand (.start k.site k.tree) with ⟨agenda, one⟩
    rw [hstep] at hrest ih
    let next := ((w.withGround one.site).withTarget (.tree one.tree)).warned one.warnings
    have halike : one.site.service.Alike k.site.service := by
      have h := alike_advance kinds errand (.start k.site k.tree)
      rwa [hstep] at h
    have halong : Alongside w next := ⟨rfl, rfl, rfl, rfl, rfl, rfl, by rw [hground]; exact halike⟩
    have hadvance : DirTree.advance w.kinds errand (.start w.ground k.tree) = (agenda, one) := by
      rw [hkinds, hground]
      exact hstep
    cases hone : one.failure with
    | some e =>
      have hk' : k' = k.after one := hrest.of_failed hone
      have hend := hafter next halong (by rw [hk']; rfl)
      have hwalked : afterWalked purpose k' = afterBrokenWalk e purpose := by
        have hfailed : k'.failure = some e := by rw [hk']; exact hone
        rw [afterWalked, hfailed]
      rw [hwalked] at hend
      have hperform : perform behaviour (.walk purpose (errand :: rest) k.registered) w =
          some (.andThen next (afterBrokenWalk e purpose)) :=
        Outcome.performed (.walkBroken purpose errand rest k.registered k.tree one htarget hadvance
          hone)
      exact .unseen rfl hperform halong hend
    | none =>
      have hperform : perform behaviour (.walk purpose (errand :: rest) k.registered) w =
          some (.andThen next
            [.walk purpose (agenda ++ rest) (k.registered ++ one.registered)]) :=
        Outcome.performed (.walked purpose errand rest k.registered k.tree one htarget hadvance hone)
      refine .unseen rfl hperform halong (ih hone rfl rfl ?_ (halong.kinds.trans hkinds))
      intro w' halong' hscene'
      refine hafter w' (halong.trans halong') ?_
      rw [hscene']
      rfl

/-! ### Events -/

/-- What became of something that appeared is handed over. -/
theorem brings_afterPickup (hw : Steady w)
    (hquiet : ∀ n c x, .stop ∉ (behaviour n c x).requests) (event : RawEvent) (path : Path)
    (pickup : Pickup) :
    Brings behaviour (afterPickup event path pickup) w
      (Scene.invokePickup w.handlers event.kind path pickup) w.scene := by
  cases pickup with
  | found paths => exact brings_dispatch hw hquiet event path paths
  | panicked => exact brings_warn w .eventPanicked
  | failed e =>
    have hwarned : Brings behaviour [.desk (.warn .unregistered)] w [] w.scene :=
      brings_warn w .unregistered
    refine hwarned.append fun w' halong hscene => ?_
    rw [← hscene, ← halong.handlers]
    exact brings_dispatch (halong.steady hw) hquiet event path []

/-- What follows a walk because of something that appeared. -/
theorem brings_afterWalked (hw : Steady w)
    (hquiet : ∀ n c x, .stop ∉ (behaviour n c x).requests) (event : RawEvent) (path : Path)
    (k : DirTree.Walk Ground) (hground : w.ground = k.site) :
    Brings behaviour (afterWalked (.pickup event path) k) w
      (Scene.invokePickup w.handlers event.kind path (match k.failure with
        | some e => .failed e
        | none => .found (DirTree.existingEntries k.site.disk k.registered).1)) w.scene := by
  unfold afterWalked
  cases k.failure with
  | some e => exact brings_afterPickup hw hquiet event path (.failed e)
  | none =>
    have hsurvey := brings_survey hw hquiet event path k.registered []
    rw [hground] at hsurvey
    exact hsurvey

/-- Something that appeared is picked up as the strategy answers. -/
theorem brings_pickUp (hw : Steady w)
    (hquiet : ∀ n c x, .stop ∉ (behaviour n c x).requests) (count : Nat) (key : Key)
    (event : RawEvent) (path : Path) :
    Brings behaviour [.pickUp count key event path] w
      (Scene.invokePickup w.handlers event.kind path (w.scene.created w.kinds count key path).1)
      (w.scene.created w.kinds count key path).2 := by
  have hperform : perform behaviour (.pickUp count key event path) w =
      some (.andThen w (w.pickUp count key event path)) := rfl
  refine .unseen rfl hperform (.refl w) ?_
  have hscene : w.scene = ⟨w.strategy, w.ground, w.handled⟩ := rfl
  unfold pickUp Scene.created
  rw [hscene]
  dsimp only
  -- the override answers, or a file needs no pickup, or a tree is walked
  cases w.strategy.override.created count key path with
  | some pickup => exact brings_afterPickup hw hquiet event path pickup
  | none =>
    cases htarget : w.strategy.target with
    | file t => exact brings_dispatch hw hquiet event path []
    | tree t =>
      dsimp only
      unfold DirTree.onCreated
      have hdisk : Site.disk w.ground = w.ground.disk := rfl
      rw [hdisk]
      cases t.pickupDepth? w.ground.disk key path with
      | none =>
        -- nothing to pick up: the walk that was not made leaves the scene as it is
        have hsame : w.scene.walked (.start w.ground t) = w.scene := by
          unfold Scene.walked scene DirTree.Walk.start
          rw [← htarget]
        have hplain := brings_dispatch hw hquiet event path []
        rw [← hsame] at hplain
        exact hplain
      | some depth =>
        dsimp only
        have hwalks : DirTree.Walks w.kinds [.look path depth] (.start w.ground t)
            (DirTree.registerTree w.kinds path depth (.start w.ground t)) :=
          DirTree.walks_registerTree rfl path depth
        generalize DirTree.registerTree w.kinds path depth (.start w.ground t) = k' at hwalks ⊢
        -- the walk is made errand by errand, and its end is what the strategy answers
        have hwalk : Brings behaviour [.walk (.pickup event path) [.look path depth] []] w
            (Scene.invokePickup w.handlers event.kind path (match k'.failure with
              | some e => .failed e
              | none => .found (DirTree.existingEntries k'.site.disk k'.registered).1))
            (w.scene.walked k') := by
          refine brings_walk hwalks rfl rfl htarget fun w' halong hscene' => ?_
          rw [← hscene', ← halong.handlers]
          exact brings_afterWalked (halong.steady hw) hquiet event path k'
            (congrArg (·.ground) hscene')
        cases hfailure : k'.failure with
        | some e =>
          rw [hfailure] at hwalk
          exact hwalk
        | none =>
          rw [hfailure] at hwalk
          exact hwalk

/-- An event is handled as its trace has it. -/
theorem brings_handle (hw : Steady w)
    (hquiet : ∀ n c x, .stop ∉ (behaviour n c x).requests) (key : Key) (e : RawEvent) :
    Brings behaviour [.handle key e] w (w.scene.event w.handlers w.kinds key e).1
      (w.scene.event w.handlers w.kinds key e).2 := by
  let counted : Watch := { w with handled := w.handled + 1 }
  have halong : Alongside w counted := ⟨rfl, rfl, rfl, rfl, rfl, rfl, .refl _⟩
  have hperform : perform behaviour (.handle key e) w = some (.andThen counted
      (afterResolve w.handled key e (w.strategy.resolve w.handled key e))) := rfl
  have hresolve : w.scene.strategy.resolve w.scene.handled key e =
      w.strategy.resolve w.handled key e := rfl
  refine .unseen rfl hperform halong ?_
  unfold Scene.event
  rw [hresolve]
  cases w.strategy.resolve w.handled key e with
  | panicked => exact brings_warn counted .eventPanicked
  | irrelevant => exact .nothing counted
  | path path =>
    by_cases hcreate : e.kind = .create
    · simp only [afterResolve, if_pos hcreate]
      exact brings_pickUp (halong.steady hw) hquiet w.handled key e path
    · simp only [afterResolve, if_neg hcreate]
      exact brings_dispatch (halong.steady hw) hquiet e path []

/-- The events of a batch are handled one after the other. -/
theorem brings_events (hw : Steady w)
    (hquiet : ∀ n c x, .stop ∉ (behaviour n c x).requests) (key : Key) (events : List RawEvent) :
    Brings behaviour (events.map (.handle key)) w
      (w.scene.events w.handlers w.kinds key events).1
      (w.scene.events w.handlers w.kinds key events).2 := by
  induction events generalizing w with
  | nil => exact .nothing w
  | cons e rest ih =>
    refine (brings_handle hw hquiet key e).append fun w' halong hscene => ?_
    have hrest := ih (halong.steady hw)
    rw [hscene, halong.handlers, halong.kinds] at hrest
    exact hrest

/-! ### The loop -/

/-- A batch is handled and then acknowledged. -/
theorem does_batch (hw : Steady w)
    (hquiet : ∀ n c x, .stop ∉ (behaviour n c x).requests) (b : Batch) :
    ∃ w', Does behaviour (b.events.map (.handle b.key) ++ [.reset b.key]) w
        ((w.scene.events w.handlers w.kinds b.key b.events).1 ++ [.acknowledged b.key]) w' ∧
      Alongside w w' ∧
      w'.scene = (w.scene.events w.handlers w.kinds b.key b.events).2.reset b.key := by
  obtain ⟨w₁, hdoes, halong, hscene⟩ := brings_events hw hquiet b.key b.events
  let w' := w₁.withService (w₁.ground.service.reset w₁.ground.disk b.key).2
  have halike : Alongside w₁ w' :=
    ⟨rfl, rfl, rfl, rfl, rfl, rfl, w₁.ground.service.alike_reset w₁.ground.disk b.key⟩
  have hreset : Does behaviour [.reset b.key] w₁ [.acknowledged b.key] w' :=
    Does.seen rfl rfl (.nothing w')
  exact ⟨w', hdoes.append hreset, halong.trans halike, by rw [← hscene]; rfl⟩

/-- A watch at whose service these signals wait, and after them the signal that it is
closed. -/
structure Supplied (w : Watch) (signals : List Signal) : Prop where
  steady : Steady w
  service : w.ground.service.isClosed = false
  farewell : w.ground.service.farewell = .closed
  signals : ∃ rest, w.ground.service.signals = signals ++ .closed :: rest

theorem Alongside.supplied (h : Alongside w w') {signals : List Signal}
    (hw : Supplied w signals) : Supplied w' signals :=
  ⟨h.steady hw.steady, h.service.closed.trans hw.service, h.service.farewell.trans hw.farewell,
    by rw [h.service.signals]; exact hw.signals⟩

/-- The loop takes the first of the signals that wait. -/
theorem does_take {signal : Signal} {back : List Signal} (hw : Steady w)
    (hopen : w.ground.service.isClosed = false)
    (hsignals : w.ground.service.signals = signal :: back) :
    ∃ w', Steady w' ∧ w'.handlers = w.handlers ∧ w'.kinds = w.kinds ∧ w'.scene = w.scene.taken ∧
      w'.ground.service.isClosed = false ∧
      w'.ground.service.farewell = w.ground.service.farewell ∧
      w'.ground.service.signals = back ∧
      ∀ signs w'', Does behaviour (afterTaken (w.ground.service.told signal)) w' signs w'' →
        Does behaviour [.take] w signs w'' := by
  obtain ⟨henter, halike⟩ := w.ground.service.enter_eq
  rw [hopen, if_neg (by simp)] at henter
  rcases hs : w.ground.service.enter with ⟨r, entered⟩
  rw [hs] at henter halike
  obtain rfl : r = none := henter
  have hsignals' : entered.signals = signal :: back := halike.signals.trans hsignals
  -- the flag is not set, so the taker goes on to the queue, which is not empty
  cases hreceive : entered.receive with
  | none =>
    rw [Service.receive_eq_none.mp hreceive] at hsignals'
    exact absurd hsignals' (by simp)
  | some result =>
    obtain ⟨taken, after⟩ := result
    obtain ⟨front, hfront, htold, hclosed, hfarewell, -⟩ := Service.receive_eq_some hreceive
    obtain ⟨rfl, hback⟩ := List.cons.inj (hsignals'.symm.trans hfront)
    have htaken : taken = w.ground.service.told signal := htold.trans (halike.told signal)
    have htake : w.ground.service.take.2 = after := by
      unfold Service.take
      rw [hs]
      dsimp only
      rw [hreceive]
    refine ⟨w.withService after, ⟨hw.started, hw.running, hw.prompt, hw.unlocked⟩, rfl, rfl, ?_,
      hclosed.trans (halike.closed.trans hopen), hfarewell.trans halike.farewell, hback.symm, ?_⟩
    · unfold Scene.taken scene withService
      dsimp only
      rw [htake]
    · intro signs w'' hdoes
      -- the two jobs that this takes
      have hfirst : perform behaviour .take w =
          some (.andThen (w.withService entered) [.receive]) := by
        simp only [perform, hs]
      have hsecond : perform behaviour .receive (w.withService entered) =
          some (.andThen (w.withService after) (afterTaken taken)) := by
        show entered.receive.map _ = _
        rw [hreceive]
        rfl
      rw [← htaken] at hdoes
      exact .unseen rfl hfirst (.unseen rfl hsecond hdoes)

/-- Closing the service comes to its end, from every step on. -/
theorem does_close (step : CloseStep) (w : Watch) :
    ∃ service, Does behaviour [.close step] w [] (w.withService service) := by
  -- the induction is on the steps that are left: closing goes forward
  induction hleft : Service.stepsLeft step using Nat.strongRecOn generalizing step w with
  | ind n ih =>
    rcases hstep : w.ground.service.closeStep step with ⟨service, next⟩
    have hperform : perform behaviour (.close step) w =
        some (.andThen (w.withService service) (next.toList.map .close)) := by
      simp only [perform, hstep]
    cases next with
    | none => exact ⟨service, .unseen rfl hperform (.nothing _)⟩
    | some next =>
      have hless : Service.stepsLeft next < n := by
        rw [← hleft]
        exact Service.closeStep_next (congrArg (·.2) hstep)
      obtain ⟨service', hdoes⟩ := ih _ hless next (w.withService service) rfl
      exact ⟨service', .unseen rfl hperform hdoes⟩

/-- That the service is closed may be complained of, and nothing more. -/
theorem does_closed (w : Watch) : ∃ w', Does behaviour [.closed] w [] w' ∧ w'.stopped = w.stopped ∧
    w'.desk.debouncer = w.desk.debouncer := by
  by_cases herror : w.ground.service.closeError?.isSome
  · have hwarned : perform behaviour .closed w = some (.just (w.warn .unclosed)) := by
      simp only [perform, herror, if_true]
    exact ⟨_, .unseen rfl hwarned (.nothing _), rfl, rfl⟩
  · have hquiet : perform behaviour .closed w = some (.just w) := by
      simp only [perform, herror, Bool.false_eq_true, if_false]
    exact ⟨_, .unseen rfl hquiet (.nothing _), rfl, rfl⟩

/-- Shutting the debouncer down comes to its end unless somebody holds its lock. -/
theorem does_shutdown (hunlocked : ∀ g, w.desk.debouncer = some g → g.locked = false) :
    ∃ w', Does behaviour [.desk .shutdown] w [] w' ∧ w'.stopped = w.stopped := by
  cases hg : w.desk.debouncer with
  | none =>
    have hnone : perform behaviour (.desk .shutdown) w =
        some (.andThen { w with desk := ⟨none, w.desk.journal⟩ } []) := by
      simp only [perform, Desk.perform, hg]
      rfl
    exact ⟨_, .unseen rfl hnone (.nothing _), rfl⟩
  | some g =>
    have hsome : perform behaviour (.desk .shutdown) w =
        some (.andThen { w with desk := ⟨some g.shutdown, w.desk.journal⟩ } []) := by
      simp only [perform, Desk.perform, hg, Desk.operate, hunlocked g hg, Bool.false_eq_true,
        if_false]
      rfl
    exact ⟨_, .unseen rfl hsome (.nothing _), rfl⟩

/-- A stop is carried out to its end. -/
theorem does_stop (hw : Steady w) : ∃ w', Does behaviour [.stop] w [] w' ∧ w'.stopped = true := by
  let flagged : Watch := { w with stopped := true }
  have hperform : perform behaviour .stop w =
      some (.andThen flagged [.close .mark, .closed, .desk .shutdown]) := by
    simp only [perform, hw.running, Bool.false_eq_true, if_false]
    rfl
  obtain ⟨service, hclose⟩ : ∃ service,
      Does behaviour [.close .mark] flagged [] (flagged.withService service) :=
    does_close .mark flagged
  obtain ⟨w₁, hclosed, hflag, hdesk⟩ : ∃ w₁,
      Does behaviour [.closed] (flagged.withService service) [] w₁ ∧ w₁.stopped = true ∧
        w₁.desk.debouncer = w.desk.debouncer :=
    does_closed (flagged.withService service)
  obtain ⟨w', hshutdown, hstopped⟩ : ∃ w', Does behaviour [.desk .shutdown] w₁ [] w' ∧
      w'.stopped = w₁.stopped :=
    does_shutdown fun g hg => hw.unlocked g (hdesk.symm.trans hg)
  exact ⟨w', .unseen rfl hperform (hclose.append (hclosed.append hshutdown)),
    hstopped.trans hflag⟩

/-- The loop does what its trace says with what waits, one after the other, and ends
with the watch stopped. -/
theorem does_loop (hquiet : ∀ n c x, .stop ∉ (behaviour n c x).requests) {signals : List Signal}
    (hclosed : .closed ∉ signals) (hw : Supplied w signals) :
    ∃ w', Does behaviour [.take] w (Scene.trace w.handlers w.kinds signals w.scene) w' ∧
      w'.stopped = true := by
  induction signals generalizing w with
  | nil =>
    obtain ⟨back, hback⟩ := hw.signals
    obtain ⟨w₁, hsteady, -, -, -, -, -, -, hrest⟩ := does_take hw.steady hw.service hback
    have htold : w.ground.service.told .closed = .closed := hw.farewell
    rw [htold] at hrest
    obtain ⟨w', hstop, hstopped⟩ : ∃ w', Does behaviour [.stop] w₁ [] w' ∧ w'.stopped = true :=
      does_stop hsteady
    exact ⟨w', hrest _ _ hstop, hstopped⟩
  | cons signal rest ih =>
    obtain ⟨back, hback⟩ := hw.signals
    obtain ⟨w₁, hsteady, hhandlers, hkinds, hscene, hopen, hfarewell, hsignals, hrest⟩ :=
      does_take hw.steady hw.service hback
    have hw₁ : Supplied w₁ rest :=
      ⟨hsteady, hopen, hfarewell.trans hw.farewell, ⟨back, hsignals⟩⟩
    have hlater : .closed ∉ rest := fun hmem => hclosed (List.mem_cons_of_mem _ hmem)
    -- nobody stops the watch, so the loop goes on to the next signal
    have hagain : ∀ {w₂ : Watch}, Supplied w₂ rest → ∃ w', Does behaviour [.recheck] w₂
        (Scene.trace w₂.handlers w₂.kinds rest w₂.scene) w' ∧ w'.stopped = true := by
      intro w₂ hw₂
      obtain ⟨w', hdoes, hstopped⟩ := ih hlater hw₂
      have hperform : perform behaviour .recheck w₂ = some (.andThen w₂ [.take]) := by
        simp only [perform, hw₂.steady.running, Bool.false_eq_true, if_false]
      exact ⟨w', .unseen rfl hperform hdoes, hstopped⟩
    cases signal with
    | closed => exact absurd List.mem_cons_self hclosed
    | failure e =>
      have hbrings : Brings behaviour [.desk (.warn .backendError)] w₁ [] w₁.scene :=
        brings_warn w₁ .backendError
      obtain ⟨w₂, hwarned, halong, hsame⟩ := hbrings
      obtain ⟨w', hdoes, hstopped⟩ := hagain (halong.supplied hw₁)
      refine ⟨w', hrest _ _ ?_, hstopped⟩
      have hall := hwarned.append hdoes
      rw [hsame, hscene, halong.handlers, halong.kinds, hhandlers, hkinds] at hall
      exact hall
    | batch b =>
      obtain ⟨w₂, hbatch, halong, hreset⟩ := does_batch hsteady hquiet b
      obtain ⟨w', hdoes, hstopped⟩ := hagain (halong.supplied hw₁)
      refine ⟨w', hrest _ _ ?_, hstopped⟩
      have hall := hbatch.append hdoes
      rw [hreset, hscene, halong.handlers, halong.kinds, hhandlers, hkinds] at hall
      simp only [List.append_assoc, List.singleton_append] at hall
      exact hall

/-- The loop computes its trace.  What it invokes and acknowledges, and in which
order, depends on what it takes and on the answers of the strategy alone, and it
ends with the watch stopped; whether callbacks panic makes no difference. -/
theorem loop_computes_trace {signals : List Signal} (hw : Supplied w signals)
    (hclosed : .closed ∉ signals) (hquiet : ∀ n c x, .stop ∉ (behaviour n c x).requests) :
    ∃ log w', Runs (machine behaviour) [.run] w log w' ∧
      log.filterMap signOf = Scene.trace w.handlers w.kinds signals w.scene ∧
      w'.stopped = true ∧
      (∀ fuel, log.length ≤ fuel →
        Pool.runThread (machine behaviour) 0 fuel ⟨w, [[.run]]⟩ = ⟨w', [[]]⟩) ∧
      ∀ (other : Behaviour Wish), (∀ n c x, .stop ∉ (other n c x).requests) →
        ∀ log' w'', Runs (machine other) [.run] w log' w'' →
          log'.filterMap signOf = log.filterMap signOf := by
  have hloop : ∀ {behaviour : Behaviour Wish}, (∀ n c x, .stop ∉ (behaviour n c x).requests) →
      ∃ w', Does behaviour [.run] w (Scene.trace w.handlers w.kinds signals w.scene) w' ∧
        w'.stopped = true := by
    intro behaviour hquiet
    obtain ⟨w', hdoes, hstopped⟩ := does_loop hquiet hclosed hw
    have hperform : perform behaviour .run w = some (.andThen w [.take]) := by
      simp only [perform, hw.steady.running, Bool.false_eq_true, if_false]
    exact ⟨w', .unseen rfl hperform hdoes, hstopped⟩
  obtain ⟨w', ⟨log, hruns, hlog⟩, hstopped⟩ := hloop hquiet
  refine ⟨log, w', hruns, hlog, hstopped, fun fuel hfuel => hruns.runThread hfuel, ?_⟩
  intro other hother log' w'' hruns'
  -- there is one run of the loop, and it shows the same trace
  obtain ⟨_, ⟨log'', hruns'', hlog''⟩, -⟩ := hloop hother
  obtain ⟨rfl, -⟩ := hruns'.unique hruns''
  exact hlog''.trans hlog.symm

/-- A callback that panics at every event: a batch with a creation of which the
strategy says what was found, an event on which the strategy panics, and a
complaint of the backend. -/
theorem trace_of_panicking_callback :
    let w : Watch := {
      strategy := ⟨.tree ⟨.here, 1, []⟩,
        ⟨fun n _ _ => some (if n = 1 then .panicked else .path (.ofString "a")),
          fun _ _ _ => some (.found [.ofString "a/b"]), none⟩⟩
      handlers := ⟨some ⟨0⟩, none, none, none⟩
      kinds := [.create], delay := .zero, backend := .default
      ground := ⟨.memory { MemoryService.new .none with queue :=
        [.batch ⟨⟨0⟩, [⟨.create, none⟩, ⟨.create, none⟩]⟩, .failure ⟨.generic "x", []⟩,
          .closed] }, .empty⟩
      executor := .new .ownThread, desk := ⟨none, .empty⟩
      started := true, stopped := false, handled := 0 }
    ∃ log w', Runs (machine fun _ _ _ => ⟨[], true⟩) [.run] w log w' ∧
      log.filterMap signOf = [.invoked ⟨0⟩ .create (.ofString "a"),
        .invoked ⟨0⟩ .create (.ofString "a/b"), .acknowledged ⟨0⟩] ∧ w'.stopped = true := by
  intro w
  have hw : Supplied w [.batch ⟨⟨0⟩, [⟨.create, none⟩, ⟨.create, none⟩]⟩,
      .failure ⟨.generic "x", []⟩] := by
    refine ⟨⟨rfl, rfl, rfl, ?_⟩, rfl, rfl, ⟨[], rfl⟩⟩
    intro g hg
    exact absurd hg (by simp [w])
  obtain ⟨log, w', hruns, hlog, hstopped, -⟩ :=
    @loop_computes_trace (fun _ _ _ => ⟨[], true⟩) _ _ hw (by simp) (by simp)
  exact ⟨log, w', hruns, hlog, hstopped⟩

end Watch

end ChangeWatch
