import ChangeWatch.Proofs.Watch.Control
import ChangeWatch.Proofs.Watch.Growing.Walking

/-!
# What the jobs of a watch have still to come by

Of an entry that was added something is left over at every time: an event in the
queue, a job that handles it, a walk, a listing, or at last a call of the callback.
A job `Heeds` a directory if it registers it or leads to a job that does, and it
`Promises` an entry if it hands it to the callback or leads to a job that does.

Every job passes on what it heeds and promises to those that follow it, unless it
is done with it (`perform_growthEffect`).  A job that registers a directory promises
all entries in it from then on, for it lists the directory later.
-/

namespace ChangeWatch.Growing

open Watch

/-- An entry of a registered directory. -/
structure Appeared (g : Ground) (key : Key) (dir : Location) (n : Bytes) : Prop where
  key : g.service.keyOf? dir.toPath = some key
  entry : ∃ e, g.disk.entry? (dir ++ [n]) = some e ∧ ∀ target, e ≠ .link target

/-- A job of a watch on which nothing but creations happen. -/
def Fit (root : Location) (g : Ground) : Job → Prop
  | .start caller => caller ≠ .owner
  | .handle key event => ∃ dir n, Appeared g key dir n ∧ event = ⟨.create, some ⟨n⟩⟩
  | .pickUp _ key event path =>
    event.kind = .create ∧ ∃ dir n, Appeared g key dir n ∧ path = Location.toPath (dir ++ [n])
  | .walk (.start _) agenda _ => ∀ e ∈ agenda, Aimed root g.disk e
  | .walk (.pickup event _) agenda _ => event.kind = .create ∧ ∀ e ∈ agenda, Aimed root g.disk e
  | .survey event .. | .dispatch event .. => event.kind = .create
  | .desk (.call ..) | .desk (.warn _) | .desk (.request ..) => True
  | .desk _ | .close _ | .closed => False
  | _ => True

/-- A directory that a job registers, or leads to a job that does. -/
def Heeds (root : Location) (g : Ground) (dir : Location) : Job → Prop
  | .start caller => caller = .owner ∧ ∃ rel, dir = root ++ rel
  | .startUnlessStopped _ | .registerRoot _ => ∃ rel, dir = root ++ rel
  | .handle key event => ∃ top n rest, g.service.keyOf? top.toPath = some key ∧
      event.name = some ⟨n⟩ ∧ dir = top ++ n :: rest
  | .pickUp _ _ _ path => ∃ top rest, path = Location.toPath top ∧ dir = top ++ rest
  | .walk _ agenda _ => ∃ e ∈ agenda, Covers dir e
  | _ => False

/-- An entry that a job hands to the callback, or leads to a job that does. -/
def Promises (g : Ground) (callback : Callback) (dir : Location) (n : Bytes) : Job → Prop
  | .handle key event => g.service.keyOf? dir.toPath = some key ∧ event.name = some ⟨n⟩
  | .pickUp _ _ _ path => path = Location.toPath (dir ++ [n])
  | .walk (.pickup _ path) _ registered =>
    path = Location.toPath (dir ++ [n]) ∨ dir.toPath ∈ registered
  | .survey _ path dirs found =>
    path = Location.toPath (dir ++ [n]) ∨ dir.toPath ∈ dirs ∨
      Location.toPath (dir ++ [n]) ∈ found
  | .dispatch _ path found =>
    path = Location.toPath (dir ++ [n]) ∨ Location.toPath (dir ++ [n]) ∈ found
  | .announce c path => c = callback ∧ path = Location.toPath (dir ++ [n])
  | .desk (.call c context _) =>
    c = callback ∧ context.kind = .create ∧ context.path = Location.toPath (dir ++ [n])
  | _ => False

/-- The callback was given an entry. -/
def Told (w : Watch) (callback : Callback) (dir : Location) (n : Bytes) : Prop :=
  ∃ context, .ran callback context ∈ w.desk.journal.notes ∧ context.kind = .create ∧
    context.path = Location.toPath (dir ++ [n])

/-- The jobs that the batches of a queue come to. -/
def waiting (s : Service) : List Job :=
  s.signals.flatMap fun
    | .batch b => b.events.map (.handle b.key)
    | _ => []

/-- A watch over a tree, not stopped, whose service refuses nothing and has only
events of additions in its queue. -/
structure Watching (root : Location) (maxDepth : Nat) (callback : Callback) (w : Watch) :
    Prop where
  tree : ∃ t, w.strategy.target = .tree t ∧ Rooted root maxDepth w.ground t
  override : w.strategy.override = .none
  handler : w.handlers.create = some callback
  running : w.stopped = false
  batches : ∀ signal ∈ w.ground.service.signals, ∃ b, signal = .batch b
  queue : ∀ j ∈ waiting w.ground.service, Fit root w.ground j

variable {root dir : Location} {maxDepth : Nat} {callback : Callback} {n : Bytes}
  {g g' : Ground} {w w' : Watch} {job : Job} {d : Done Watch Job} {behaviour : Behaviour Wish}

/-! ### What stays -/

/-- A ground on which nothing was lost. -/
structure Onward (g g' : Ground) : Prop where
  disk : g.disk.Grown g'.disk
  kept : ∀ path key, g.service.keyOf? path = some key → g'.service.keyOf? path = some key

theorem Onward.refl (g : Ground) : Onward g g := ⟨.refl _, fun _ _ h => h⟩

theorem Onward.appeared {key : Key} (h : Onward g g') (ha : Appeared g key dir n) :
    Appeared g' key dir n := by
  obtain ⟨e, he, hlink⟩ := ha.entry
  exact ⟨h.kept _ _ ha.key, e, h.disk _ _ he, hlink⟩

theorem Onward.known (h : Onward g g') (hk : Known g.service dir) : Known g'.service dir := by
  obtain ⟨key, hkey⟩ := Option.isSome_iff_exists.mp hk
  rw [Known, h.kept _ _ hkey]
  rfl

theorem Onward.fit (h : Onward g g') (hfit : Fit root g job) : Fit root g' job := by
  cases job with
  | handle key event =>
    obtain ⟨dir, n, ha, hevent⟩ := hfit
    exact ⟨dir, n, h.appeared ha, hevent⟩
  | pickUp count key event path =>
    obtain ⟨hkind, dir, n, ha, hpath⟩ := hfit
    exact ⟨hkind, dir, n, h.appeared ha, hpath⟩
  | walk purpose agenda registered =>
    cases purpose with
    | start caller => exact fun e he => (hfit e he).grown h.disk
    | pickup event path => exact ⟨hfit.1, fun e he => (hfit.2 e he).grown h.disk⟩
  | desk job => cases job <;> exact hfit
  | _ => exact hfit

theorem Onward.heeds (h : Onward g g') (hheeds : Heeds root g dir job) :
    Heeds root g' dir job := by
  cases job with
  | handle key event =>
    obtain ⟨top, n, rest, hkey, hname, hdir⟩ := hheeds
    exact ⟨top, n, rest, h.kept _ _ hkey, hname, hdir⟩
  | _ => exact hheeds

theorem Onward.promises (h : Onward g g') (hp : Promises g callback dir n job) :
    Promises g' callback dir n job := by
  cases job with
  | handle key event => exact ⟨h.kept _ _ hp.1, hp.2⟩
  | walk purpose agenda registered => cases purpose <;> exact hp
  | desk job => cases job <;> exact hp
  | _ => exact hp

/-- Whoever heeds a directory heeds what is below it. -/
theorem Heeds.below (h : Heeds root g dir job) (n : Bytes) : Heeds root g (dir ++ [n]) job := by
  cases job with
  | start caller =>
    obtain ⟨howner, rel, rfl⟩ := h
    exact ⟨howner, rel ++ [n], by rw [List.append_assoc]⟩
  | startUnlessStopped caller =>
    obtain ⟨rel, rfl⟩ := h
    exact ⟨rel ++ [n], by rw [List.append_assoc]⟩
  | registerRoot caller =>
    obtain ⟨rel, rfl⟩ := h
    exact ⟨rel ++ [n], by rw [List.append_assoc]⟩
  | handle key event =>
    obtain ⟨top, m, rest, hkey, hname, rfl⟩ := h
    exact ⟨top, m, rest ++ [n], hkey, hname, by rw [List.append_assoc]; rfl⟩
  | pickUp count key event path =>
    obtain ⟨top, rest, hpath, rfl⟩ := h
    exact ⟨top, rest ++ [n], hpath, by rw [List.append_assoc]⟩
  | walk purpose agenda registered =>
    obtain ⟨e, he, hcovers⟩ := h
    exact ⟨e, he, hcovers.below n⟩
  | _ => exact h

/-! ### Carrying on -/

/-- What a job does for a tree that grows: nothing is lost, and what the job heeds and
promises is done or left to the jobs that follow it. -/
structure GrowthEffect (root : Location) (maxDepth : Nat) (callback : Callback) (w : Watch)
    (job : Job) (d : Done Watch Job) : Prop where
  watching : Watching root maxDepth callback d.state
  onward : Onward w.ground d.state.ground
  disk : d.state.ground.disk = w.ground.disk
  started : d.state.started = true
  notes : ∀ note ∈ w.desk.journal.notes, note ∈ d.state.desk.journal.notes
  queue : ∀ j ∈ waiting w.ground.service, j ∈ waiting d.state.ground.service ∨ j ∈ d.next
  fit : ∀ j ∈ d.next, Fit root d.state.ground j
  heeded : ∀ dir, Wanted root maxDepth w.ground.disk dir → Heeds root w.ground dir job →
    Known d.state.ground.service dir ∨ ∃ j ∈ d.next, Heeds root d.state.ground dir j
  promised : ∀ dir n, dir.Short → (w.ground.disk.entry? (dir ++ [n])).isSome = true →
    Promises w.ground callback dir n job →
      Told d.state callback dir n ∨ ∃ j ∈ d.next, Promises d.state.ground callback dir n j
  fresh : (∀ caller agenda registered, job ≠ .walk (.start caller) agenda registered) →
    ∀ dir n, (∀ m ∈ dir, IsName m) → Known d.state.ground.service dir →
      Known w.ground.service dir ∨ ∃ j ∈ d.next, Promises d.state.ground callback dir n j

/-- A watch that differs only in what has nothing to do with the tree. -/
structure Beside (w w' : Watch) : Prop where
  strategy : w'.strategy = w.strategy
  handlers : w'.handlers = w.handlers
  ground : w'.ground = w.ground
  started : w'.started = w.started
  stopped : w'.stopped = w.stopped
  notes : ∀ note ∈ w.desk.journal.notes, note ∈ w'.desk.journal.notes

theorem Beside.refl (w : Watch) : Beside w w := ⟨rfl, rfl, rfl, rfl, rfl, fun _ h => h⟩

theorem Beside.note (w : Watch) (note : Note) : Beside w (w.note note) :=
  ⟨rfl, rfl, rfl, rfl, rfl, fun _ h => List.mem_append_left _ h⟩

theorem Beside.warn (w : Watch) (warning : Warning) : Beside w (w.warn warning) :=
  ⟨rfl, rfl, rfl, rfl, rfl, fun _ h => h⟩

theorem Beside.warned (w : Watch) (warnings : List Warning) : Beside w (w.warned warnings) :=
  ⟨rfl, rfl, rfl, rfl, rfl, fun _ h => h⟩

theorem Beside.watching (h : Beside w w') (hw : Watching root maxDepth callback w) :
    Watching root maxDepth callback w' := by
  refine ⟨?_, ?_, ?_, h.stopped.trans hw.running, ?_, ?_⟩
  · rw [h.strategy, h.ground]
    exact hw.tree
  · rw [h.strategy]
    exact hw.override
  · rw [h.handlers]
    exact hw.handler
  · rw [h.ground]
    exact hw.batches
  · rw [h.ground]
    exact hw.queue

/-- A job that has nothing to do with the tree but for what it leads to. -/
theorem GrowthEffect.beside {next : List Job} (hw : Watching root maxDepth callback w)
    (hstarted : w.started = true) (h : Beside w w') (hfit : ∀ j ∈ next, Fit root w.ground j)
    (hheeded : ∀ dir, Wanted root maxDepth w.ground.disk dir → Heeds root w.ground dir job →
      ∃ j ∈ next, Heeds root w.ground dir j)
    (hpromised : ∀ dir n, dir.Short → (w.ground.disk.entry? (dir ++ [n])).isSome = true →
      Promises w.ground callback dir n job →
        Told w' callback dir n ∨ ∃ j ∈ next, Promises w.ground callback dir n j) :
    GrowthEffect root maxDepth callback w job (.andThen w' next) := by
  have hground : (Done.andThen w' next : Done Watch Job).state.ground = w.ground := h.ground
  refine ⟨h.watching hw, ?_, ?_, h.started.trans hstarted, h.notes, ?_, ?_, ?_, ?_, ?_⟩ <;>
    rw [hground]
  · exact .refl _
  · exact fun j hj => Or.inl hj
  · exact hfit
  · exact fun dir hdir hheeds => Or.inr (hheeded dir hdir hheeds)
  · exact hpromised
  · exact fun _ dir n _ hk => Or.inl hk

/-! ### Events -/

/-- What a watch knows of an entry whose directory is registered. -/
theorem Appeared.node {t : DirTree} {key : Key} (ha : Appeared w.ground key dir n)
    (ht : Rooted root maxDepth w.ground t) :
    ∃ rel, dir = root ++ rel ∧ (∀ m ∈ dir, IsName m) ∧ IsName n ∧
      t.node? key = some ⟨dir.toPath, rel.length⟩ := by
  obtain ⟨e, he, -⟩ := ha.entry
  obtain ⟨hn, hdir⟩ := ht.order.above he
  have hnames := ht.order.names hdir
  obtain ⟨rel, heq, -, hnode⟩ := ht.node hnames ha.key
  exact ⟨rel, heq, hnames, hn, hnode⟩

/-- An event under a key concerns the entry that appeared. -/
theorem resolve_appeared (hw : Watching root maxDepth callback w) {key : Key}
    (ha : Appeared w.ground key dir n) (count : Nat) :
    w.strategy.resolve count key ⟨.create, some ⟨n⟩⟩ =
      .path (Location.toPath (dir ++ [n])) := by
  obtain ⟨t, htarget, ht⟩ := hw.tree
  obtain ⟨rel, -, hnames, hn, hnode⟩ := ha.node ht
  have hresolve : w.strategy.target.resolve key ⟨.create, some ⟨n⟩⟩ =
      some (Location.toPath (dir ++ [n])) := by
    rw [htarget]
    show (t.node? key).map _ = _
    rw [hnode]
    exact congrArg some (Location.child_toPath hnames hn)
  unfold Strategy.resolve
  rw [hw.override, hresolve]
  rfl

theorem growth_handle (hw : Watching root maxDepth callback w) (hstarted : w.started = true)
    {key : Key} {event : RawEvent} (hfit : Fit root w.ground (.handle key event))
    (h : perform behaviour (.handle key event) w = some d) :
    GrowthEffect root maxDepth callback w (.handle key event) d := by
  obtain ⟨dir, n, ha, rfl⟩ := hfit
  obtain ⟨t, htarget, ht⟩ := hw.tree
  obtain ⟨rel, -, hnames, hn, hnode⟩ := ha.node ht
  obtain rfl := Option.some.inj h
  rw [resolve_appeared hw ha]
  have hbeside : Beside w { w with handled := w.handled + 1 } :=
    ⟨rfl, rfl, rfl, rfl, rfl, fun _ h => h⟩
  -- one key is the key of one directory
  have honly : ∀ {top : Location} {m : Bytes}, (∀ m ∈ top, IsName m) →
      w.ground.service.keyOf? top.toPath = some key →
        some (⟨n⟩ : Path) = some ⟨m⟩ → top = dir ∧ m = n := by
    intro top m htop hkey hname
    obtain ⟨rel', -, -, hnode'⟩ := ht.node htop hkey
    have hsame : Node.mk top.toPath rel'.length = ⟨dir.toPath, rel.length⟩ :=
      Option.some.inj (hnode'.symm.trans hnode)
    refine ⟨Location.toPath_injective htop hnames (congrArg Node.dir hsame), ?_⟩
    exact (Path.mk.inj (Option.some.inj hname)).symm
  refine .beside hw hstarted hbeside ?_ ?_ ?_
  · intro j hj
    obtain rfl := List.mem_singleton.mp hj
    exact ⟨rfl, dir, n, ha, rfl⟩
  · rintro below hbelow ⟨top, m, rest, hkey, hname, rfl⟩
    have htop : ∀ m ∈ top, IsName m := fun m hm =>
      ht.order.names hbelow.stands m (List.mem_append_left _ hm)
    obtain ⟨rfl, rfl⟩ := honly htop hkey hname
    exact ⟨_, List.mem_singleton_self _, top ++ [m], rest, rfl, by simp⟩
  · rintro dir' n' - hentry ⟨hkey, hname⟩
    obtain ⟨e, he⟩ := Option.isSome_iff_exists.mp hentry
    have hdir' := ht.order.names (ht.order.above he).2
    obtain ⟨rfl, rfl⟩ := honly hdir' hkey hname
    exact Or.inr ⟨_, List.mem_singleton_self _, rfl⟩

/-- A directory that appeared is walked if it is within bounds and its path is not too
long to be asked for. -/
theorem pickupDepth?_appeared {t : DirTree} (ht : Rooted root maxDepth w.ground t) {key : Key}
    {rel : Location} (ha : Appeared w.ground key (root ++ rel) n) {depth : Nat} :
    t.pickupDepth? w.ground.disk key (Location.toPath (root ++ rel ++ [n])) = some depth ↔
      w.ground.disk.entry? (root ++ rel ++ [n]) = some .dir ∧ (root ++ rel ++ [n]).Short ∧
        depth = rel.length + 1 ∧ depth ≤ maxDepth := by
  obtain ⟨e, he, hlink⟩ := ha.entry
  obtain ⟨rel', hrel, -, -, hnode⟩ := ha.node ht
  obtain rfl := List.append_cancel_left hrel
  have hisDir := ht.order.isDir_toPath_iff hlink he
  unfold DirTree.pickupDepth?
  rw [hnode, ht.depth]
  dsimp only
  rw [he]
  by_cases hdir : w.ground.disk.isDir (Location.toPath (root ++ rel ++ [n])) = true
  · obtain ⟨rfl, hshort⟩ := hisDir.mp hdir
    rw [if_pos hdir]
    constructor
    · intro h
      split at h
      · next hle =>
        obtain rfl := Option.some.inj h
        exact ⟨rfl, hshort, rfl, hle⟩
      · exact absurd h (by simp)
    · rintro ⟨-, -, rfl, hle⟩
      rw [if_pos hle]
  · rw [if_neg hdir]
    constructor
    · intro h
      exact absurd h (by simp)
    · rintro ⟨heq, hshort, -⟩
      exact absurd (hisDir.mpr ⟨Option.some.inj heq, hshort⟩) hdir

theorem growth_pickUp (hw : Watching root maxDepth callback w) (hstarted : w.started = true)
    {count : Nat} {key : Key} {event : RawEvent} {path : Path}
    (hfit : Fit root w.ground (.pickUp count key event path))
    (h : perform behaviour (.pickUp count key event path) w = some d) :
    GrowthEffect root maxDepth callback w (.pickUp count key event path) d := by
  obtain ⟨hkind, dir, n, ha, rfl⟩ := hfit
  obtain ⟨t, htarget, ht⟩ := hw.tree
  obtain ⟨rel, rfl, hnames, hn, -⟩ := ha.node ht
  have hplace : ∀ m ∈ root ++ rel ++ [n], IsName m := by
    intro m hm
    rcases List.mem_append.mp hm with hm | hm
    · exact hnames m hm
    · rwa [List.mem_singleton.mp hm]
  obtain rfl := Option.some.inj h
  have hdepth := @pickupDepth?_appeared root maxDepth n w t ht key rel ha
  unfold pickUp
  rw [hw.override, htarget]
  simp only [Override.none]
  cases hpickup : t.pickupDepth? w.ground.disk key (Location.toPath (root ++ rel ++ [n])) with
  | none =>
    refine .beside hw hstarted (.refl w) ?_ ?_ ?_
    · intro j hj
      rwa [List.mem_singleton.mp hj]
    · rintro below hbelow ⟨top, rest, htop, rfl⟩
      obtain rfl := Location.toPath_injective hplace (fun m hm =>
        ht.order.names hbelow.stands m (List.mem_append_left _ hm)) htop
      -- the directory would have been walked
      obtain ⟨hdir, hshort⟩ := hbelow.above ht.order
      have hle : (rel ++ [n]).length ≤ maxDepth := by
        rw [List.append_assoc root rel [n]] at hbelow
        have := hbelow.length_le
        omega
      rw [List.length_append, List.length_singleton] at hle
      rw [hdepth.mpr ⟨hdir, hshort, rfl, hle⟩] at hpickup
      exact absurd hpickup (by simp)
    · intro dir' n' _ _ hpath
      exact Or.inr ⟨_, List.mem_singleton_self _, Or.inl hpath⟩
  | some depth =>
    obtain ⟨hdir, -, rfl, -⟩ := hdepth.mp hpickup
    refine .beside hw hstarted (.refl w) ?_ ?_ ?_
    · intro j hj
      rw [List.mem_singleton.mp hj]
      refine ⟨hkind, fun e he => ?_⟩
      rw [List.mem_singleton.mp he]
      exact ⟨rel ++ [n], by rw [List.append_assoc], by simp, by rwa [← List.append_assoc]⟩
    · rintro below - hcovers
      exact ⟨_, List.mem_singleton_self _, _, List.mem_singleton_self _, hcovers⟩
    · intro dir' n' _ _ hpath
      exact Or.inr ⟨_, List.mem_singleton_self _, Or.inl hpath⟩

/-! ### Walking and listing -/

/-- A walk that is done is followed by listing what it registered, or by giving the
loop to the executor. -/
theorem growth_walked (hw : Watching root maxDepth callback w) (hstarted : w.started = true)
    {purpose : Purpose} {registered : List Path}
    (hfit : Fit root w.ground (.walk purpose [] registered)) :
    GrowthEffect root maxDepth callback w (.walk purpose [] registered)
      (.andThen w (afterWalk registered purpose)) := by
  refine .beside hw hstarted (.refl w) ?_ ?_ ?_
  · intro j hj
    cases purpose with
    | start caller =>
      rw [List.mem_singleton.mp hj]
      trivial
    | pickup event path =>
      rw [List.mem_singleton.mp hj]
      exact hfit.1
  · rintro dir - ⟨e, he, -⟩
    exact absurd he List.not_mem_nil
  · intro dir n _ _ hp
    cases purpose with
    | start caller => exact absurd hp id
    | pickup event path =>
      refine Or.inr ⟨_, List.mem_singleton_self _, ?_⟩
      exact hp.imp_right Or.inl

/-- The errands of a walk are aimed at directories of the tree. -/
theorem Fit.aimed {purpose : Purpose} {agenda : List DirTree.Errand} {registered : List Path}
    (h : Fit root g (.walk purpose agenda registered)) : ∀ e ∈ agenda, Aimed root g.disk e := by
  cases purpose with
  | start caller => exact h
  | pickup event path => exact h.2

/-- A walk over such a tree does not fail. -/
theorem walked_of_advance (hw : Watching root maxDepth callback w) {errand : DirTree.Errand}
    (haimed : Aimed root w.ground.disk errand) {t : DirTree} (htarget : w.strategy.target = .tree t)
    {more : List DirTree.Errand} {k : DirTree.Walk Ground}
    (hadvance : DirTree.advance w.kinds errand (.start w.ground t) = (more, k)) :
    Walked root maxDepth w.ground errand more k := by
  obtain ⟨t', htarget', ht⟩ := hw.tree
  obtain rfl := Target.tree.inj (htarget.symm.trans htarget')
  have hwalked : Walked root maxDepth w.ground errand
      (DirTree.advance w.kinds errand (.start w.ground t)).1
      (DirTree.advance w.kinds errand (.start w.ground t)).2 :=
    advance_walked ht haimed
  rwa [hadvance] at hwalked

/-- One errand of a walk. -/
theorem growth_errand (hw : Watching root maxDepth callback w) (hstarted : w.started = true)
    {purpose : Purpose} {errand : DirTree.Errand} {rest : List DirTree.Errand}
    {registered : List Path} (hfit : Fit root w.ground (.walk purpose (errand :: rest) registered))
    {more : List DirTree.Errand} {k : DirTree.Walk Ground}
    (hwalked : Walked root maxDepth w.ground errand more k) :
    GrowthEffect root maxDepth callback w (.walk purpose (errand :: rest) registered)
      (.andThen (((w.withGround k.site).withTarget (.tree k.tree)).warned k.warnings)
        [.walk purpose (more ++ rest) (registered ++ k.registered)]) := by
  let walk := Job.walk purpose (more ++ rest) (registered ++ k.registered)
  have honward : Onward w.ground k.site :=
    ⟨by rw [hwalked.disk]; exact .refl _, hwalked.kept⟩
  have hwaiting : waiting k.site.service = waiting w.ground.service := by
    unfold waiting
    rw [hwalked.signals]
  have hagenda : ∀ e ∈ more ++ rest, Aimed root k.site.disk e := by
    rw [hwalked.disk]
    intro e he
    rcases List.mem_append.mp he with he | he
    · exact hwalked.aimed e he
    · exact hfit.aimed e (List.mem_cons_of_mem _ he)
  refine ⟨⟨⟨k.tree, rfl, hwalked.rooted⟩, hw.override, hw.handler, hw.running, ?_, ?_⟩, honward,
    hwalked.disk, hstarted, fun _ h => h, ?_, ?_, ?_, ?_, ?_⟩
  · show ∀ signal ∈ k.site.service.signals, _
    rw [hwalked.signals]
    exact hw.batches
  · show ∀ j ∈ waiting k.site.service, _
    rw [hwaiting]
    exact fun j hj => honward.fit (hw.queue j hj)
  · show ∀ j ∈ waiting w.ground.service, j ∈ waiting k.site.service ∨ _
    rw [hwaiting]
    exact fun j hj => Or.inl hj
  · intro j hj
    rw [List.mem_singleton.mp hj]
    cases purpose with
    | start caller => exact hagenda
    | pickup event path => exact ⟨hfit.1, hagenda⟩
  · -- a directory that the errand covers is registered, or left to the errands it leads to
    rintro dir hdir ⟨e, he, hcovers⟩
    rcases List.mem_cons.mp he with rfl | he
    · rcases hwalked.covered dir hdir hcovers with hknown | ⟨e', he', hcovers'⟩
      · exact Or.inl hknown
      · exact Or.inr ⟨walk, List.mem_singleton_self _, e', List.mem_append_left _ he', hcovers'⟩
    · exact Or.inr ⟨walk, List.mem_singleton_self _, e, List.mem_append_right _ he, hcovers⟩
  · intro dir n _ _ hp
    refine Or.inr ⟨walk, List.mem_singleton_self _, ?_⟩
    cases purpose with
    | start caller => exact absurd hp id
    | pickup event path => exact hp.imp_right fun hmem => List.mem_append_left _ hmem
  · -- what the walk registers it lists later, unless it is the walk of the start
    intro hpickup dir n hnames hknown
    rcases hwalked.fresh dir hnames hknown with hold | hmem
    · exact Or.inl hold
    · refine Or.inr ⟨walk, List.mem_singleton_self _, ?_⟩
      cases purpose with
      | start caller => exact absurd rfl (hpickup caller _ _)
      | pickup event path => exact Or.inr (List.mem_append_right _ hmem)

theorem growth_walk (hw : Watching root maxDepth callback w) (hstarted : w.started = true)
    {purpose : Purpose} {agenda : List DirTree.Errand} {registered : List Path}
    (hfit : Fit root w.ground (.walk purpose agenda registered))
    (h : perform behaviour (.walk purpose agenda registered) w = some d) :
    GrowthEffect root maxDepth callback w (.walk purpose agenda registered) d := by
  cases perform_outcome h with
  | walked _ errand _ _ t k htarget hadvance =>
    exact growth_errand hw hstarted hfit
      (walked_of_advance hw (hfit.aimed errand List.mem_cons_self) htarget hadvance)
  | walkBroken _ errand _ _ t k htarget hadvance hbroken =>
    have hwalked :=
      walked_of_advance hw (hfit.aimed errand List.mem_cons_self) htarget hadvance
    exact absurd (hwalked.failure.symm.trans hbroken) (by simp)
  | walkEnded _ _ _ hended =>
    obtain ⟨t, htarget, -⟩ := hw.tree
    obtain rfl := hended.resolve_right fun hfile => hfile t htarget
    exact growth_walked hw hstarted hfit

/-- Listing a directory that can be asked for finds every entry in it. -/
theorem mem_survey {disk : Disk} (horder : disk.InOrder) (hshort : dir.Short)
    (hentry : (disk.entry? (dir ++ [n])).isSome = true) (found : List Path)
    (warnings : List Warning) :
    Location.toPath (dir ++ [n]) ∈ (DirTree.survey disk (found, warnings) dir.toPath).1 := by
  obtain ⟨e, he⟩ := Option.isSome_iff_exists.mp hentry
  obtain ⟨hn, hdir⟩ := horder.above he
  rw [DirTree.survey_eq]
  refine List.mem_append_right _
    ((DirTree.mem_entriesOf (horder.filed_toPath hdir) horder).mpr ⟨n, hshort, hentry, ?_⟩)
  exact (Location.child_toPath (horder.names hdir) hn).symm

theorem survey_kept (disk : Disk) (found : List Path) (warnings : List Warning) (path : Path) :
    ∀ p ∈ found, p ∈ (DirTree.survey disk (found, warnings) path).1 := by
  rw [DirTree.survey_eq]
  exact fun _ hp => List.mem_append_left _ hp

theorem growth_survey (hw : Watching root maxDepth callback w) (hstarted : w.started = true)
    {event : RawEvent} {path : Path} {dirs found : List Path}
    (hfit : Fit root w.ground (.survey event path dirs found))
    (h : perform behaviour (.survey event path dirs found) w = some d) :
    GrowthEffect root maxDepth callback w (.survey event path dirs found) d := by
  obtain ⟨t, -, ht⟩ := hw.tree
  cases perform_outcome h with
  | surveyed =>
    refine .beside hw hstarted (.refl w) ?_ (fun _ _ hh => absurd hh id) ?_
    · intro j hj
      rw [List.mem_singleton.mp hj]
      exact hfit
    · rintro dir n - - (hpath | hdir | hfound)
      · exact Or.inr ⟨_, List.mem_singleton_self _, Or.inl hpath⟩
      · exact absurd hdir List.not_mem_nil
      · exact Or.inr ⟨_, List.mem_singleton_self _, Or.inr hfound⟩
  | listed _ _ first rest =>
    refine .beside hw hstarted (.warned w _) ?_ (fun _ _ hh => absurd hh id) ?_
    · intro j hj
      rw [List.mem_singleton.mp hj]
      exact hfit
    · rintro dir n hshort hentry (hpath | hdir | hfound)
      · exact Or.inr ⟨_, List.mem_singleton_self _, Or.inl hpath⟩
      · rcases List.mem_cons.mp hdir with rfl | hdir
        · exact Or.inr ⟨_, List.mem_singleton_self _,
            Or.inr (Or.inr (mem_survey ht.order hshort hentry found []))⟩
        · exact Or.inr ⟨_, List.mem_singleton_self _, Or.inr (Or.inl hdir)⟩
      · exact Or.inr ⟨_, List.mem_singleton_self _,
          Or.inr (Or.inr (survey_kept w.ground.disk found [] first _ hfound))⟩

/-! ### Handing entries over -/

theorem growth_dispatch (hw : Watching root maxDepth callback w) (hstarted : w.started = true)
    {event : RawEvent} {path : Path} {found : List Path}
    (hfit : Fit root w.ground (.dispatch event path found))
    (h : perform behaviour (.dispatch event path found) w = some d) :
    GrowthEffect root maxDepth callback w (.dispatch event path found) d := by
  obtain rfl := Option.some.inj h
  have hkind : event.kind = .create := hfit
  have hhand : w.handOverAll event path found =
      .desk (.call callback (.observe w.ground.disk .create path) .callbackPanicked) ::
        found.map (.announce callback) := by
    unfold handOverAll handOver gathers
    rw [hkind]
    simp only [Handlers.get, hw.handler]
    simp
  rw [hhand]
  -- the entry itself is called out at once, and what was found is announced
  refine .beside hw hstarted (.refl w) ?_ (fun _ _ hh => absurd hh id) ?_
  · intro j hj
    rcases List.mem_cons.mp hj with rfl | hj
    · trivial
    · obtain ⟨p, -, rfl⟩ := List.mem_map.mp hj
      trivial
  · rintro dir n - - (hpath | hfound)
    · exact Or.inr ⟨_, List.mem_cons_self, rfl, rfl, hpath⟩
    · exact Or.inr ⟨_, List.mem_cons_of_mem _ (List.mem_map_of_mem hfound), rfl, rfl⟩

theorem growth_announce (hw : Watching root maxDepth callback w) (hstarted : w.started = true)
    {c : Callback} {path : Path} (h : perform behaviour (.announce c path) w = some d) :
    GrowthEffect root maxDepth callback w (.announce c path) d := by
  obtain rfl := Option.some.inj h
  refine .beside hw hstarted (.refl w) ?_ (fun _ _ hh => absurd hh id) ?_
  · intro j hj
    rw [List.mem_singleton.mp hj]
    trivial
  · rintro dir n - - ⟨hc, hpath⟩
    exact Or.inr ⟨_, List.mem_singleton_self _, hc, rfl, hpath⟩

/-- A callback that is run was given what it was run for. -/
theorem growth_call (hw : Watching root maxDepth callback w) (hstarted : w.started = true)
    {c : Callback} {context : Context} {onPanic : Warning}
    (h : perform behaviour (.desk (.call c context onPanic)) w = some d) :
    GrowthEffect root maxDepth callback w (.desk (.call c context onPanic)) d := by
  rw [perform_record (fun _ => rfl) (by simp)] at h
  obtain rfl := Option.some.inj h
  refine .beside hw hstarted (.note w (.ran c context)) ?_ (fun _ _ hh => absurd hh id) ?_
  · intro j hj
    obtain ⟨x, hx, rfl⟩ := List.mem_map.mp hj
    rcases List.mem_append.mp hx with hx | hx
    · obtain ⟨r, -, rfl⟩ := List.mem_map.mp hx
      trivial
    · split at hx
      · rw [List.mem_singleton.mp hx]
        trivial
      · exact absurd hx List.not_mem_nil
  · rintro dir n - - ⟨rfl, hkind, hpath⟩
    exact Or.inl ⟨context, List.mem_append_right _ (List.mem_singleton_self _), hkind, hpath⟩

theorem growth_desk (hw : Watching root maxDepth callback w) (hstarted : w.started = true)
    {x : Desk.Job Wish} (hfit : Fit root w.ground (.desk x))
    (h : perform behaviour (.desk x) w = some d) :
    GrowthEffect root maxDepth callback w (.desk x) d := by
  cases x with
  | call c context onPanic => exact growth_call hw hstarted h
  | request r context =>
    cases r with
    | start =>
      obtain rfl := Option.some.inj h
      refine .beside hw hstarted (.refl w) ?_ (fun _ _ hh => absurd hh id)
        (fun _ _ _ _ hp => absurd hp id)
      intro j hj
      rw [List.mem_singleton.mp hj]
      exact Caller.noConfusion
    | stop =>
      obtain rfl := Option.some.inj h
      refine .beside hw hstarted (.refl w) ?_ (fun _ _ hh => absurd hh id)
        (fun _ _ _ _ hp => absurd hp id)
      intro j hj
      rw [List.mem_singleton.mp hj]
      trivial
  | warn x =>
    rw [perform_record (fun _ => rfl) (by simp)] at h
    obtain rfl := Option.some.inj h
    exact .beside hw hstarted (.warn w x) (fun _ hj => absurd hj List.not_mem_nil)
      (fun _ _ hh => absurd hh id) (fun _ _ _ _ hp => absurd hp id)
  | _ => exact absurd hfit id

/-! ### Taking -/

/-- A job at the service that registers nothing. -/
theorem GrowthEffect.served {next : List Job} {s s' : MemoryService}
    (hw : Watching root maxDepth callback w) (hstarted : w.started = true)
    (hs : w.ground.service = .memory s) (hobliging : s'.Obliging) (hdirs : s'.dirs = s.dirs)
    (hnext : s'.nextKey = s.nextKey) (hqueue : ∃ front, s.queue = front ++ s'.queue ∧
      ∀ b, .batch b ∈ front → ∀ e ∈ b.events, .handle b.key e ∈ next)
    (hfit : ∀ j ∈ next, Fit root w.ground j) (hheeds : ∀ dir, ¬ Heeds root w.ground dir job)
    (hpromises : ∀ dir n, ¬ Promises w.ground callback dir n job) :
    GrowthEffect root maxDepth callback w job (.andThen (w.withService (.memory s')) next) := by
  obtain ⟨front, hfront, hhandled⟩ := hqueue
  have hkeys : ∀ path, Service.keyOf? path (.memory s') = w.ground.service.keyOf? path := by
    intro path
    rw [hs]
    show (s'.dirs.find? _).map _ = (s.dirs.find? _).map _
    rw [hdirs]
  have honward : Onward w.ground ⟨.memory s', w.ground.disk⟩ :=
    ⟨.refl _, fun path key hkey => (hkeys path).trans hkey⟩
  have hsignals : w.ground.service.signals = front ++ s'.queue := by
    rw [hs]
    exact hfront
  have hwaiting : ∀ j ∈ waiting (.memory s'), j ∈ waiting w.ground.service := by
    intro j hj
    obtain ⟨signal, hsignal, hj⟩ := List.mem_flatMap.mp hj
    refine List.mem_flatMap.mpr ⟨signal, ?_, hj⟩
    rw [hsignals]
    exact List.mem_append_right _ hsignal
  obtain ⟨t, htarget, ht⟩ := hw.tree
  refine ⟨⟨⟨t, htarget, ?_⟩, hw.override, hw.handler, hw.running, ?_, ?_⟩, honward, rfl, hstarted,
    fun _ h => h, ?_, fun j hj => honward.fit (hfit j hj),
    fun dir _ hh => absurd hh (hheeds dir), fun dir n _ _ hp => absurd hp (hpromises dir n),
    fun _ dir n _ hknown => Or.inl ?_⟩
  · exact ht.grown (.refl _) ht.order hs hobliging hdirs hnext
  · intro signal hsignal
    refine hw.batches signal ?_
    rw [hsignals]
    exact List.mem_append_right _ hsignal
  · exact fun j hj => honward.fit (hw.queue j (hwaiting j hj))
  · -- an event that is no longer in the queue is among the jobs that follow
    intro j hj
    obtain ⟨signal, hsignal, hj⟩ := List.mem_flatMap.mp hj
    rw [hsignals] at hsignal
    rcases List.mem_append.mp hsignal with hsignal | hsignal
    · right
      cases signal with
      | batch b =>
        obtain ⟨e, he, rfl⟩ := List.mem_map.mp hj
        exact hhandled b hsignal e he
      | failure e => exact absurd hj List.not_mem_nil
      | closed => exact absurd hj List.not_mem_nil
    · exact Or.inl (List.mem_flatMap.mpr ⟨signal, hsignal, hj⟩)
  · have hknown : (Service.keyOf? dir.toPath (.memory s')).isSome = true := hknown
    rwa [hkeys] at hknown

theorem growth_take (hw : Watching root maxDepth callback w) (hstarted : w.started = true)
    (h : perform behaviour .take w = some d) :
    GrowthEffect root maxDepth callback w .take d ∧ d.next = [.receive] ∧ d.spawned = [] := by
  obtain ⟨t, -, ht⟩ := hw.tree
  obtain ⟨s, hs, hobliging, -⟩ := ht.service
  have henter : w.ground.service.enter = (none, .memory { s with takes := s.takes + 1 }) := by
    rw [hs]
    simp only [Service.enter, MemoryService.enter, hobliging.running, Bool.false_eq_true, if_false]
  simp only [perform, henter] at h
  obtain rfl := Option.some.inj h
  refine ⟨.served hw hstarted hs ⟨hobliging.running, hobliging.refused, hobliging.vanishing⟩ rfl rfl
    ⟨[], rfl, fun _ hb => absurd hb List.not_mem_nil⟩ ?_ (fun _ hh => absurd hh id)
    (fun _ _ hp => absurd hp id), rfl, rfl⟩
  intro j hj
  rw [List.mem_singleton.mp hj]
  trivial

/-- A batch is taken from the queue, and its events are handled next. -/
theorem growth_receive (hw : Watching root maxDepth callback w) (hstarted : w.started = true)
    (h : perform behaviour .receive w = some d) :
    GrowthEffect root maxDepth callback w .receive d ∧ (∃ b, d.next = afterTaken (.batch b)) ∧
      d.spawned = [] := by
  obtain ⟨t, -, ht⟩ := hw.tree
  obtain ⟨s, hs, hobliging, -⟩ := ht.service
  obtain ⟨r, hr, rfl⟩ := Option.map_eq_some_iff.mp h
  -- nothing but batches is ever queued here
  cases hqueue : s.queue with
  | nil =>
    rw [Service.receive_eq_none.mpr (by rw [hs]; exact hqueue)] at hr
    exact absurd hr (by simp)
  | cons signal rest =>
    obtain ⟨b, rfl⟩ := hw.batches signal (by
      rw [hs]
      show signal ∈ s.queue
      rw [hqueue]
      exact List.mem_cons_self)
    have hreceive : w.ground.service.receive =
        some (.batch b, .memory { s with queue := rest }) := by
      rw [hs]
      simp only [Service.receive, MemoryService.receive, hqueue]
      rfl
    obtain rfl := Option.some.inj (hreceive.symm.trans hr)
    have hevents : ∀ e ∈ b.events, Fit root w.ground (.handle b.key e) := by
      intro e he
      refine hw.queue _ (List.mem_flatMap.mpr ⟨.batch b, ?_, List.mem_map_of_mem he⟩)
      rw [hs]
      show Signal.batch b ∈ s.queue
      rw [hqueue]
      exact List.mem_cons_self
    -- what the batch made waiting is waiting still, now as jobs of the loop
    refine ⟨.served hw hstarted hs ⟨hobliging.running, hobliging.refused, hobliging.vanishing⟩ rfl
      rfl ⟨[.batch b], hqueue, ?_⟩ ?_ (fun _ hh => absurd hh id) (fun _ _ hp => absurd hp id),
      ⟨b, rfl⟩, rfl⟩
    · intro b' hb' e he
      obtain rfl := Signal.batch.inj (List.mem_singleton.mp hb')
      exact List.mem_append_left _ (List.mem_map_of_mem he)
    · intro j hj
      rcases List.mem_append.mp hj with hj | hj
      · obtain ⟨e, he, rfl⟩ := List.mem_map.mp hj
        exact hevents e he
      · rcases List.mem_cons.mp hj with rfl | hj
        · trivial
        · rw [List.mem_singleton.mp hj]
          trivial

theorem growth_reset (hw : Watching root maxDepth callback w) (hstarted : w.started = true)
    {key : Key} (h : perform behaviour (.reset key) w = some d) :
    GrowthEffect root maxDepth callback w (.reset key) d := by
  obtain ⟨t, -, ht⟩ := hw.tree
  obtain ⟨s, hs, hobliging, -⟩ := ht.service
  obtain rfl := Option.some.inj h
  have hreset : (w.ground.service.reset w.ground.disk key).2 =
      .memory { s with resets := s.resets ++ [key] } := by
    rw [hs]
    rfl
  rw [hreset]
  exact .served hw hstarted hs ⟨hobliging.running, hobliging.refused, hobliging.vanishing⟩ rfl rfl
    ⟨[], rfl, fun _ hb => absurd hb List.not_mem_nil⟩ (fun _ hj => absurd hj List.not_mem_nil)
    (fun _ hh => absurd hh id) (fun _ _ hp => absurd hp id)

/-! ### All jobs -/

/-- Every job carries on, but for those that stop the watch or start its loop. -/
theorem perform_growthEffect (hw : Watching root maxDepth callback w) (hstarted : w.started = true)
    (hfit : Fit root w.ground job) (hstop : job ≠ .stop) (hsubmit : ∀ caller, job ≠ .submit caller)
    (h : perform behaviour job w = some d) : GrowthEffect root maxDepth callback w job d := by
  -- jobs that heed nothing and promise nothing
  have hlater : ∀ {w' : Watch} {next : List Job}, Beside w w' →
      (∀ j ∈ next, Fit root w.ground j) → (∀ dir, ¬ Heeds root w.ground dir job) →
        (∀ dir n, ¬ Promises w.ground callback dir n job) →
          GrowthEffect root maxDepth callback w job (.andThen w' next) :=
    fun hbeside hnext hheeds hpromises => .beside hw hstarted hbeside hnext
      (fun dir _ hh => absurd hh (hheeds dir)) (fun dir n _ _ hp => absurd hp (hpromises dir n))
  cases perform_outcome h with
  -- the watch is started and not stopped
  | claimed _ hfresh => exact absurd (hstarted.symm.trans hfresh) (by simp)
  | late _ hstopped | runStopped hstopped | loopEnded hstopped =>
    exact absurd (hw.running.symm.trans hstopped) (by simp)
  | repeated =>
    refine hlater (.refl w) ?_ (fun _ hh => hfit hh.1) (fun _ _ hp => hp)
    intro j hj
    rw [List.mem_singleton.mp hj]
    trivial
  | inTime =>
    refine .beside hw hstarted (.refl w) ?_ ?_ (fun _ _ _ _ hp => absurd hp id)
    · intro j hj
      rw [List.mem_singleton.mp hj]
      trivial
    · -- whoever heeds the tree at all hands it on to the registration of the root
      exact fun dir _ hh => ⟨_, List.mem_singleton_self _, hh⟩
  | walkBegun _ t htarget =>
    -- what is heeded is all below the root, and the walk starts there
    obtain ⟨t', htarget', ht⟩ := hw.tree
    obtain rfl := Target.tree.inj (htarget.symm.trans htarget')
    refine .beside hw hstarted (.refl w) ?_ ?_ (fun _ _ _ _ hp => absurd hp id)
    · intro j hj
      rw [List.mem_singleton.mp hj]
      intro e he
      rw [List.mem_singleton.mp he]
      exact ⟨[], by rw [List.append_nil]; exact ht.top, rfl,
        by rw [List.append_nil]; exact ht.stands⟩
    · rintro dir - ⟨rel, rfl⟩
      exact ⟨_, List.mem_singleton_self _, _, List.mem_singleton_self _, root, rel, ht.top, rfl⟩
  | fileRegistered _ _ hfile | fileRefused _ _ hfile =>
    obtain ⟨t, htarget, -⟩ := hw.tree
    exact absurd (htarget.symm.trans hfile) (by simp)
  | answered =>
    exact hlater (.note w _) (fun _ hj => absurd hj List.not_mem_nil) (fun _ hh => hh)
      (fun _ _ hp => hp)
  | run | again =>
    refine hlater (.refl w) ?_ (fun _ hh => hh) (fun _ _ hp => hp)
    intro j hj
    rw [List.mem_singleton.mp hj]
    trivial
  -- the jobs that were dealt with one by one
  | taken | waiting => exact (growth_take hw hstarted h).1
  | received => exact (growth_receive hw hstarted h).1
  | handled => exact growth_handle hw hstarted hfit h
  | pickedUp => exact growth_pickUp hw hstarted hfit h
  | walked | walkBroken | walkEnded => exact growth_walk hw hstarted hfit h
  | surveyed | listed => exact growth_survey hw hstarted hfit h
  | dispatched => exact growth_dispatch hw hstarted hfit h
  | announced => exact growth_announce hw hstarted h
  | reset => exact growth_reset hw hstarted h
  | startWished | stopWished | desk => exact growth_desk hw hstarted hfit h
  -- what is left stops the watch or starts its loop
  | stopped | stoppedBefore => exact absurd rfl hstop
  | ran caller | parked caller | refused caller => exact absurd rfl (hsubmit caller)
  | closing | closeFailed | closed => exact absurd hfit id

end ChangeWatch.Growing
