import ChangeWatch.Proofs.Watch.Notified

/-!
# Nodes and registrations

A tree keeps a node under every key that its service gave it, and never removes one.  The
service forgets a key when it is reset while the directory is gone (`cancelled`); if the
directory comes back, it is registered under another key, and gets a second node.

So two keys may hold nodes of one directory, but all of them save one were cancelled, and
what is registered is always held under the key that it has now (`Mirrored`).  Every run
of a watch keeps it so (`run_mirrored`); as long as nothing was cancelled, no two keys
hold nodes of one directory.
-/

namespace ChangeWatch

namespace DirTree

/-- The directory of which a key holds a node, by its components. -/
def dirAt? (t : DirTree) (key : Key) : Option (List Component) :=
  (t.node? key).map fun node => node.dir.components

theorem dirAt?_setNode (t : DirTree) (key key' : Key) (node : Node) :
    (t.setNode key node).dirAt? key' =
      if key' = key then some node.dir.components else t.dirAt? key' := by
  unfold dirAt?
  rw [node?_setNode]
  split <;> rfl

theorem dirAt?_eq_some {t : DirTree} {key : Key} {c : List Component} :
    t.dirAt? key = some c ↔ ∃ node, t.node? key = some node ∧ node.dir.components = c :=
  Option.map_eq_some_iff

/-- Keeping a node under the key of its directory tells nothing new. -/
theorem dirAt?_setNode_known {t : DirTree} {key : Key} {node : Node}
    (h : t.dirAt? key = some node.dir.components) : (t.setNode key node).dirAt? = t.dirAt? := by
  funext key'
  rw [dirAt?_setNode]
  split
  · next heq => rw [heq, h]
  · rfl

end DirTree

namespace Notified

open Watch
open Registry (SameEntries Moved)

/-! ### What is lost -/

/-- The registration that a job cancels: that of a key which is reset while its directory is
gone. -/
def cancelled (w : Watch) : Job → List (Key × Path)
  | .reset key =>
    match w.ground.service with
    | .notifying s =>
      match s.registry.dirOf? key with
      | some dir => if s.closed || w.ground.disk.isDir dir then [] else [(key, dir)]
      | none => []
    | .memory _ => []
  | _ => []

/-- The registrations that are cancelled in the course of a run. -/
def cancellations (behaviour : Behaviour Wish) (moves : List (Move Outside)) (p : Running) :
    List (Key × Path) :=
  (setting behaviour).log (fun _ job w => cancelled w job) moves p

variable {behaviour : Behaviour Wish} {w : Watch} {job : Job} {s s' : NotifyingService}
  {t t' : DirTree} {p q : Running} {lost : List (Key × Path)}

theorem cancelled_eq_nil (h : ∀ key, job ≠ .reset key) : cancelled w job = [] := by
  cases job with
  | reset key => exact absurd rfl (h key)
  | _ => rfl

/-- A reset cancels the registration of the key, or does nothing. -/
theorem reset_cancels (hw : Over w s t) (key : Key) :
    (∃ dir, s.registry.dirOf? key = some dir ∧ cancelled w (.reset key) = [(key, dir)] ∧
      (s.reset w.ground.disk key).2 = { s with
        registry := (s.registry.eraseKey key).eraseDirOf dir key
        backend := s.backend.map fun b => b.unwatch w.ground.disk dir }) ∨
    cancelled w (.reset key) = [] ∧ (s.reset w.ground.disk key).2 = s := by
  unfold cancelled NotifyingService.reset
  simp only [hw.service]
  cases s.closed with
  | true => exact Or.inr ⟨by split <;> rfl, rfl⟩
  | false =>
    cases s.registry.dirOf? key with
    | none => exact Or.inr ⟨rfl, rfl⟩
    | some dir =>
      cases hdir : w.ground.disk.isDir dir with
      | true => exact Or.inr ⟨by simp [hdir], by simp [hdir]⟩
      | false => exact Or.inl ⟨dir, rfl, by simp [hdir], by simp [hdir]⟩

/-! ### What is kept -/

/-- How nodes and registrations go together when these registrations were cancelled. -/
structure Kept (lost : List (Key × Path)) (s : NotifyingService) (t : DirTree) : Prop where
  coherent : s.registry.Coherent
  current : ∀ e ∈ s.registry.keyEntries, t.dirAt? e.1 = some e.2
  drawn : ∀ key c, t.dirAt? key = some c → key.id < s.registry.nextKey
  /-- A node is that of a registration, unless it was cancelled or the service was closed. -/
  held : ∀ key c, t.dirAt? key = some c →
    (key, c) ∈ s.registry.keyEntries ∨ s.backend = none ∨ key ∈ lost.map (·.1)
  single : ∀ key key' c, t.dirAt? key = some c → t.dirAt? key' = some c → key ≠ key' →
    key ∈ lost.map (·.1) ∨ key' ∈ lost.map (·.1)
  gone : ∀ e ∈ lost, (∀ c, (e.1, c) ∉ s.registry.keyEntries) ∧ t.dirAt? e.1 = some e.2.components

/-- A change that makes no difference to the entries. -/
theorem Kept.same (h : Kept lost s t) (hmoved : Moved s.registry s'.registry)
    (hsame : SameEntries s.registry s'.registry) (hbackend : s.backend = none → s'.backend = none) :
    Kept lost s' t := by
  refine ⟨hmoved.coherent h.coherent, fun e he => h.current e (hsame.keys ▸ he), ?_, ?_, h.single,
    ?_⟩
  · exact fun key c hc => Nat.lt_of_lt_of_le (h.drawn key c hc) hmoved.later.counts
  · intro key c hc
    rw [hsame.keys]
    exact (h.held key c hc).imp_right (Or.imp_left hbackend)
  · rw [hsame.keys]
    exact h.gone

/-- A change that leaves the registry as it is. -/
theorem Kept.aside (h : Kept lost s t) (hregistry : s'.registry = s.registry)
    (hbackend : s.backend = none → s'.backend = none) : Kept lost s' t := by
  have hsame : SameEntries s.registry s'.registry := ⟨by rw [hregistry], by rw [hregistry]⟩
  exact h.same (.kept hsame (by rw [hregistry])) hsame hbackend

/-- A directory that is not registered gets the next key, and a node under it. -/
theorem Kept.granted (h : Kept lost s t) (hheld : s.backend ≠ none) {dir : Path}
    (hnone : s.registry.keyOf? dir = none) (hcoherent : s'.registry.Coherent)
    (hkeys : s'.registry.keyEntries =
      s.registry.keyEntries ++ [(⟨s.registry.nextKey⟩, dir.components)])
    (hnext : s'.registry.nextKey = s.registry.nextKey + 1) (depth : Nat) :
    Kept lost s' (t.setNode ⟨s.registry.nextKey⟩ ⟨dir, depth⟩) := by
  have hfresh : ∀ key c, t.dirAt? key = some c → key ≠ ⟨s.registry.nextKey⟩ := by
    rintro key c hc rfl
    exact Nat.lt_irrefl _ (h.drawn _ c hc)
  -- an older node of the directory has lost its registration
  have holder : ∀ key, t.dirAt? key = some dir.components → key ∈ lost.map (·.1) := by
    intro key hc
    have hnot : (key, dir.components) ∉ s.registry.keyEntries := by
      intro hmem
      rw [h.coherent.keyOf?_iff.mpr hmem] at hnone
      exact absurd hnone (by simp)
    exact ((h.held key _ hc).resolve_left hnot).resolve_left hheld
  refine ⟨hcoherent, ?_, ?_, ?_, ?_, ?_⟩
  · intro e he
    rw [hkeys] at he
    rw [DirTree.dirAt?_setNode]
    rcases List.mem_append.mp he with he | he
    · have hc := h.current e he
      rw [if_neg (hfresh e.1 e.2 hc), hc]
    · rw [List.mem_singleton.mp he, if_pos rfl]
  · intro key c hc
    rw [DirTree.dirAt?_setNode] at hc
    split at hc
    · next heq =>
      rw [heq, hnext]
      exact Nat.lt_succ_self _
    · rw [hnext]
      exact Nat.lt_succ_of_lt (h.drawn key c hc)
  · intro key c hc
    rw [DirTree.dirAt?_setNode] at hc
    rw [hkeys]
    split at hc
    · next heq =>
      obtain rfl := Option.some.inj hc
      exact Or.inl (List.mem_append_right _ (heq ▸ List.mem_singleton_self _))
    · refine (h.held key c hc).imp (List.mem_append_left _) (Or.imp_left fun hreleased => ?_)
      exact absurd hreleased hheld
  · intro key key' c hc hc' hne
    rw [DirTree.dirAt?_setNode] at hc hc'
    split at hc
    · next heq =>
      obtain rfl := Option.some.inj hc
      rw [if_neg fun heq' => hne (heq.trans heq'.symm)] at hc'
      exact Or.inr (holder key' hc')
    · split at hc'
      · obtain rfl := Option.some.inj hc'
        exact Or.inl (holder key hc)
      · exact h.single key key' c hc hc' hne
  · intro e he
    obtain ⟨hlost, hc⟩ := h.gone e he
    have hne := hfresh e.1 _ hc
    rw [DirTree.dirAt?_setNode, if_neg hne, hkeys]
    refine ⟨fun c hmem => ?_, hc⟩
    rcases List.mem_append.mp hmem with hmem | hmem
    · exact hlost c hmem
    · exact hne (Prod.mk.inj (List.mem_singleton.mp hmem)).1

/-- A directory is registered and kept as a node. -/
theorem Kept.enrolled (h : Kept lost s t) {disk : Disk} {dir : Path} {kinds : List EventKind}
    {key : Key} (hregister : s.register disk dir kinds = (.ok key, s')) (depth : Nat) :
    Kept lost s' (t.setNode key ⟨dir, depth⟩) := by
  have hheld : s.backend ≠ none := by
    intro hnone
    rw [s.register_of_released hnone] at hregister
    exact absurd (congrArg Prod.fst hregister) (by simp)
  have hregisters := s.registers h.coherent disk dir kinds
  rw [hregister] at hregisters
  have hmoved := hregisters.moved h.coherent
  cases hregisters with
  | @again key' _ _ hkey hsame hnext hanswer =>
    obtain rfl : key = key' := by
      rcases hanswer with heq | ⟨e, heq⟩
      · exact Except.ok.inj heq
      · exact absurd heq (by simp)
    -- the node says of the key what it said before
    have hknown : (t.setNode key ⟨dir, depth⟩).dirAt? = t.dirAt? :=
      DirTree.dirAt?_setNode_known (h.current _ (h.coherent.keyOf?_iff.mp hkey))
    have hkept := h.same hmoved hsame fun hnone => absurd hnone hheld
    refine ⟨hkept.coherent, ?_, ?_, ?_, ?_, ?_⟩ <;> rw [hknown]
    · exact hkept.current
    · exact hkept.drawn
    · exact hkept.held
    · exact hkept.single
    · exact hkept.gone
  | anew hnone hdirs hkeys hnext =>
    exact h.granted hheld hnone (hmoved.coherent h.coherent) hkeys hnext depth

/-- A registration is cancelled. -/
theorem Kept.lose (h : Kept lost s t) {key : Key} {dir : Path}
    (hdir : s.registry.dirOf? key = some dir) {disk : Disk}
    (hreset : (s.reset disk key).2 = { s with
      registry := (s.registry.eraseKey key).eraseDirOf dir key
      backend := s.backend.map fun b => b.unwatch disk dir }) :
    Kept (lost ++ [(key, dir)]) (s.reset disk key).2 t := by
  have hcoherent := (s.reset_moved h.coherent disk key).1.coherent h.coherent
  have hentry := Registry.mem_keyEntries_of_dirOf? hdir
  rw [hreset] at hcoherent ⊢
  -- the entries under this key go, and the node that stays behind is told to be lost
  have hkeys : Registry.keyEntries ((s.registry.eraseKey key).eraseDirOf dir key) =
      s.registry.keyEntries.filter fun e => e.1 ≠ key := Registry.keyEntries_eraseKey _ _
  have hlost : ∀ k, k ∈ lost.map (·.1) → k ∈ (lost ++ [(key, dir)]).map (·.1) := by
    intro k hk
    rw [List.map_append]
    exact List.mem_append_left _ hk
  refine ⟨hcoherent, ?_, h.drawn, ?_, ?_, ?_⟩
  · intro e he
    exact h.current e (List.mem_of_mem_filter (hkeys ▸ he))
  · intro k c hc
    by_cases hk : k = key
    · exact Or.inr (Or.inr (by simp [hk]))
    · rcases h.held k c hc with hmem | hnone | hmem
      · refine Or.inl ?_
        rw [hkeys]
        exact List.mem_filter.mpr ⟨hmem, decide_eq_true hk⟩
      · exact Or.inr (Or.inl (Option.map_eq_none_iff.mpr hnone))
      · exact Or.inr (Or.inr (hlost k hmem))
  · intro k k' c hc hc' hne
    exact (h.single k k' c hc hc' hne).imp (hlost k) (hlost k')
  · intro e he
    rw [hkeys]
    rcases List.mem_append.mp he with he | he
    · obtain ⟨hnone, hc⟩ := h.gone e he
      exact ⟨fun c hmem => hnone c (List.mem_of_mem_filter hmem), hc⟩
    · rw [List.mem_singleton.mp he]
      refine ⟨fun c hmem => ?_, h.current _ hentry⟩
      exact absurd (of_decide_eq_true (List.mem_filter.mp hmem).2) (by simp)

/-- All registrations are forgotten, once the backend was let go of. -/
theorem Kept.forgotten (h : Kept lost s t) (hbackend : s.backend = none) :
    Kept lost { s with registry := s.registry.clear } t := by
  refine ⟨⟨rfl, List.nodup_nil, List.nodup_nil, ?_⟩, ?_, h.drawn, ?_, h.single, ?_⟩
  · exact fun e he => absurd he List.not_mem_nil
  · exact fun e he => absurd he List.not_mem_nil
  · exact fun key c hc => Or.inr (Or.inl hbackend)
  · exact fun e he => ⟨fun c => List.not_mem_nil, (h.gone e he).2⟩

/-! ### Every move -/

/-- What a job makes of nodes and registrations. -/
theorem Kept.after (h : Kept lost s t) (hw : Over w s t) (heffect : NodeEffect w s t job s' t')
    (hforget : job = .close .forget → s.backend = none) :
    Kept (lost ++ cancelled w job) s' t' ∧ (s.backend = none → s'.backend = none) := by
  -- entering a directory adds an entry, and a reset loses one whose directory is gone
  cases heffect with
  | enrolled purpose dir depth rest registered hregister =>
    rw [cancelled_eq_nil (by simp), List.append_nil]
    refine ⟨h.enrolled hregister depth, fun hnone => ?_⟩
    rw [s.register_of_released hnone] at hregister
    exact absurd (congrArg Prod.fst hregister) (by simp)
  | refused purpose dir depth rest registered hregister =>
    rw [cancelled_eq_nil (by simp), List.append_nil]
    have hbackend : s.backend = none → s'.backend = none := by
      intro hnone
      rw [s.register_of_released hnone] at hregister
      rw [← (Prod.mk.inj hregister).2]
      exact hnone
    have hregisters := s.registers h.coherent w.ground.disk dir w.kinds
    rw [hregister] at hregisters
    exact ⟨h.same (hregisters.moved h.coherent) hregisters.same_of_error hbackend, hbackend⟩
  | reset key =>
    rcases reset_cancels hw key with ⟨dir, hdir, hcancelled, hreset⟩ | ⟨hcancelled, hreset⟩
    · rw [hcancelled]
      refine ⟨h.lose hdir hreset, fun hnone => ?_⟩
      rw [hreset]
      exact Option.map_eq_none_iff.mpr hnone
    · rw [hcancelled, hreset, List.append_nil]
      exact ⟨h, id⟩
  | close step =>
    rw [cancelled_eq_nil (by simp), List.append_nil]
    cases step with
    | mark => exact ⟨h.aside rfl id, id⟩
    | release => exact ⟨h.aside rfl fun _ => rfl, fun _ => rfl⟩
    | forget => exact ⟨h.forgotten (hforget rfl), id⟩
    | signal => exact ⟨h.aside rfl id, id⟩
  | aside hreset hclose hregistry hbackend =>
    rw [cancelled_eq_nil hreset, List.append_nil]
    have hnone : s.backend = none → s'.backend = none := hbackend.trans
    exact ⟨h.aside hregistry hnone, hnone⟩

/-- Registrations are forgotten only after the backend was let go of. -/
theorem forget_follows {d : Done Watch Job} (hd : perform behaviour job w = some d)
    (hw : Over w s t) (hover : Over d.state s' t') (hmem : .close .forget ∈ d.next) :
    s'.backend = none := by
  cases (perform_threadEffect hd).next _ hmem with
  | rootRefused _ _ hj | walkFailed _ _ _ _ hj | submitRefused _ _ hj =>
    exact absurd (startFailed_plain hj).1 (by simp [Job.stops])
  | taken _ hj | received _ hj => exact absurd (afterTaken_plain hj).1 (by simp [Job.stops])
  | stop _ hj | broken _ _ _ _ hj => exact absurd hj (by simp)
  | @close step next hnext =>
    rw [hw.service] at hnext
    obtain rfl := Option.some.inj hd
    have hservice : (w.ground.service.closeStep step).1 = .notifying s' := hover.service
    rw [hw.service] at hservice
    obtain rfl := Service.notifying.inj hservice
    cases step with
    | release => rfl
    | mark =>
      have hnext : CloseStep.forget ∈ (if s.closed then none else some CloseStep.release) := hnext
      split at hnext <;> exact absurd hnext (by simp)
    | forget => exact absurd (show CloseStep.forget ∈ some CloseStep.signal from hnext) (by simp)
    | signal => exact absurd (show CloseStep.forget ∈ none from hnext) (by simp)

/-- Nodes and registrations go together at the watch of a pool. -/
structure Tended (lost : List (Key × Path)) (p : Running) : Prop where
  kept : ∃ s t, Over p.state s t ∧ Kept lost s t ∧ (.close .forget ∈ p.jobs → s.backend = none)
  parked : ∀ j ∈ p.state.executor.parked, j = .run

theorem Tended.step {i : Nat} (hp : Tended lost p)
    (hstep : p.step (machine behaviour) i = some q) :
    Tended (lost ++ Setting.noted (fun _ job w => cancelled w job) (.job i : Move Outside) p) q := by
  obtain ⟨⟨s, t, hover, hkept, hforget⟩, hparked⟩ := hp
  obtain ⟨job, rest, d, hi, hd, rfl⟩ := Pool.step_eq_some hstep
  have hjobs : Pool.JobStep p ⟨d.state, p.threads.set i (d.next ++ rest) ++ d.spawned⟩ job d :=
    Pool.jobs_of_set hi
  obtain ⟨s', t', hover', heffect⟩ := perform_nodeEffect hd hover
  obtain ⟨hkept', hbackend⟩ := hkept.after hover heffect fun heq => hforget (heq ▸ hjobs.before)
  rw [Setting.noted_job hi]
  refine ⟨⟨s', t', hover', hkept', fun hmem => ?_⟩, fun j hj => ?_⟩
  · rcases hjobs.known _ hmem with hmem | hmem | ⟨thread, hthread, hmem⟩
    · exact forget_follows hd hover hover' hmem
    · exact hbackend (hforget hmem)
    · rcases (perform_threadEffect hd).spawned with hnone | ⟨hloop, -⟩
      · exact absurd (hnone ▸ hthread) List.not_mem_nil
      · rw [hloop] at hthread
        rw [List.mem_singleton.mp hthread] at hmem
        exact absurd (List.mem_singleton.mp hmem) (by simp)
  · rcases (Lifecycle.perform_lifecycleEffect hd).earns.parked j hj with hj | ⟨hrun, -, -⟩
    · exact hparked j hj
    · exact hrun

theorem Tended.outside {e : Outside} (hp : Tended lost p) (h : Notified.outside e p = some q) :
    Tended lost q := by
  obtain ⟨⟨s, t, hover, hkept, hforget⟩, hparked⟩ := hp
  obtain ⟨s', hover', hregistry, hbackend⟩ := outside_aside h hover
  obtain ⟨more, harrival⟩ := Lifecycle.outside_arrival h
  have hkept' : Kept lost s' t := hkept.aside hregistry hbackend.mpr
  refine ⟨⟨s', t, hover', hkept', fun hmem => ?_⟩, fun j hj => hparked j (harrival.parked j hj)⟩
  rw [harrival.jobs] at hmem
  rcases List.mem_append.mp hmem with hmem | hmem
  · exact hbackend.mpr (hforget hmem)
  · exact absurd (harrival.aside hparked _ hmem).2.1 (by simp [Job.stops])

/-! ### All runs -/

/-- What nodes say of registrations when these registrations were cancelled. -/
structure Mirrored (lost : List (Key × Path)) (s : NotifyingService) (t : DirTree) : Prop where
  /-- The node of a directory that is registered is held under its key. -/
  current : ∀ dir key, s.registry.keyOf? dir = some key →
    ∃ node, t.node? key = some node ∧ node.dir.same dir = true
  /-- Of two keys that hold nodes of one directory, one was cancelled. -/
  single : ∀ key key' node node', t.node? key = some node → t.node? key' = some node' →
    node.dir.same node'.dir = true → key ≠ key' → key ∈ lost.map (·.1) ∨ key' ∈ lost.map (·.1)
  /-- What was cancelled is not registered again, and its node stays. -/
  gone : ∀ key dir, (key, dir) ∈ lost → s.registry.dirOf? key = none ∧
    ∃ node, t.node? key = some node ∧ node.dir.same dir = true

theorem Kept.mirrored (h : Kept lost s t) : Mirrored lost s t := by
  refine ⟨?_, ?_, ?_⟩
  · intro dir key hkey
    obtain ⟨node, hnode, hdir⟩ := DirTree.dirAt?_eq_some.mp
      (h.current _ (h.coherent.keyOf?_iff.mp hkey))
    exact ⟨node, hnode, Path.same_iff.mpr hdir⟩
  · intro key key' node node' hnode hnode' hsame hne
    exact h.single key key' node'.dir.components
      (DirTree.dirAt?_eq_some.mpr ⟨node, hnode, Path.same_iff.mp hsame⟩)
      (DirTree.dirAt?_eq_some.mpr ⟨node', hnode', rfl⟩) hne
  · intro key dir hmem
    obtain ⟨hnone, hdir⟩ := h.gone _ hmem
    obtain ⟨node, hnode, hsame⟩ := DirTree.dirAt?_eq_some.mp hdir
    exact ⟨Registry.dirOf?_eq_none_iff.mpr hnone, node, hnode, Path.same_iff.mpr hsame⟩

variable {root : Path} {maxDepth : Nat} {override : Override} {handlers : Handlers}
  {options : Watch.Options} {disk : Disk} {moves : List (Move Outside)}

/-- A watch that was just built is over a service that was never used. -/
theorem over_new (hservice : options.service = none ∨ options.service = some (.notifying .new))
    (hnew : Watch.new ⟨.tree ⟨root, maxDepth, []⟩, override⟩ handlers options disk = .ok w) :
    Over w .new ⟨root, maxDepth, []⟩ := by
  refine ⟨?_, congrArg Strategy.target (fresh_of_new hnew).strategy_eq⟩
  unfold Watch.new at hnew
  split at hnew
  · exact absurd hnew (by simp)
  · obtain rfl := Except.ok.inj hnew
    rcases hservice with hservice | hservice <;> rw [hservice] <;> rfl

/-- A watch that was just built has no nodes and no registrations. -/
theorem tended_new (hservice : options.service = none ∨ options.service = some (.notifying .new))
    (hnew : Watch.new ⟨.tree ⟨root, maxDepth, []⟩, override⟩ handlers options disk = .ok w) :
    Tended [] (Running.ofWatch w) := by
  refine ⟨⟨.new, ⟨root, maxDepth, []⟩, over_new hservice hnew, ?_,
    fun hmem => absurd hmem List.not_mem_nil⟩, ?_⟩
  · refine ⟨Registry.coherent_empty, ?_, ?_, ?_, ?_, ?_⟩
    · exact fun e he => absurd he List.not_mem_nil
    · exact fun key c hc => absurd hc (by simp [DirTree.dirAt?, DirTree.node?])
    · exact fun key c hc => absurd hc (by simp [DirTree.dirAt?, DirTree.node?])
    · exact fun key key' c hc => absurd hc (by simp [DirTree.dirAt?, DirTree.node?])
    · exact fun e he => absurd he List.not_mem_nil
  · intro j hj
    have hnone : (Running.ofWatch w).state.executor.parked = [] := (fresh_of_new hnew).parked_eq
    rw [hnone] at hj
    exact absurd hj List.not_mem_nil

/-- In every state of every run: a directory that is registered has its node under the key that
it has now; of two keys that hold nodes of one directory one was reset while the directory was
gone; and such a key is never registered again, but its node stays. -/
theorem run_mirrored
    (hservice : options.service = none ∨ options.service = some (.notifying .new))
    (hnew : Watch.new ⟨.tree ⟨root, maxDepth, []⟩, override⟩ handlers options disk = .ok w)
    (hrun : (setting behaviour).run? moves (Running.ofWatch w) = some p) :
    ∃ s t, Over p.state s t ∧
      Mirrored (cancellations behaviour moves (Running.ofWatch w)) s t := by
  have htended : Tended ([] ++ cancellations behaviour moves (Running.ofWatch w)) p := by
    refine Setting.preserved_log (fun lost p a q hp hmove => ?_) (tended_new hservice hnew) hrun
    cases a with
    | job i => exact hp.step hmove
    | outside e =>
      rw [Setting.noted_outside, List.append_nil]
      exact hp.outside hmove
  obtain ⟨⟨s, t, hover, hkept, -⟩, -⟩ := htended
  exact ⟨s, t, hover, hkept.mirrored⟩

/-! ### A directory that comes back -/

/-- The root `w`. -/
def bareDisk : Disk := Disk.empty.put [[119]] .dir

/-- The root with a directory `a` in it. -/
def fullDisk : Disk := bareDisk.put [[119], [97]] .dir

/-- The same, and a link `l` to the root itself. -/
def linkedDisk : Disk := fullDisk.put [[119], [108]] (.link ⟨[46]⟩)

/-- A watch that is ready to watch the root, two levels down. -/
def treeWatch : Watch where
  strategy := ⟨.tree ⟨Location.toPath [[119]], 2, []⟩, .none⟩
  handlers := ⟨some ⟨0⟩, none, none, none⟩
  kinds := [.create]
  delay := defaultDelay
  backend := .default
  ground := ⟨.notifying .new, fullDisk⟩
  executor := .new .ownThread
  desk := ⟨debouncerFor defaultDelay none, .empty⟩
  started := false
  stopped := false
  handled := 0

/-- The watch is started; `a` is deleted, something is told of it, and when that is handled it is
made again. -/
def returning : List (Move Outside) :=
  .outside .start :: List.replicate 11 (.job 0) ++ List.replicate 2 (.job 1) ++
    [.outside (.change bareDisk []),
      .outside (.report ⟨.create, [Location.toPath [[119], [97], [103]]], false⟩)] ++
    List.replicate 8 (.job 1) ++
    [.outside (.change fullDisk []),
      .outside (.report ⟨.create, [Location.toPath [[119], [97]]], false⟩)] ++
    List.replicate 14 (.job 1)

/-- The link is made. -/
def linking : List (Move Outside) :=
  [.outside (.change linkedDisk []),
    .outside (.report ⟨.create, [Location.toPath [[119], [108]]], false⟩)] ++
    List.replicate 14 (.job 1)

/-- A directory that comes back is held under its new key, and under no other but the one that
was reset while it was gone. -/
theorem returning_directory_has_a_current_node : ∃ p s t,
    Watch.new ⟨.tree ⟨Location.toPath [[119]], 2, []⟩, .none⟩ ⟨some ⟨0⟩, none, none, none⟩ .default
      fullDisk = .ok treeWatch ∧
    (setting fun _ _ _ => .none).run? returning (Running.ofWatch treeWatch) = some p ∧
    Over p.state s t ∧ s.registry.keyOf? (Location.toPath [[119], [97]]) = some ⟨2⟩ ∧
    s.registry.dirOf? ⟨1⟩ = none ∧
    (∃ node, t.node? ⟨2⟩ = some node ∧ node.dir.same (Location.toPath [[119], [97]]) = true) ∧
    ∀ key node, t.node? key = some node →
      node.dir.same (Location.toPath [[119], [97]]) = true → key = ⟨1⟩ ∨ key = ⟨2⟩ := by
  have hkey : ((setting fun _ _ _ => .none).run? returning (Running.ofWatch treeWatch)).map
      (fun p => p.state.ground.service.keyOf? (Location.toPath [[119], [97]])) =
      some (some ⟨2⟩) := by
    decide +kernel
  have hlost : cancellations (fun _ _ _ => .none) returning (Running.ofWatch treeWatch) =
      [(⟨1⟩, Location.toPath [[119], [97]])] := by
    decide +kernel
  obtain ⟨p, hrun, hkey⟩ := Option.map_eq_some_iff.mp hkey
  have hnew : Watch.new ⟨.tree ⟨Location.toPath [[119]], 2, []⟩, .none⟩
      ⟨some ⟨0⟩, none, none, none⟩ .default fullDisk = .ok treeWatch := rfl
  obtain ⟨s, t, hover, hmirrored⟩ := run_mirrored (Or.inl rfl) hnew hrun
  rw [hlost] at hmirrored
  rw [hover.service] at hkey
  obtain ⟨node, hnode, hdir⟩ := hmirrored.current _ _ hkey
  refine ⟨p, s, t, hnew, hrun, hover, hkey, (hmirrored.gone _ _ (List.mem_singleton_self _)).1,
    ⟨node, hnode, hdir⟩, fun key other hother hsame => ?_⟩
  by_cases hne : key = ⟨2⟩
  · exact Or.inr hne
  · have hboth : other.dir.same node.dir = true :=
      Path.same_iff.mpr ((Path.same_iff.mp hsame).trans (Path.same_iff.mp hdir).symm)
    rcases hmirrored.single key ⟨2⟩ other node hother hnode hboth hne with hmem | hmem
    · exact Or.inl (List.mem_singleton.mp hmem)
    · exact absurd hmem (by simp)

/-- While the loop waits for the next batch, two keys hold nodes of one path: the directory was
deleted, its key was reset, and it was made again.  A link then brings the same directory a third
key, by another path. -/
theorem returning_directory_keeps_its_old_node : ∃ p t,
    DirTree.prepare fullDisk (Location.toPath [[119]]) 2 =
      (.ok ⟨Location.toPath [[119]], 2, []⟩, fullDisk) ∧
    Watch.new ⟨.tree ⟨Location.toPath [[119]], 2, []⟩, .none⟩ ⟨some ⟨0⟩, none, none, none⟩ .default
      fullDisk = .ok treeWatch ∧
    (setting fun _ _ _ => .none).run? (returning ++ linking) (Running.ofWatch treeWatch) = some p ∧
    p.threads = [[], [.receive]] ∧ p.state.strategy.target = .tree t ∧
    t.node? ⟨1⟩ = some ⟨Location.toPath [[119], [97]], 1⟩ ∧
    t.node? ⟨2⟩ = some ⟨Location.toPath [[119], [97]], 1⟩ ∧
    p.state.ground.service.keyOf? (Location.toPath [[119], [97]]) = some ⟨2⟩ ∧
    t.node? ⟨3⟩ = some ⟨Location.toPath [[119], [108], [97]], 2⟩ ∧
    p.state.ground.service.keyOf? (Location.toPath [[119], [108], [97]]) = some ⟨3⟩ ∧
    p.state.ground.disk.stat (Location.toPath [[119], [108], [97]]) =
      p.state.ground.disk.stat (Location.toPath [[119], [97]]) := by
  let t : DirTree := ⟨Location.toPath [[119]], 2,
    [(⟨0⟩, ⟨Location.toPath [[119]], 0⟩), (⟨1⟩, ⟨Location.toPath [[119], [97]], 1⟩),
      (⟨2⟩, ⟨Location.toPath [[119], [97]], 1⟩), (⟨3⟩, ⟨Location.toPath [[119], [108], [97]], 2⟩)]⟩
  have hlook : ((setting fun _ _ _ => .none).run? (returning ++ linking)
      (Running.ofWatch treeWatch)).map (fun p => (p.threads, p.state.strategy.target,
        p.state.ground.service.keyOf? (Location.toPath [[119], [97]]),
        p.state.ground.service.keyOf? (Location.toPath [[119], [108], [97]]),
        p.state.ground.disk)) =
      some ([[], [.receive]], .tree t, some ⟨2⟩, some ⟨3⟩, linkedDisk) := by
    decide +kernel
  obtain ⟨p, hrun, hlook⟩ := Option.map_eq_some_iff.mp hlook
  obtain ⟨hthreads, hlook⟩ := Prod.mk.inj hlook
  obtain ⟨htarget, hlook⟩ := Prod.mk.inj hlook
  obtain ⟨hkey, hlook⟩ := Prod.mk.inj hlook
  obtain ⟨hlinked, hdisk⟩ := Prod.mk.inj hlook
  refine ⟨p, t, by decide +kernel, rfl, hrun, hthreads, htarget, rfl, rfl, hkey, rfl, hlinked, ?_⟩
  rw [hdisk]
  rfl

end Notified

end ChangeWatch
