import ChangeWatch.Proofs.Service.Translating
import ChangeWatch.Proofs.Watch.Nodes

/-!
# Resolving undoes translating

At a watch over a tree, what a report is translated to names entries of registered
directories, each under the key of its directory.  A tree knows the directory of every key
that is registered, and what it knows of a key it knows for good (`DirTree.Keeps`,
`run_keeps`), so each entry is resolved to the path that was reported, now and at any later
time, whatever was registered, reset or deleted in between (`run_resolves_reports`).  What
is not translated is of a kind that nobody subscribed to, or has no last name, or is in no
directory that is registered.
-/

namespace ChangeWatch

namespace Watch

variable {behaviour : Behaviour Wish} {w : Watch} {job : Job} {d : Done Watch Job}

/-- The kinds to register stay what they are. -/
theorem perform_kinds (h : perform behaviour job w = some d) : d.state.kinds = w.kinds := by
  cases perform_outcome h <;> rfl

end Watch

/-! ### What a tree knows -/

namespace DirTree

variable {t t' t'' : DirTree} {key : Key} {event : RawEvent} {c : List Component}

/-- What one tree knows of the directory of a key, the other knows too. -/
def Keeps (t t' : DirTree) : Prop :=
  ∀ key c, t.dirAt? key = some c → t'.dirAt? key = some c

theorem Keeps.refl (t : DirTree) : t.Keeps t := fun _ _ h => h

theorem Keeps.trans (h : t.Keeps t') (h' : t'.Keeps t'') : t.Keeps t'' :=
  fun key c hc => h' key c (h key c hc)

/-- An event without a name is resolved to the directory of its key. -/
theorem resolve_nameless (h : t.dirAt? key = some c) (hname : event.name = none) :
    ∃ p, t.resolve key event = some p ∧ p.components = c := by
  obtain ⟨node, hnode, rfl⟩ := dirAt?_eq_some.mp h
  refine ⟨node.dir, ?_, rfl⟩
  unfold resolve
  rw [hnode, hname]
  rfl

/-- An event with a proper name is resolved to the entry of this name. -/
theorem resolve_named (h : t.dirAt? key = some c) {name : Bytes} (hname : event.name = some ⟨name⟩)
    (hnormal : Path.Normal name) :
    ∃ p, t.resolve key event = some p ∧ p.components = c ++ [.name name] := by
  obtain ⟨node, hnode, rfl⟩ := dirAt?_eq_some.mp h
  refine ⟨node.dir.child name, ?_, node.dir.components_child hnormal⟩
  unfold resolve
  rw [hnode, hname]
  rfl

end DirTree

namespace Notified

open Watch

variable {behaviour : Behaviour Wish} {w : Watch} {job : Job} {s s' : NotifyingService}
  {t t' : DirTree} {p q : Running} {lost : List (Key × Path)} {kinds : List EventKind}
  {moves : List (Move Outside)}

/-- What a watch is over is there once. -/
theorem Over.unique (h : Over w s t) (h' : Over w s' t') : s = s' ∧ t = t' :=
  ⟨Service.notifying.inj (h.service.symm.trans h'.service),
    Target.tree.inj (h.target.symm.trans h'.target)⟩

/-- A directory that is given a key is what is known of this key, if anything is. -/
theorem Kept.dirAt?_eq (h : Kept lost s t) {disk : Disk} {dir : Path} {kinds : List EventKind}
    {key : Key} {c : List Component} (hregister : s.register disk dir kinds = (.ok key, s'))
    (hc : t.dirAt? key = some c) : c = dir.components := by
  have hregisters := s.registers h.coherent disk dir kinds
  rw [hregister] at hregisters
  -- a key that has a node was drawn, so it is the one that the directory had
  cases hregisters with
  | again hkey _ _ hanswer =>
    rcases hanswer with heq | ⟨e, heq⟩
    · obtain rfl := Except.ok.inj heq
      have hcurrent := h.current _ (h.coherent.keyOf?_iff.mp hkey)
      exact Option.some.inj (hc.symm.trans hcurrent)
    · exact absurd heq (by simp)
  | anew => exact absurd (h.drawn _ c hc) (Nat.lt_irrefl _)

/-- What is known of a key stays known, whatever job is done. -/
theorem Kept.keeps (h : Kept lost s t) (heffect : NodeEffect w s t job s' t') : t.Keeps t' := by
  cases heffect with
  | enrolled purpose dir depth rest registered hregister =>
    intro key' c hc
    rw [DirTree.dirAt?_setNode]
    split
    · next heq =>
      subst heq
      rw [h.dirAt?_eq hregister hc]
    · exact hc
  | refused | reset | close | aside => exact .refl _

/-! ### Every move -/

/-- The watch is over a service of which all directories are registered for these kinds, and
registers others for them too. -/
structure Subscribes (kinds : List EventKind) (p : Running) : Prop where
  service : ∃ s t, Over p.state s t ∧ s.registry.Subscribed kinds
  kinds_eq : p.state.kinds = kinds

theorem Subscribes.step {i : Nat} (hp : Subscribes kinds p)
    (hstep : p.step (machine behaviour) i = some q) : Subscribes kinds q := by
  obtain ⟨⟨s, t, hover, hsubscribed⟩, rfl⟩ := hp
  obtain ⟨job, rest, d, -, hd, rfl⟩ := Pool.step_eq_some hstep
  obtain ⟨s', t', hover', heffect⟩ := perform_nodeEffect hd hover
  refine ⟨⟨s', t', hover', ?_⟩, perform_kinds hd⟩
  cases heffect with
  | enrolled purpose dir depth rest registered hregister
  | refused purpose dir depth rest registered hregister =>
    have hkept := NotifyingService.register_subscribed hsubscribed p.state.ground.disk dir
    rw [hregister] at hkept
    exact hkept
  | reset key => exact NotifyingService.reset_subscribed hsubscribed _ key
  | close step => exact NotifyingService.closeStep_subscribed hsubscribed step
  | aside _ _ hregistry => rwa [hregistry]

/-- What comes from outside changes no kinds. -/
theorem outside_kinds {e : Outside} (h : outside e p = some q) : q.state.kinds = p.state.kinds := by
  unfold Notified.outside at h
  generalize e.told p.state.ground = told at h
  cases told with
  | dispatch n =>
    obtain ⟨r, -, rfl⟩ := Option.map_eq_some_iff.mp h
    rfl
  | ground g =>
    simp only [Lifecycle.outside] at h
    split at h
    · exact absurd h (by simp)
    · obtain rfl := Option.some.inj h
      rfl
  | _ =>
    obtain rfl := Option.some.inj h
    rfl

theorem Subscribes.outside {e : Outside} (hp : Subscribes kinds p)
    (h : Notified.outside e p = some q) : Subscribes kinds q := by
  obtain ⟨⟨s, t, hover, hsubscribed⟩, hkinds⟩ := hp
  obtain ⟨s', hover', hregistry, -⟩ := outside_aside h hover
  exact ⟨⟨s', t, hover', by rwa [hregistry]⟩, (outside_kinds h).trans hkinds⟩

/-- In every state of a run nodes and registrations go together, and all registrations are for
the kinds of the watch. -/
structure Steady (kinds : List EventKind) (p : Running) : Prop where
  tended : ∃ lost, Tended lost p
  subscribes : Subscribes kinds p

theorem Steady.move {a : Move Outside} (hp : Steady kinds p)
    (hmove : (setting behaviour).move a p = some q) : Steady kinds q := by
  obtain ⟨⟨lost, htended⟩, hsubscribes⟩ := hp
  cases a with
  | job i => exact ⟨⟨_, htended.step hmove⟩, hsubscribes.step hmove⟩
  | outside e => exact ⟨⟨lost, htended.outside hmove⟩, hsubscribes.outside hmove⟩

/-- What is known of a key stays known in one move. -/
theorem Steady.keeps {a : Move Outside} (hp : Steady kinds p)
    (hmove : (setting behaviour).move a p = some q) (hover : Over p.state s t)
    (hover' : Over q.state s' t') : t.Keeps t' := by
  obtain ⟨lost, ⟨s₀, t₀, hover₀, hkept, -⟩, -⟩ := hp.tended
  obtain ⟨rfl, rfl⟩ := hover₀.unique hover
  cases a with
  | job i =>
    obtain ⟨job, rest, d, -, hd, rfl⟩ := Pool.step_eq_some hmove
    obtain ⟨s₁, t₁, hover₁, heffect⟩ := perform_nodeEffect hd hover
    obtain ⟨-, rfl⟩ := hover₁.unique hover'
    exact hkept.keeps heffect
  | outside e =>
    obtain ⟨s₁, hover₁, -, -⟩ := outside_aside hmove hover
    obtain ⟨-, rfl⟩ := hover₁.unique hover'
    exact .refl _

theorem Steady.over (hp : Steady kinds p) : ∃ s t, Over p.state s t := by
  obtain ⟨⟨s, t, hover, -⟩, -⟩ := hp.subscribes
  exact ⟨s, t, hover⟩

/-- What is known of a key is known for good. -/
theorem run_keeps (hp : Steady kinds p) (hrun : (setting behaviour).run? moves p = some q)
    (hover : Over p.state s t) (hover' : Over q.state s' t') : t.Keeps t' := by
  have hkeeps : Steady kinds q ∧ ∃ s₁ t₁, Over q.state s₁ t₁ ∧ t.Keeps t₁ := by
    refine Setting.preserved (I := fun r => Steady kinds r ∧ ∃ s₁ t₁, Over r.state s₁ t₁ ∧
      t.Keeps t₁) (fun r a r' hr hmove => ?_) ⟨hp, s, t, hover, .refl t⟩ hrun
    obtain ⟨hsteady, s₁, t₁, hover₁, hkept⟩ := hr
    have hsteady' := hsteady.move hmove
    obtain ⟨s₂, t₂, hover₂⟩ := hsteady'.over
    exact ⟨hsteady', s₂, t₂, hover₂, hkept.trans (hsteady.keeps hmove hover₁ hover₂)⟩
  obtain ⟨-, s₁, t₁, hover₁, hkept⟩ := hkeeps
  obtain ⟨-, rfl⟩ := hover₁.unique hover'
  exact hkept

/-! ### All runs -/

variable {root : Path} {maxDepth : Nat} {override : Override} {handlers : Handlers}
  {options : Watch.Options} {disk : Disk} {later : List (Move Outside)}

theorem run_steady (hservice : options.service = none ∨ options.service = some (.notifying .new))
    (hnew : Watch.new ⟨.tree ⟨root, maxDepth, []⟩, override⟩ handlers options disk = .ok w)
    (hrun : (setting behaviour).run? moves (Running.ofWatch w) = some p) : Steady w.kinds p := by
  have hsubscribes : Subscribes w.kinds (Running.ofWatch w) :=
    ⟨⟨.new, _, over_new hservice hnew, fun e he => absurd he List.not_mem_nil⟩, rfl⟩
  exact Setting.preserved (fun r a r' hr hmove => hr.move hmove)
    ⟨⟨[], tended_new hservice hnew⟩, hsubscribes⟩ hrun

/-- In every state of every run, and however late it is looked up: what a report is translated
to stands one to one, in order, for the changes reported that are of a subscribed kind, have a
last name and are in a registered directory; and each event is resolved, under the key of its
batch, to the path that was reported. -/
theorem run_resolves_reports
    (hservice : options.service = none ∨ options.service = some (.notifying .new))
    (hnew : Watch.new ⟨.tree ⟨root, maxDepth, []⟩, override⟩ handlers options disk = .ok w)
    (hrun : (setting behaviour).run? moves (Running.ofWatch w) = some p)
    (hlater : (setting behaviour).run? later p = some q) :
    ∃ s t s' t', Over p.state s t ∧ Over q.state s' t' ∧
      ∀ (disk : Disk) (report : Report), report.rescan = false →
        List.Forall₂
          (fun entry change => entry.2.kind = change.1 ∧
            ∃ path, t'.resolve entry.1 entry.2 = some path ∧ path.same change.2 = true)
          ((s.registry.translate disk report).flatMap Batch.entries)
          ((report.changes disk).filter (s.registry.hears w.kinds)) := by
  have hsteady := run_steady hservice hnew hrun
  have hsteady' : Steady w.kinds q :=
    Setting.preserved (fun r a r' hr hmove => hr.move hmove) hsteady hlater
  obtain ⟨lost, ⟨s, t, hover, hkept, -⟩, -⟩ := hsteady.tended
  obtain ⟨s', t', hover'⟩ := hsteady'.over
  obtain ⟨⟨s₁, t₁, hover₁, hsubscribed⟩, -⟩ := hsteady.subscribes
  obtain ⟨rfl, rfl⟩ := hover₁.unique hover
  refine ⟨s₁, t₁, s', t', hover, hover', fun disk report hscan => ?_⟩
  refine (Registry.translate_hears hsubscribed disk hscan).imp ?_
  rintro entry change ⟨hkind, parent, name, hkey, hnormal, hname, hcomponents⟩
  have hknown := hkept.current _ (hkept.coherent.keyOf?_iff.mp hkey)
  have hstill := run_keeps hsteady hlater hover hover' _ _ hknown
  obtain ⟨path, hpath, hpath'⟩ := DirTree.resolve_named hstill hname hnormal
  exact ⟨hkind, path, hpath, Path.same_iff.mpr (hpath'.trans hcomponents.symm)⟩

/-! ### A batch that is late -/

/-- The directory `a` is deleted, and its key is reset. -/
def losing : List (Move Outside) :=
  [.outside (.change bareDisk []),
    .outside (.report ⟨.create, [Location.toPath [[119], [97], [103]]], false⟩)] ++
    List.replicate 8 (.job 1)

/-- A path in the directory `a`, one in a directory that is not watched, and the root itself. -/
def mixedReport : Report :=
  ⟨.create, [Location.toPath [[119], [97], [120]], Location.toPath [[119], [122], [121]],
    Location.toPath [[119]]], false⟩

/-- What a service makes of the report, and what it hears of it. -/
def mixedEntries : Service → List (Key × RawEvent) × List (EventKind × Path)
  | .notifying s => ((s.registry.translate fullDisk mixedReport).flatMap Batch.entries,
      (mixedReport.changes fullDisk).filter (s.registry.hears [.create]))
  | .memory _ => ([], [])

/-- What was translated while a directory was registered is resolved to the path reported even
after the directory was deleted and its key reset. -/
theorem late_batch_resolves : ∃ p q s t s' t',
    Watch.new ⟨.tree ⟨Location.toPath [[119]], 2, []⟩, .none⟩ ⟨some ⟨0⟩, none, none, none⟩ .default
      fullDisk = .ok treeWatch ∧
    (setting fun _ _ _ => .none).run? returning (Running.ofWatch treeWatch) = some p ∧
    (setting fun _ _ _ => .none).run? losing p = some q ∧
    Over p.state s t ∧ Over q.state s' t' ∧
    s'.registry.keyOf? (Location.toPath [[119], [97]]) = none ∧
    (s.registry.translate fullDisk mixedReport).flatMap Batch.entries =
      [(⟨2⟩, ⟨.create, some ⟨[120]⟩⟩)] ∧
    ∃ path, t'.resolve ⟨2⟩ ⟨.create, some ⟨[120]⟩⟩ = some path ∧
      path.same (Location.toPath [[119], [97], [120]]) = true := by
  have hnew : Watch.new ⟨.tree ⟨Location.toPath [[119]], 2, []⟩, .none⟩
      ⟨some ⟨0⟩, none, none, none⟩ .default fullDisk = .ok treeWatch := rfl
  have hlook : ((setting fun _ _ _ => .none).run? returning (Running.ofWatch treeWatch)).bind
      (fun p => ((setting fun _ _ _ => .none).run? losing p).map fun q =>
        (mixedEntries p.state.ground.service,
          q.state.ground.service.keyOf? (Location.toPath [[119], [97]]))) =
      some (([(⟨2⟩, ⟨.create, some ⟨[120]⟩⟩)],
        [(.create, Location.toPath [[119], [97], [120]])]), none) := by
    decide +kernel
  obtain ⟨p, hrun, hlook⟩ := Option.bind_eq_some_iff.mp hlook
  obtain ⟨q, hlater, hlook⟩ := Option.map_eq_some_iff.mp hlook
  obtain ⟨hentries, hlost⟩ := Prod.mk.inj hlook
  obtain ⟨s, t, s', t', hover, hover', hresolves⟩ :=
    run_resolves_reports (Or.inl rfl) hnew hrun hlater
  rw [hover.service] at hentries
  rw [hover'.service] at hlost
  obtain ⟨htranslated, hheard⟩ := Prod.mk.inj hentries
  have hall := hresolves fullDisk mixedReport rfl
  rw [show treeWatch.kinds = [.create] from rfl, htranslated, hheard] at hall
  cases hall with
  | cons hfirst _ =>
    exact ⟨p, q, s, t, s', t', hnew, hrun, hlater, hover, hover', hlost, htranslated, hfirst.2⟩

end Notified

end ChangeWatch
