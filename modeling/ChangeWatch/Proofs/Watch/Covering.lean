import ChangeWatch.Proofs.Watch.Covering.Stages
import ChangeWatch.Proofs.Watch.Unheard

/-!
# What a watch covers, whatever its callbacks

Two watches that differ in their callbacks alone go through the same incidents.  The kinds that
they register directories for are different, and so are the batches that their services queue,
what their loops do with them, and how long that takes.  Yet at rest they cover the same
(`callbacks_cover_alike`): what a watch covers is determined by the incidents (`heed_covers`),
since creations are always heard of, and picked up before any callback is looked for.

And a watch without a callback for creations tells none to another callback (`heed_silent`).
-/

namespace ChangeWatch.Notified

open Watch

variable {behaviour behaviour₁ behaviour₂ : Behaviour Wish} {root : Path} {maxDepth : Nat}
  {handlers₁ handlers₂ : Handlers} {options : Watch.Options} {disk : Disk} {w₁ w₂ : Watch}
  {p p₁ p₂ q : Running} {kind : EventKind}
  {stages stages₁ stages₂ : List (Incident × List (Move Outside))}

/-! ### Silence -/

/-- A watch that hands on no change of a kind does not begin to, whatever incidents come. -/
theorem heed_silent (hp : Silent kind p) (hrest : atRest p = true)
    (h : heed? behaviour stages p = some q) : Silent kind q := by
  have hcomes : ∀ {e : Outside} {p q : Running}, Silent kind p → outside e p = some q →
      Silent kind q := fun {e p _} hp h => hp.outside (e := e.told p.state.ground) h
  have hmove : ∀ {p : Running} {a : Move Outside} {q : Running}, Silent kind p →
      (setting behaviour).move a p = some q → Silent kind q := by
    intro p a q hp hmove
    cases a with
    | job n => exact hp.step hmove
    | outside e => exact hcomes hp hmove
  -- silence is the same in every stage, so there is nothing to keep track of
  have hkept := heed_preserved (I := fun (_ : Unit) p => Silent kind p) (fun x _ => x)
    (fun hp _ hu => hcomes hp hu) (fun hp _ _ hm => hmove hp hm) stages (x := ()) hp hrest h
  exact hkept.1

/-! ### Two watches -/

/-- Two watches cover the same: the same directories are registered under the same keys, and the
same nodes are kept. -/
def CoverAlike (p₁ p₂ : Running) : Prop :=
  ∃ s₁ t₁ s₂ t₂, Over p₁.state s₁ t₁ ∧ Over p₂.state s₂ t₂ ∧ t₁.nodes = t₂.nodes ∧
    s₁.registry.byKey = s₂.registry.byKey ∧
    s₁.registry.byDir.map (fun e => (e.1, e.2.key)) = s₂.registry.byDir.map fun e => (e.1, e.2.key)

/-- The directories that a cover has registered, with their keys. -/
theorem byDir_of_cover {s₁ s₂ : NotifyingService} {t₁ t₂ : DirTree} {disk₁ disk₂ : Disk}
    (h : Cover.of s₁ disk₁ t₁ = .of s₂ disk₂ t₂) :
    s₁.registry.byDir.map (fun e => (e.1, e.2.key)) =
      s₂.registry.byDir.map fun e => (e.1, e.2.key) := by
  have hplain : ∀ s : NotifyingService, s.registry.plain.byDir.map (fun e => (e.1, e.2.key)) =
      s.registry.byDir.map fun e => (e.1, e.2.key) := fun s => List.map_map
  rw [← hplain s₁, ← hplain s₂]
  exact congrArg (fun c => c.roster.service.registry.byDir.map fun e => (e.1, e.2.key)) h

/-- Two watches with different callbacks, none of which stops its watch, that go through the same
incidents, cover the same after them; and neither tells a creation of which it has no callback. -/
theorem callbacks_cover_alike (hspares₁ : Spares behaviour₁) (hspares₂ : Spares behaviour₂)
    (hservice : options.service = none ∨ options.service = some (.notifying .new))
    (hnew₁ : Watch.new ⟨.tree ⟨root, maxDepth, []⟩, .none⟩ handlers₁ options disk = .ok w₁)
    (hnew₂ : Watch.new ⟨.tree ⟨root, maxDepth, []⟩, .none⟩ handlers₂ options disk = .ok w₂)
    (hheed₁ : heed? behaviour₁ stages₁ (Running.ofWatch w₁) = some p₁)
    (hheed₂ : heed? behaviour₂ stages₂ (Running.ofWatch w₂) = some p₂)
    (hsame : stages₁.map (·.1) = stages₂.map (·.1)) :
    CoverAlike p₁ p₂ ∧ (handlers₁.get .create = none → Untold .create p₁) ∧
      (handlers₂.get .create = none → Untold .create p₂) := by
  obtain ⟨s₁, t₁, hover₁, hcover₁⟩ := heed_covers hspares₁ hservice hnew₁ hheed₁
  obtain ⟨s₂, t₂, hover₂, hcover₂⟩ := heed_covers hspares₂ hservice hnew₂ hheed₂
  have hcover : Cover.of s₁ p₁.state.ground.disk t₁ = .of s₂ p₂.state.ground.disk t₂ := by
    rw [hcover₁, hcover₂, hsame]
  refine ⟨⟨s₁, t₁, s₂, t₂, hover₁, hover₂, congrArg (fun c => c.tree.nodes) hcover,
    congrArg (fun c => c.roster.service.registry.byKey) hcover, byDir_of_cover hcover⟩, ?_, ?_⟩
  · exact fun hnone =>
      (heed_silent (silent_new hnone hnew₁) (rest_new hservice hnew₁) hheed₁).untold
  · exact fun hnone =>
      (heed_silent (silent_new hnone hnew₂) (rest_new hservice hnew₂) hheed₂).untold

/-! ### A directory that appears -/

/-- The root with the directory `a`, and a directory `b` with another in it. -/
def grownDisk : Disk := (fullDisk.put [[119], [98]] .dir).put [[119], [98], [99]] .dir

/-- The watch over the root, with a callback for deletions alone. -/
def deletionsWatch : Watch :=
  { treeWatch with handlers := ⟨none, none, some ⟨0⟩, none⟩, kinds := [.delete, .create] }

/-- The watch is started; `b` is made with what is in it, and is reported. -/
def growing (jobs : Nat) : List (Incident × List (Move Outside)) :=
  [(.start, List.replicate 11 (.job 0) ++ List.replicate 2 (.job 1)),
    (.change grownDisk, []),
    (.report ⟨.create, [Location.toPath [[119], [98]]], false⟩, List.replicate jobs (.job 1))]

/-- A watch with a callback for creations and one without, which has less to do, both pick up the
directory and what is in it. -/
theorem grown_directory_is_covered : ∃ p₁ p₂,
    Watch.new ⟨.tree ⟨Location.toPath [[119]], 2, []⟩, .none⟩ ⟨some ⟨0⟩, none, none, none⟩ .default
      fullDisk = .ok treeWatch ∧
    Watch.new ⟨.tree ⟨Location.toPath [[119]], 2, []⟩, .none⟩ ⟨none, none, some ⟨0⟩, none⟩ .default
      fullDisk = .ok deletionsWatch ∧
    heed? (fun _ _ _ => .none) (growing 18) (Running.ofWatch treeWatch) = some p₁ ∧
    heed? (fun _ _ _ => .none) (growing 15) (Running.ofWatch deletionsWatch) = some p₂ ∧
    p₂.state.strategy.target = .tree ⟨Location.toPath [[119]], 2,
      [(⟨0⟩, ⟨Location.toPath [[119]], 0⟩), (⟨1⟩, ⟨Location.toPath [[119], [97]], 1⟩),
        (⟨2⟩, ⟨Location.toPath [[119], [98]], 1⟩),
        (⟨3⟩, ⟨Location.toPath [[119], [98], [99]], 2⟩)]⟩ ∧
    CoverAlike p₁ p₂ ∧ Untold .create p₂ := by
  have hspares : Spares fun _ _ _ => .none := fun _ _ _ => List.not_mem_nil
  have hnew₁ : Watch.new ⟨.tree ⟨Location.toPath [[119]], 2, []⟩, .none⟩
      ⟨some ⟨0⟩, none, none, none⟩ .default fullDisk = .ok treeWatch := rfl
  have hnew₂ : Watch.new ⟨.tree ⟨Location.toPath [[119]], 2, []⟩, .none⟩
      ⟨none, none, some ⟨0⟩, none⟩ .default fullDisk = .ok deletionsWatch := rfl
  have hends : (heed? (fun _ _ _ => .none) (growing 18) (Running.ofWatch treeWatch)).isSome =
      true := by
    decide +kernel
  have hlook : (heed? (fun _ _ _ => .none) (growing 15) (Running.ofWatch deletionsWatch)).map
      (·.state.strategy.target) = some (.tree ⟨Location.toPath [[119]], 2,
        [(⟨0⟩, ⟨Location.toPath [[119]], 0⟩), (⟨1⟩, ⟨Location.toPath [[119], [97]], 1⟩),
          (⟨2⟩, ⟨Location.toPath [[119], [98]], 1⟩),
          (⟨3⟩, ⟨Location.toPath [[119], [98], [99]], 2⟩)]⟩) := by
    decide +kernel
  obtain ⟨p₁, hheed₁⟩ := Option.isSome_iff_exists.mp hends
  obtain ⟨p₂, hheed₂, htarget⟩ := Option.map_eq_some_iff.mp hlook
  obtain ⟨halike, -, huntold⟩ := callbacks_cover_alike hspares hspares (Or.inl rfl) hnew₁ hnew₂
    hheed₁ hheed₂ rfl
  exact ⟨p₁, p₂, hnew₁, hnew₂, hheed₁, hheed₂, htarget, halike, huntold rfl⟩

end ChangeWatch.Notified
