import ChangeWatch.Proofs.Service.Registry

/-!
# Registering with a service, in any order

A service on top of a notification backend is used in any way whatever: directories are
registered by any spelling, which the backend accepts or refuses; keys are reset; reports
and complaints come in; the disk becomes any other; batches are taken; and the service
is closed (`Registering.Turn`).

What registering and resetting come to is said once each (`NotifyingService.Registers`,
`NotifyingService.Resets`).  What any turn does to the registry is one of the five things that
can be done to it (`turn_moved`), and so after every such history (`registry_run`) the two maps
are inverse to each other; a key is never given to two directories, nor given again once it was
lost; a directory that is registered keeps its key; and a service that was closed has no
registration for ever.
-/

namespace ChangeWatch

open Registry (Coherent SameEntries Moved Later)

namespace NotifyingService

variable {s s' : NotifyingService} {dir : Path} {key : Key} {answer : Except WatchError Key}

/-! ### One operation -/

/-- What registering a directory comes to. -/
inductive Registers (s : NotifyingService) (dir : Path) :
    Except WatchError Key → NotifyingService → Prop
  /-- The service let go of its backend. -/
  | released : s.backend = none → Registers s dir (.error .closed) s
  /-- The directory keeps its key, even if the backend refuses it now. -/
  | again {key : Key} {answer : Except WatchError Key} {s' : NotifyingService} :
      s.registry.keyOf? dir = some key → SameEntries s.registry s'.registry →
      s'.registry.nextKey = s.registry.nextKey → (answer = .ok key ∨ ∃ e, answer = .error e) →
      Registers s dir answer s'
  /-- It gets the next key. -/
  | anew {s' : NotifyingService} : s.registry.keyOf? dir = none →
      s'.registry.dirEntries = s.registry.dirEntries ++ [(⟨s.registry.nextKey⟩, dir.components)] →
      s'.registry.keyEntries = s.registry.keyEntries ++ [(⟨s.registry.nextKey⟩, dir.components)] →
      s'.registry.nextKey = s.registry.nextKey + 1 →
      Registers s dir (.ok ⟨s.registry.nextKey⟩) s'
  /-- The backend refuses it, and the next key is lost. -/
  | refused {e : WatchError} {s' : NotifyingService} : s.registry.keyOf? dir = none →
      SameEntries s.registry s'.registry → s'.registry.nextKey = s.registry.nextKey + 1 →
      Registers s dir (.error e) s'

/-- What the reset of a key comes to. -/
inductive Resets (s : NotifyingService) (disk : Disk) (key : Key) : Bool × NotifyingService → Prop
  | closed : s.closed = true → Resets s disk key (false, s)
  | unknown : s.registry.dirOf? key = none → Resets s disk key (false, s)
  /-- The directory to which the key leads is there. -/
  | there {dir : Path} : s.closed = false → s.registry.dirOf? key = some dir →
      disk.isDir dir = true → Resets s disk key (true, s)
  /-- The directory is gone, so its registration is struck out. -/
  | cancelled {dir : Path} : s.closed = false → s.registry.dirOf? key = some dir →
      disk.isDir dir = false → Resets s disk key (false, { s with
        registry := (s.registry.eraseKey key).eraseDirOf dir key
        backend := s.backend.map fun b => b.unwatch disk dir })

theorem resets (s : NotifyingService) (disk : Disk) (key : Key) :
    Resets s disk key (s.reset disk key) := by
  unfold reset
  split
  · next hclosed => exact .closed hclosed
  · next hopen =>
    rw [Bool.not_eq_true] at hopen
    split
    · next hnone => exact .unknown hnone
    · next dir hkey =>
      split
      · next hdir => exact .there hopen hkey hdir
      · next hgone => exact .cancelled hopen hkey (Bool.eq_false_iff.mpr hgone)

/-- Striking out an entry that was just made gives back what was there before. -/
theorem filter_append_new {α : Type} {l : List α} {a : α} {f : α → Bool}
    (hold : ∀ x ∈ l, f x = true) (hnew : f a = false) : (l ++ [a]).filter f = l := by
  rw [List.filter_append, List.filter_eq_self.mpr hold, List.filter_singleton, hnew]
  exact List.append_nil l

theorem registers (h : s.registry.Coherent) (disk : Disk) (dir : Path) (kinds : List EventKind) :
    Registers s dir (s.register disk dir kinds).1 (s.register disk dir kinds).2 := by
  unfold register
  cases hbackend : s.backend with
  | none => exact .released hbackend
  | some backend =>
    dsimp only
    -- a directory that has a key keeps it; else the next one is drawn, and it is burnt if the
    -- backend refuses
    cases hkey : s.registry.keyOf? dir with
    | some key =>
      obtain ⟨hdirs, hkeys⟩ := h.insert_known hkey kinds
      have hnext := s.registry.nextKey_insert dir ⟨key, kinds⟩
      cases backend.watch disk dir with
      | ok backend => exact .again hkey ⟨hdirs, hkeys⟩ hnext (Or.inl rfl)
      | error e => exact .again hkey ⟨hdirs, hkeys⟩ hnext (Or.inr ⟨_, rfl⟩)
    | none =>
      have hnew : ∀ k, (k, dir.components) ∉ s.registry.keyEntries := by
        intro k hmem
        rw [h.keyOf?_iff.mpr hmem] at hkey
        exact absurd hkey (by simp)
      simp only [Option.isSome_none, Bool.false_eq_true, if_false, Option.getD_none]
      have hnext := Registry.nextKey_insert
        ⟨s.registry.byDir, s.registry.byKey, s.registry.nextKey + 1⟩ dir
        ⟨⟨s.registry.nextKey⟩, kinds⟩
      obtain ⟨hdirs, hkeys⟩ := Registry.insert_new
        (r := ⟨s.registry.byDir, s.registry.byKey, s.registry.nextKey + 1⟩)
        (fun k hmem => hnew k (h.inverse ▸ hmem)) h.next_new kinds
      cases backend.watch disk dir with
      | ok backend => exact .anew hkey hdirs hkeys hnext
      | error e =>
        -- what the refusal strikes out is exactly what was just written
        refine .refused hkey ⟨?_, ?_⟩ hnext
        · refine (Registry.dirEntries_eraseDir _ _).trans ?_
          rw [hdirs]
          refine filter_append_new (fun e he => decide_eq_true fun heq => ?_) (by simp)
          have hmem : e ∈ s.registry.keyEntries := h.inverse ▸ he
          exact hnew e.1 (heq ▸ hmem)
        · refine (Registry.keyEntries_eraseKey _ _).trans ?_
          refine (congrArg _ hkeys).trans ?_
          refine filter_append_new (fun e he => decide_eq_true fun heq => ?_) (by simp)
          have hmem : e ∈ s.registry.keyEntries := he
          exact h.next_new e.2 (heq ▸ hmem)

/-- A service that let go of its backend registers nothing. -/
theorem register_of_released (h : s.backend = none) (disk : Disk) (dir : Path)
    (kinds : List EventKind) : s.register disk dir kinds = (.error .closed, s) := by
  unfold register
  rw [h]

/-- A closed service resets nothing. -/
theorem reset_of_closed (h : s.closed = true) (disk : Disk) (key : Key) :
    s.reset disk key = (false, s) := by
  unfold reset
  rw [if_pos h]

/-- A directory that is given a key is registered under it. -/
theorem Registers.mem_of_ok (h : Registers s dir (.ok key) s') (hs : s.registry.Coherent) :
    (key, dir.components) ∈ s'.registry.keyEntries := by
  cases h with
  | again hkey hsame _ hanswer =>
    rcases hanswer with heq | ⟨e, heq⟩
    · rw [hsame.keys, Except.ok.inj heq]
      exact hs.keyOf?_iff.mp hkey
    · exact absurd heq (by simp)
  | anew _ _ hkeys =>
    rw [hkeys]
    exact List.mem_append_right _ (List.mem_singleton_self _)

/-- A directory that is refused leaves all registrations what they were. -/
theorem Registers.same_of_error {e : WatchError} (h : Registers s dir (.error e) s') :
    SameEntries s.registry s'.registry := by
  cases h with
  | released => exact ⟨rfl, rfl⟩
  | again _ hsame => exact hsame
  | refused _ hsame => exact hsame

/-- A directory that is registered gets no other key. -/
theorem Registers.key_eq {key' : Key} (h : Registers s dir (.ok key') s')
    (hkey : s.registry.keyOf? dir = some key) : key' = key := by
  cases h with
  | again hkey' _ _ hanswer =>
    rcases hanswer with heq | ⟨e, heq⟩
    · rw [Except.ok.inj heq]
      exact Option.some.inj (hkey'.symm.trans hkey)
    · exact absurd heq (by simp)
  | anew hnone =>
    rw [hkey] at hnone
    exact absurd hnone (by simp)

theorem Registers.moved (h : Registers s dir answer s') (hs : s.registry.Coherent) :
    Moved s.registry s'.registry := by
  cases h with
  | released => exact .kept ⟨rfl, rfl⟩ rfl
  | again _ hsame hnext => exact .kept hsame hnext
  | refused _ hsame hnext => exact .burnt hsame hnext
  | anew hnone hdirs hkeys hnext =>
    refine .granted dir.components (fun k hmem => ?_) hdirs hkeys hnext
    rw [hs.keyOf?_iff.mpr hmem] at hnone
    exact absurd hnone (by simp)

/-- A reset cancels a registration or leaves all as it is. -/
theorem reset_moved (h : s.registry.Coherent) (disk : Disk) (key : Key) :
    Moved s.registry (s.reset disk key).2.registry ∧
      (s.reset disk key).2.registry.nextKey = s.registry.nextKey := by
  generalize hreset : s.reset disk key = answer
  cases hreset ▸ s.resets disk key with
  | closed => exact ⟨.kept ⟨rfl, rfl⟩ rfl, rfl⟩
  | unknown => exact ⟨.kept ⟨rfl, rfl⟩ rfl, rfl⟩
  | there => exact ⟨.kept ⟨rfl, rfl⟩ rfl, rfl⟩
  | @cancelled dir _ hkey =>
    refine ⟨.cancelled key ?_ (Registry.keyEntries_eraseKey _ _) rfl, rfl⟩
    refine (Registry.dirEntries_eraseDirOf _ _ _).trans ?_
    -- what has the key is the entry of the directory that it leads to
    refine List.filter_congr fun e he => ?_
    have hmem : e ∈ s.registry.keyEntries := h.inverse ▸ he
    by_cases heq : e.1 = key
    · have hentry : (key, e.2) ∈ s.registry.keyEntries := by
        rw [← heq]
        exact hmem
      have hsame : e.2 = dir.components :=
        h.dir_unique hentry (Registry.mem_keyEntries_of_dirOf? hkey)
      simp [heq, hsame]
    · simp [heq]

theorem hear_registry (s : NotifyingService) (disk : Disk) (report : Report) :
    (s.hear disk report).registry = s.registry ∧ (s.hear disk report).backend = s.backend ∧
      (s.hear disk report).closed = s.closed := by
  unfold hear
  split <;> exact ⟨rfl, rfl, rfl⟩

theorem hearFailure_registry (s : NotifyingService) (e : BackendError) :
    (s.hearFailure e).registry = s.registry ∧ (s.hearFailure e).backend = s.backend ∧
      (s.hearFailure e).closed = s.closed := by
  unfold hearFailure
  split <;> exact ⟨rfl, rfl, rfl⟩

theorem receive_registry {taken : Taken} (h : s.receive = some (taken, s')) :
    s'.registry = s.registry ∧ s'.backend = s.backend ∧ s'.closed = s.closed := by
  obtain ⟨-, -, -, hsame⟩ := receive_front h
  rw [hsame]
  exact ⟨rfl, rfl, rfl⟩

theorem witness_registry (s : NotifyingService) (disk : Disk) (changes : List Change) :
    (s.witness disk changes).registry = s.registry ∧
      ((s.witness disk changes).backend = none ↔ s.backend = none) ∧
      (s.witness disk changes).closed = s.closed := by
  have hfold : ∀ (reports : List Report) (t : NotifyingService),
      (reports.foldl (fun s r => s.hear disk r) t).registry = t.registry ∧
        (reports.foldl (fun s r => s.hear disk r) t).backend = t.backend ∧
        (reports.foldl (fun s r => s.hear disk r) t).closed = t.closed := by
    intro reports
    induction reports with
    | nil => intro t; exact ⟨rfl, rfl, rfl⟩
    | cons report rest ih =>
      intro t
      obtain ⟨hregistry, hbackend, hclosed⟩ := ih (t.hear disk report)
      obtain ⟨hregistry', hbackend', hclosed'⟩ := t.hear_registry disk report
      exact ⟨hregistry.trans hregistry', hbackend.trans hbackend', hclosed.trans hclosed'⟩
  unfold witness
  split
  · exact ⟨rfl, Iff.rfl, rfl⟩
  · next backend hbackend =>
    obtain ⟨hregistry, hsome, hclosed⟩ := hfold (backend.witness changes).1
      { s with backend := some (backend.witness changes).2 }
    refine ⟨hregistry, ?_, hclosed⟩
    rw [hsome, hbackend]
    simp

/-- The service after it was closed. -/
def close (s : NotifyingService) : NotifyingService :=
  if s.closed then s
  else
    { s with
      closed := true, backend := none, registry := s.registry.clear, queue := s.queue ++ [.closed] }

/-- It is what all steps of closing come to. -/
theorem close_eq (s : NotifyingService) : (Service.notifying s).close = .notifying s.close := by
  unfold close
  cases hclosed : s.closed with
  | true =>
    simp only [Service.close, Service.closeFrom, Service.closeStep, closeStep, hclosed, if_true]
    rw [← hclosed]
  | false =>
    simp [Service.close, Service.closeFrom, Service.closeStep, closeStep, hclosed]

/-- The registry is coherent, and nothing is left of it once the service was closed. -/
structure Sound (s : NotifyingService) : Prop where
  coherent : s.registry.Coherent
  released : s.closed = true → s.backend = none ∧ s.registry.keyEntries = []

/-- A service whose registrations and backend are those of another is as sound. -/
theorem Sound.same (h : s.Sound) (hregistry : s'.registry = s.registry)
    (hbackend : s'.backend = none ↔ s.backend = none) (hclosed : s'.closed = s.closed) :
    s'.Sound := by
  refine ⟨?_, ?_⟩
  · rw [hregistry]
    exact h.coherent
  · rw [hregistry, hclosed, hbackend]
    exact h.released

theorem Sound.register (h : s.Sound) (disk : Disk) (dir : Path) (kinds : List EventKind) :
    (s.register disk dir kinds).2.Sound := by
  have hmoved := (s.registers h.coherent disk dir kinds).moved h.coherent
  refine ⟨hmoved.coherent h.coherent, fun hclosed => ?_⟩
  -- a closed service has let go of its backend, and registers nothing
  have hsilent : s.closed = true :=
    (Service.alike_register (.notifying s) disk dir kinds).closed.symm.trans hclosed
  rw [s.register_of_released (h.released hsilent).1 disk dir kinds]
  exact h.released hsilent

theorem Sound.reset (h : s.Sound) (disk : Disk) (key : Key) : (s.reset disk key).2.Sound := by
  refine ⟨(s.reset_moved h.coherent disk key).1.coherent h.coherent, fun hclosed => ?_⟩
  have hsilent : s.closed = true :=
    (Service.alike_reset (.notifying s) disk key).closed.symm.trans hclosed
  rw [s.reset_of_closed hsilent disk key]
  exact h.released hsilent

/-- The first call of `close` lets go of everything that is registered. -/
theorem close_registry (hopen : s.closed = false) : s.close.registry = s.registry.clear := by
  unfold close
  rw [hopen]
  rfl

/-- A second call of `close` does nothing. -/
theorem close_of_closed (hclosed : s.closed = true) : s.close = s :=
  if_pos hclosed

theorem closed_close (s : NotifyingService) : s.close.closed = true := by
  cases hclosed : s.closed with
  | true =>
    rw [close_of_closed hclosed]
    exact hclosed
  | false =>
    unfold close
    rw [hclosed]
    rfl

theorem close_moved (s : NotifyingService) :
    Moved s.registry s.close.registry ∧ s.close.registry.nextKey = s.registry.nextKey := by
  cases hclosed : s.closed with
  | true =>
    rw [close_of_closed hclosed]
    exact ⟨.kept ⟨rfl, rfl⟩ rfl, rfl⟩
  | false =>
    rw [close_registry hclosed]
    exact ⟨.cleared rfl rfl rfl, rfl⟩

theorem Sound.close (h : s.Sound) : s.close.Sound := by
  refine ⟨s.close_moved.1.coherent h.coherent, fun _ => ?_⟩
  cases hclosed : s.closed with
  | true =>
    rw [close_of_closed hclosed]
    exact h.released hclosed
  | false =>
    unfold NotifyingService.close
    rw [hclosed]
    exact ⟨rfl, rfl⟩

end NotifyingService

/-! ### Histories -/

namespace Registering

/-- A service and the disk. -/
structure World where
  service : NotifyingService
  disk : Disk
  deriving DecidableEq, Repr

/-- What may happen to a service. -/
inductive Turn where
  | register (dir : Path) (kinds : List EventKind)
  | reset (key : Key)
  /-- The backend reports. -/
  | report (r : Report)
  | complain (e : BackendError)
  /-- The disk becomes any other, and the backend witnesses any changes. -/
  | change (disk : Disk) (changes : List Change)
  | take
  | close
  deriving DecidableEq, Repr

def Turn.registers : Turn → Bool
  | .register .. => true
  | _ => false

/-- What a directory is answered that is registered now. -/
def World.answer (w : World) (dir : Path) (kinds : List EventKind) : Except WatchError Key :=
  (w.service.register w.disk dir kinds).1

def World.turn (w : World) : Turn → World
  | .register dir kinds => { w with service := (w.service.register w.disk dir kinds).2 }
  | .reset key => { w with service := (w.service.reset w.disk key).2 }
  | .report r => { w with service := w.service.hear w.disk r }
  | .complain e => { w with service := w.service.hearFailure e }
  | .change disk changes => ⟨w.service.witness disk changes, disk⟩
  | .take => { w with service := w.service.receive.elim w.service (·.2) }
  | .close => { w with service := w.service.close }

def World.run (w : World) (turns : List Turn) : World :=
  turns.foldl World.turn w

/-- The registrations of a world. -/
abbrev World.registry (w : World) : Registry :=
  w.service.registry

/-- A service that was never used. -/
def start (disk : Disk) : World := ⟨.new, disk⟩

variable {w : World}

theorem run_append (w : World) (turns more : List Turn) :
    w.run (turns ++ more) = (w.run turns).run more :=
  List.foldl_append

/-- What one turn does. -/
theorem turn_moved (h : w.service.Sound) (t : Turn) :
    Moved w.registry (w.turn t).registry ∧ (w.turn t).service.Sound ∧
      (w.turn t).registry.nextKey ≤ w.registry.nextKey + t.registers.toNat := by
  -- most turns leave the registrations and the backend as they are
  have hsame : ∀ {s : NotifyingService}, s.registry = w.registry →
      (s.backend = none ↔ w.service.backend = none) → s.closed = w.service.closed →
      Moved w.registry s.registry ∧ s.Sound ∧ s.registry.nextKey ≤ w.registry.nextKey := by
    intro s hregistry hbackend hclosed
    refine ⟨?_, h.same hregistry hbackend hclosed, ?_⟩ <;> rw [hregistry]
    exact .kept ⟨rfl, rfl⟩ rfl
  cases t with
  | register dir kinds =>
    have hmoved := (w.service.registers h.coherent w.disk dir kinds).moved h.coherent
    exact ⟨hmoved, h.register w.disk dir kinds, hmoved.nextKey_le⟩
  | reset key =>
    obtain ⟨hmoved, hnext⟩ := w.service.reset_moved h.coherent w.disk key
    exact ⟨hmoved, h.reset w.disk key, Nat.le_of_eq hnext⟩
  | report r =>
    obtain ⟨hregistry, hbackend, hclosed⟩ := w.service.hear_registry w.disk r
    exact hsame hregistry (iff_of_eq (congrArg (· = none) hbackend)) hclosed
  | complain e =>
    obtain ⟨hregistry, hbackend, hclosed⟩ := w.service.hearFailure_registry e
    exact hsame hregistry (iff_of_eq (congrArg (· = none) hbackend)) hclosed
  | change disk changes =>
    obtain ⟨hregistry, hbackend, hclosed⟩ := w.service.witness_registry disk changes
    exact hsame hregistry hbackend hclosed
  | take =>
    cases htaken : w.service.receive with
    | none =>
      have heq : w.turn .take = w := by simp only [World.turn, htaken, Option.elim_none]
      rw [heq]
      exact hsame rfl Iff.rfl rfl
    | some r =>
      obtain ⟨hregistry, hbackend, hclosed⟩ := NotifyingService.receive_registry htaken
      have heq : w.turn .take = ⟨r.2, w.disk⟩ := by simp only [World.turn, htaken, Option.elim_some]
      rw [heq]
      exact hsame hregistry (iff_of_eq (congrArg (· = none) hbackend)) hclosed
  | close =>
    obtain ⟨hmoved, hnext⟩ := w.service.close_moved
    exact ⟨hmoved, h.close, Nat.le_of_eq hnext⟩

/-- What a whole history does. -/
theorem run_moved (turns : List Turn) : ∀ {w : World}, w.service.Sound →
    (w.run turns).service.Sound ∧ Later w.registry (w.run turns).registry ∧
      (w.run turns).registry.nextKey ≤ w.registry.nextKey + turns.countP Turn.registers := by
  induction turns with
  | nil => intro w h; exact ⟨h, .refl _, Nat.le_refl _⟩
  | cons t rest ih =>
    intro w h
    obtain ⟨hmoved, hsound, hnext⟩ := turn_moved h t
    obtain ⟨hend, hlater, hnext'⟩ := ih hsound
    refine ⟨hend, hmoved.later.trans hlater, ?_⟩
    have hcount : (t :: rest).countP Turn.registers =
        rest.countP Turn.registers + t.registers.toNat := by
      rw [List.countP_cons]
      cases t.registers <;> rfl
    have hrest : (w.run (t :: rest)).registry.nextKey ≤
        (w.turn t).registry.nextKey + rest.countP Turn.registers := hnext'
    omega

theorem sound_start (disk : Disk) : (start disk).service.Sound :=
  ⟨Registry.coherent_empty, fun hclosed => absurd hclosed (by simp [start, NotifyingService.new])⟩

/-- A directory that is given a key has it after that. -/
theorem mem_of_answer (h : w.service.Sound) {dir : Path} {kinds : List EventKind} {key : Key}
    (hanswer : w.answer dir kinds = .ok key) :
    (key, dir.components) ∈ (w.turn (.register dir kinds)).registry.keyEntries := by
  have hregisters := w.service.registers h.coherent w.disk dir kinds
  unfold World.answer at hanswer
  rw [hanswer] at hregisters
  exact hregisters.mem_of_ok h.coherent

/-- A closed service stays closed. -/
theorem closed_run (turns : List Turn) : ∀ {w : World}, w.service.closed = true →
    (w.run turns).service.closed = true := by
  induction turns with
  | nil => intro w h; exact h
  | cons t rest ih =>
    intro w h
    refine ih (w := w.turn t) ?_
    cases t with
    | register dir kinds =>
      exact (Service.alike_register (.notifying w.service) w.disk dir kinds).closed.trans h
    | reset key => exact (Service.alike_reset (.notifying w.service) w.disk key).closed.trans h
    | report r => exact (w.service.hear_registry w.disk r).2.2.trans h
    | complain e => exact (w.service.hearFailure_registry e).2.2.trans h
    | change disk changes => exact (w.service.witness_registry disk changes).2.2.trans h
    | take =>
      show (w.service.receive.elim w.service (·.2)).closed = true
      unfold NotifyingService.receive
      split <;> exact h
    | close => exact w.service.closed_close

/-- A directory that is registered is given no other key. -/
theorem answer_of_known (h : w.service.Sound) {dir : Path} {kinds : List EventKind} {key key' : Key}
    (hkey : w.registry.keyOf? dir = some key) (hanswer : w.answer dir kinds = .ok key') :
    key' = key := by
  have hregisters := w.service.registers h.coherent w.disk dir kinds
  unfold World.answer at hanswer
  rw [hanswer] at hregisters
  exact hregisters.key_eq hkey

/-- When a directory is refused, all that is registered stays so. -/
theorem keyOf?_of_refused (h : w.service.Sound) {dir : Path} {kinds : List EventKind}
    {e : WatchError} (hanswer : w.answer dir kinds = .error e) (p : Path) :
    (w.turn (.register dir kinds)).registry.keyOf? p = w.registry.keyOf? p := by
  have hregisters := w.service.registers h.coherent w.disk dir kinds
  unfold World.answer at hanswer
  rw [hanswer] at hregisters
  obtain ⟨-, hafter, -⟩ := turn_moved h (.register dir kinds)
  refine Option.ext fun key => ?_
  rw [hafter.coherent.keyOf?_iff, h.coherent.keyOf?_iff, ← hregisters.same_of_error.keys]
  rfl

/-- A key that was drawn and leads nowhere never leads anywhere, and is never given again. -/
theorem lost_run (h : w.service.Sound) {key : Key} (hdrawn : key.id < w.registry.nextKey)
    (hnone : w.registry.dirOf? key = none) (more : List Turn) :
    (w.run more).registry.dirOf? key = none ∧
      ∀ dir kinds, (w.run more).answer dir kinds ≠ .ok key := by
  obtain ⟨hlater, hsince, -⟩ := run_moved more h
  refine ⟨hsince.lost hdrawn hnone, fun dir kinds hanswer => ?_⟩
  -- what is given is registered, which the key is not any more
  have hmem := mem_of_answer hlater hanswer
  have hafter := (turn_moved hlater (.register dir kinds)).1.later
  have hbefore := (hsince.trans hafter).mem_of_drawn hmem hdrawn
  exact Registry.dirOf?_eq_none_iff.mp hnone _ hbefore

/-- A key that is given twice is given to one directory, which was registered all the time. -/
theorem given_again (h : w.service.Sound) {dir dir' : Path} {kinds kinds' : List EventKind}
    {key : Key} (hanswer : w.answer dir kinds = .ok key) {between later : List Turn}
    (hagain : (w.run (.register dir kinds :: (between ++ later))).answer dir' kinds' = .ok key) :
    dir'.same dir = true ∧
      (w.run (.register dir kinds :: between)).registry.keyOf? dir = some key := by
  have hmem := mem_of_answer h hanswer
  obtain ⟨-, hgiven, -⟩ := turn_moved h (.register dir kinds)
  obtain ⟨hmid, hfirst, -⟩ := run_moved between hgiven
  have hsplit : w.run (.register dir kinds :: (between ++ later)) =
      (w.run (.register dir kinds :: between)).run later := run_append _ (_ :: between) later
  rw [hsplit] at hagain
  obtain ⟨hlast, hsecond, -⟩ := run_moved later (w := w.run (.register dir kinds :: between)) hmid
  -- the key was drawn by then, so the entry that it leads to in the end is an old one
  have hmem' := mem_of_answer hlast hagain
  have hafter := (turn_moved hlast (.register dir' kinds')).1.later
  have hdrawn := hgiven.coherent.drawn _ hmem
  have hmidmem := (hsecond.trans hafter).mem_of_drawn hmem'
    (Nat.lt_of_lt_of_le hdrawn hfirst.counts)
  have hold := hfirst.mem_of_drawn hmidmem hdrawn
  have hsame : dir'.components = dir.components := hgiven.coherent.dir_unique hold hmem
  refine ⟨Path.same_iff.mpr hsame, hmid.coherent.keyOf?_iff.mpr ?_⟩
  rw [← hsame]
  exact hmidmem

/-- Nothing is registered once the service was closed. -/
theorem run_of_close (h : w.service.Sound) (more : List Turn) :
    (w.run (.close :: more)).registry.byDir = [] ∧
      (w.run (.close :: more)).registry.byKey = [] := by
  obtain ⟨-, hclose, -⟩ := turn_moved h .close
  have hclosed : (w.turn .close).service.closed = true := w.service.closed_close
  obtain ⟨hend, -, -⟩ := run_moved more hclose
  have hkeys := (hend.released (closed_run more hclosed)).2
  have hdirs := hend.coherent.inverse.trans hkeys
  exact ⟨List.map_eq_nil_iff.mp hdirs, List.map_eq_nil_iff.mp hkeys⟩

/-- In every history of a service: the two maps are inverse to each other, and every key that
is given was drawn, at most one for each time a directory was registered; the size counts the
directories that are registered, and such a directory gets no other key, and when one is
refused, all that is registered stays so.  A key that was drawn and is not registered is never
registered or given again; a key that is given twice was registered all the time in between,
for one directory; and once the service is closed nothing is ever registered again. -/
theorem registry_run (disk : Disk) (turns : List Turn) :
    let w := (start disk).run turns
    (∀ dir key, w.registry.keyOf? dir = some key ↔
      ∃ p, w.registry.dirOf? key = some p ∧ p.same dir = true) ∧
    (∀ dir key, w.registry.dirOf? key = some dir → key.id < w.registry.nextKey) ∧
    w.registry.nextKey ≤ turns.countP Turn.registers ∧
    w.registry.size = {c | ∃ p : Path, p.components = c ∧ (w.registry.keyOf? p).isSome}.ncard ∧
    (∀ dir kinds key key', w.registry.keyOf? dir = some key → w.answer dir kinds = .ok key' →
      key' = key) ∧
    (∀ dir kinds e, w.answer dir kinds = .error e → ∀ p,
      (w.turn (.register dir kinds)).registry.keyOf? p = w.registry.keyOf? p) ∧
    (∀ key, key.id < w.registry.nextKey → w.registry.dirOf? key = none → ∀ more,
      ((w.run more).registry.dirOf? key = none ∧
        ∀ dir kinds, (w.run more).answer dir kinds ≠ .ok key)) ∧
    (∀ dir kinds key, w.answer dir kinds = .ok key → ∀ between later dir' kinds',
      (w.run (.register dir kinds :: (between ++ later))).answer dir' kinds' = .ok key →
        dir'.same dir = true ∧
          (w.run (.register dir kinds :: between)).registry.keyOf? dir = some key) ∧
    (∀ more, (w.run (.close :: more)).registry.byDir = [] ∧
      (w.run (.close :: more)).registry.byKey = []) := by
  intro w
  -- what the run so far has left, which the clauses about more turns start from
  obtain ⟨hsound, -, hcount⟩ := run_moved turns (sound_start disk)
  have hcoherent : w.registry.Coherent := hsound.coherent
  have hzero : (start disk).registry.nextKey = 0 := rfl
  rw [hzero, Nat.zero_add] at hcount
  exact ⟨fun _ _ => hcoherent.keyOf?_iff_dirOf?,
    fun _ _ hdir => hcoherent.drawn _ (Registry.mem_keyEntries_of_dirOf? hdir), hcount,
    hcoherent.size_eq, fun _ _ _ _ => answer_of_known hsound,
    fun _ _ _ => keyOf?_of_refused hsound, fun _ => lost_run hsound,
    fun _ _ _ hanswer _ _ _ _ => given_again hsound hanswer, run_of_close hsound⟩

/-- A directory is registered by two spellings, deleted, and its key reset; it is refused
while it is gone, and registered again when it is back.  Its first key is lost for good, and so
is the one that it was refused with. -/
theorem deleted_directory_gets_a_new_key :
    let kept := Disk.empty.put [[119]] .dir
    let full := kept.put [[119], [97]] .dir
    let dir := Location.toPath [[119], [97]]
    let w := (start full).run [.register (Location.toPath [[119]]) [.create],
      .register dir [.create], .register ⟨[47, 119, 47, 47, 97, 47]⟩ [.create], .change kept [],
      .reset ⟨1⟩, .register dir [.create], .change full [], .register dir [.create]]
    w.registry.keyOf? ⟨[47, 119, 47, 47, 97, 47]⟩ = some ⟨3⟩ ∧ w.registry.size = 2 ∧
      ∀ more, (w.run more).registry.dirOf? ⟨1⟩ = none ∧ (w.run more).registry.dirOf? ⟨2⟩ = none := by
  intro kept full dir w
  obtain ⟨-, -, -, -, -, -, hlost, -⟩ := registry_run full [.register (Location.toPath [[119]])
    [.create], .register dir [.create], .register ⟨[47, 119, 47, 47, 97, 47]⟩ [.create],
    .change kept [], .reset ⟨1⟩, .register dir [.create], .change full [],
    .register dir [.create]]
  have hfirst := hlost ⟨1⟩ (by decide +kernel) (by decide +kernel)
  have hsecond := hlost ⟨2⟩ (by decide +kernel) (by decide +kernel)
  exact ⟨by decide +kernel, by decide +kernel, fun more => ⟨(hfirst more).1, (hsecond more).1⟩⟩

end Registering

end ChangeWatch
