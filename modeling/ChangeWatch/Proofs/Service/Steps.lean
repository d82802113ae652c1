import ChangeWatch.Service.Basic

/-!
# What the steps of a service do to its queue

A watch loop sees little of its service: whether it is closed, what waits in the
queue, how the end is told, and which steps of closing lead to the signal that
wakes a taker.  Two services are `Alike` if they agree in all this.  Registering
and acknowledging leave a service alike (`alike_register`, `alike_reset`); what
is left are the two steps of taking (`enter_eq`, `receive_eq_some`) and the steps
of closing (`closeStep_mark`, `closeStep_wakes`).

A service in memory that refuses nothing (`MemoryService.Obliging`) gives every
directory a key, and to none that it has already another one (`Registers`).
-/

namespace ChangeWatch.NotifyingService

variable {s s' : NotifyingService} {taken : Taken}

/-- What is taken is the front of the queue, and nothing else changes. -/
theorem receive_front (h : s.receive = some (taken, s')) : ∃ signal,
    s.queue = signal :: s'.queue ∧ taken = signal.taken ∧ s' = { s with queue := s'.queue } := by
  unfold receive at h
  split at h
  · exact absurd h (by simp)
  · next signal rest hqueue =>
    obtain ⟨rfl, rfl⟩ := Prod.mk.inj (Option.some.inj h)
    exact ⟨signal, hqueue, rfl, rfl⟩

theorem receive_none_iff : s.receive = none ↔ s.queue = [] := by
  unfold receive
  split
  · next hqueue => exact iff_of_true rfl hqueue
  · next signal rest hqueue => exact iff_of_false (by simp) (by rw [hqueue]; simp)

end ChangeWatch.NotifyingService

namespace ChangeWatch.Service

/-- What waits in the queue. -/
def signals : Service → List Signal
  | .notifying s => s.queue
  | .memory s => s.queue

/-- How a taker is told that the service is closed. -/
def farewell : Service → Taken
  | .notifying _ => .closed
  | .memory s => s.closedTaken

/-- Whether a step of closing leads to the signal by which a taker is woken. -/
def wakes : Service → CloseStep → Bool
  | .notifying _, step => step ≠ .mark
  | .memory _, step => step = .signal

/-- What a signal means to the one who takes it from a service. -/
def told (s : Service) : Signal → Taken
  | .closed => s.farewell
  | signal => signal.taken

/-- Two services that a watch loop cannot tell apart. -/
structure Alike (s t : Service) : Prop where
  closed : s.isClosed = t.isClosed
  signals : s.signals = t.signals
  farewell : s.farewell = t.farewell
  wakes : ∀ step, s.wakes step = t.wakes step

theorem Alike.refl (s : Service) : Alike s s := ⟨rfl, rfl, rfl, fun _ => rfl⟩

theorem Alike.trans {s t u : Service} (h : Alike s t) (h' : Alike t u) : Alike s u :=
  ⟨h.closed.trans h'.closed, h.signals.trans h'.signals, h.farewell.trans h'.farewell,
    fun step => (h.wakes step).trans (h'.wakes step)⟩

theorem Alike.told {s t : Service} (h : Alike s t) (signal : Signal) :
    s.told signal = t.told signal := by
  cases signal with
  | closed => exact h.farewell
  | batch b => rfl
  | failure e => rfl

/-! ### Registering and acknowledging -/

theorem alike_register (s : Service) (disk : Disk) (dir : Path) (kinds : List EventKind) :
    Alike (s.register disk dir kinds).2.1 s := by
  cases s with
  | notifying s =>
    have hkept : (s.register disk dir kinds).2.closed = s.closed ∧
        (s.register disk dir kinds).2.queue = s.queue := by
      unfold NotifyingService.register
      split
      · exact ⟨rfl, rfl⟩
      · dsimp only
        split
        · exact ⟨rfl, rfl⟩
        · exact ⟨rfl, rfl⟩
    exact ⟨hkept.1, hkept.2, rfl, fun _ => rfl⟩
  | memory s =>
    simp only [register, MemoryService.register]
    split
    · exact .refl _
    · split
      · exact .refl _
      · split
        · exact ⟨rfl, rfl, rfl, fun _ => rfl⟩
        · exact ⟨rfl, rfl, rfl, fun _ => rfl⟩

theorem alike_reset (s : Service) (disk : Disk) (key : Key) : Alike (s.reset disk key).2 s := by
  cases s with
  | notifying s =>
    simp only [reset, NotifyingService.reset]
    split
    · exact .refl _
    · split
      · exact .refl _
      · split
        · exact .refl _
        · exact ⟨rfl, rfl, rfl, fun _ => rfl⟩
  | memory s => exact ⟨rfl, rfl, rfl, fun _ => rfl⟩

/-! ### Taking -/

/-- A closed service yields nothing but that. -/
theorem enter_eq (s : Service) :
    s.enter.1 = (if s.isClosed then some s.farewell else none) ∧ Alike s.enter.2 s := by
  cases s with
  | notifying s => exact ⟨rfl, .refl _⟩
  | memory s => exact ⟨rfl, rfl, rfl, rfl, fun _ => rfl⟩

/-- Taking waits exactly as long as the queue is empty. -/
theorem receive_eq_none {s : Service} : s.receive = none ↔ s.signals = [] := by
  cases s with
  | notifying s => exact Option.map_eq_none_iff.trans NotifyingService.receive_none_iff
  | memory s =>
    simp only [receive, MemoryService.receive, signals, Option.map_eq_none_iff]
    split <;> simp_all

/-- A service on top of a backend stays one when something is taken. -/
theorem receive_notifying {s : NotifyingService} {t : Service} {taken : Taken}
    (h : (Service.notifying s).receive = some (taken, t)) :
    ∃ s', t = .notifying s' ∧ s.receive = some (taken, s') := by
  obtain ⟨⟨_, s'⟩, hs', heq⟩ := Option.map_eq_some_iff.mp h
  obtain ⟨rfl, rfl⟩ := Prod.mk.inj heq
  exact ⟨s', rfl, hs'⟩

/-- What is taken is the front of the queue. -/
theorem receive_eq_some {s t : Service} {taken : Taken} (h : s.receive = some (taken, t)) :
    ∃ signal, s.signals = signal :: t.signals ∧ taken = s.told signal ∧
      t.isClosed = s.isClosed ∧ t.farewell = s.farewell ∧ ∀ step, t.wakes step = s.wakes step := by
  cases s with
  | notifying s =>
    obtain ⟨s', rfl, hr⟩ := receive_notifying h
    obtain ⟨signal, hqueue, rfl, hsame⟩ := NotifyingService.receive_front hr
    have hclosed : s'.closed = s.closed := by rw [hsame]
    refine ⟨signal, hqueue, ?_, hclosed, rfl, fun _ => rfl⟩
    cases signal <;> rfl
  | memory s =>
    obtain ⟨r, hr, heq⟩ := Option.map_eq_some_iff.mp h
    unfold MemoryService.receive at hr
    split at hr
    · exact absurd hr (by simp)
    · next rest hqueue =>
      obtain rfl := Option.some.inj hr
      obtain ⟨rfl, rfl⟩ := Prod.mk.inj heq
      exact ⟨.closed, hqueue, rfl, rfl, rfl, fun _ => rfl⟩
    · next signal rest hopen hqueue =>
      obtain rfl := Option.some.inj hr
      obtain ⟨rfl, rfl⟩ := Prod.mk.inj heq
      refine ⟨signal, hqueue, ?_, rfl, rfl, fun _ => rfl⟩
      cases signal with
      | closed => exact absurd rfl hopen
      | batch b => rfl
      | failure e => rfl

/-! ### Closing -/

/-- The first step of closing sets the flag; on an open service a step follows
that leads to the signal. -/
theorem closeStep_mark (s : Service) :
    (s.closeStep .mark).1.isClosed = true ∧ (s.closeStep .mark).1.signals = s.signals ∧
      (∀ step, (s.closeStep .mark).1.wakes step = s.wakes step) ∧
      (s.isClosed = false → ∃ step, (s.closeStep .mark).2 = some step ∧ s.wakes step = true) := by
  cases s with
  | notifying s =>
    refine ⟨rfl, rfl, fun _ => rfl, fun hopen => ⟨.release, ?_, rfl⟩⟩
    show (if s.closed = true then none else some CloseStep.release) = _
    rw [if_neg (by rw [show s.closed = false from hopen]; simp)]
  | memory s =>
    refine ⟨rfl, rfl, fun _ => rfl, fun hopen => ⟨.signal, ?_, rfl⟩⟩
    show (if s.closed = true then none else some CloseStep.signal) = _
    rw [if_neg (by rw [show s.closed = false from hopen]; simp)]

/-- Any other step leaves the flag and the queue as they are, or puts the signal
into the queue. -/
theorem closeStep_ne_mark (s : Service) {step : CloseStep} (h : step ≠ .mark) :
    (s.closeStep step).1.isClosed = s.isClosed ∧
      (∃ more, (s.closeStep step).1.signals = s.signals ++ more) ∧
      ∀ step', (s.closeStep step).1.wakes step' = s.wakes step' := by
  cases s with
  | notifying s =>
    cases step with
    | mark => exact absurd rfl h
    | release => exact ⟨rfl, ⟨[], (List.append_nil _).symm⟩, fun _ => rfl⟩
    | forget => exact ⟨rfl, ⟨[], (List.append_nil _).symm⟩, fun _ => rfl⟩
    | signal => exact ⟨rfl, ⟨[.closed], rfl⟩, fun _ => rfl⟩
  | memory s =>
    cases step with
    | mark => exact absurd rfl h
    | release => exact ⟨rfl, ⟨[], (List.append_nil _).symm⟩, fun _ => rfl⟩
    | forget => exact ⟨rfl, ⟨[], (List.append_nil _).symm⟩, fun _ => rfl⟩
    | signal => exact ⟨rfl, ⟨[.closed], rfl⟩, fun _ => rfl⟩

/-- No step of closing takes anything out of the queue, or changes which steps lead
to the signal. -/
theorem closeStep_grows (s : Service) (step : CloseStep) :
    (∃ more, (s.closeStep step).1.signals = s.signals ++ more) ∧
      ∀ step', (s.closeStep step).1.wakes step' = s.wakes step' := by
  by_cases hmark : step = .mark
  · subst hmark
    obtain ⟨-, hsignals, hwakes, -⟩ := s.closeStep_mark
    exact ⟨⟨[], by rw [hsignals, List.append_nil]⟩, hwakes⟩
  · exact (s.closeStep_ne_mark hmark).2

/-- A step that leads to the signal is the signal itself, or is followed by another
such step. -/
theorem closeStep_wakes {s : Service} {step : CloseStep} (h : s.wakes step = true) :
    .closed ∈ (s.closeStep step).1.signals ∨
      ∃ step', (s.closeStep step).2 = some step' ∧ s.wakes step' = true := by
  cases s with
  | notifying s =>
    cases step with
    | mark => exact absurd h (by simp [wakes])
    | release => exact Or.inr ⟨.forget, rfl, rfl⟩
    | forget => exact Or.inr ⟨.signal, rfl, rfl⟩
    | signal => exact Or.inl (List.mem_append_right _ (List.mem_singleton_self _))
  | memory s =>
    cases step with
    | signal => exact Or.inl (List.mem_append_right _ (List.mem_singleton_self _))
    | mark => exact absurd h (by simp [wakes])
    | release => exact absurd h (by simp [wakes])
    | forget => exact absurd h (by simp [wakes])

/-- How many steps of closing there are from one on, at most. -/
def stepsLeft : CloseStep → Nat
  | .mark => 4
  | .release => 3
  | .forget => 2
  | .signal => 1

/-- Closing goes forward. -/
theorem closeStep_next {s : Service} {step next : CloseStep}
    (h : (s.closeStep step).2 = some next) : stepsLeft next < stepsLeft step := by
  cases s with
  | notifying s =>
    cases step with
    | mark =>
      have hnext : (if s.closed then none else some CloseStep.release) = some next := h
      split at hnext
      · exact absurd hnext (by simp)
      · obtain rfl := Option.some.inj hnext
        decide
    | release => obtain rfl := Option.some.inj h; decide
    | forget => obtain rfl := Option.some.inj h; decide
    | signal => exact absurd (show none = some next from h) (by simp)
  | memory s =>
    cases step with
    | mark =>
      have hnext : (if s.closed then none else some CloseStep.signal) = some next := h
      split at hnext
      · exact absurd hnext (by simp)
      · obtain rfl := Option.some.inj hnext
        decide
    | release => exact absurd (show none = some next from h) (by simp)
    | forget => exact absurd (show none = some next from h) (by simp)
    | signal => exact absurd (show none = some next from h) (by simp)

end ChangeWatch.Service

/-! ### A service that refuses nothing -/

namespace ChangeWatch.MemoryService

/-- A service that is open and whose faults keep no directory from being registered. -/
structure Obliging (s : MemoryService) : Prop where
  running : s.closed = false
  refused : s.faults.refused = []
  vanishing : s.faults.vanishing = []

/-- What registering a directory comes to: a directory registered before keeps its key,
any other gets the next one. -/
inductive Registers (s : MemoryService) (dir : Path) : Key → MemoryService → Prop
  | again {key : Key} {accepted : List (Path × List EventKind)} :
      s.keyOf? dir = some key → Registers s dir key { s with accepted }
  | anew {accepted : List (Path × List EventKind)} :
      s.keyOf? dir = none →
        Registers s dir ⟨s.nextKey⟩ { s with
          accepted, dirs := s.dirs ++ [(dir, ⟨s.nextKey⟩)], nextKey := s.nextKey + 1 }

theorem Obliging.register {s : MemoryService} (h : s.Obliging) (disk : Disk) (dir : Path)
    (kinds : List EventKind) :
    ∃ key s', s.register disk dir kinds = (.ok key, s', disk) ∧ Registers s dir key s' := by
  have hdisk : s.afterRegister disk dir = disk := by
    unfold afterRegister
    rw [h.vanishing]
    rfl
  unfold MemoryService.register
  rw [if_neg (by rw [h.running]; simp), h.refused, List.find?_nil]
  dsimp only
  cases hkey : s.keyOf? dir with
  | some key => exact ⟨key, _, by rw [hdisk], .again hkey⟩
  | none => exact ⟨_, _, by rw [hdisk], .anew hkey⟩

variable {s s' : MemoryService} {dir : Path} {key : Key}

theorem Registers.obliging (h : Registers s dir key s') (hs : s.Obliging) : s'.Obliging := by
  cases h <;> exact ⟨hs.running, hs.refused, hs.vanishing⟩

theorem Registers.queue (h : Registers s dir key s') : s'.queue = s.queue := by
  cases h <;> rfl

/-- A directory that was registered keeps its key. -/
theorem Registers.kept (h : Registers s dir key s') {p : Path} {k : Key}
    (hk : s.keyOf? p = some k) : s'.keyOf? p = some k := by
  cases h with
  | again => exact hk
  | anew =>
    obtain ⟨entry, hfind, hentry⟩ := Option.map_eq_some_iff.mp hk
    have hfind' : (s.dirs ++ [(dir, Key.mk s.nextKey)]).find? (fun entry => entry.1.same p) =
        some entry := by
      rw [List.find?_append, hfind]
      rfl
    exact Option.map_eq_some_iff.mpr ⟨entry, hfind', hentry⟩

/-- The directory is registered after it. -/
theorem Registers.known (h : Registers s dir key s') : s'.keyOf? dir = some key := by
  cases h with
  | again hkey => exact hkey
  | anew hnone =>
    have hfind : s.dirs.find? (fun entry => entry.1.same dir) = none :=
      Option.map_eq_none_iff.mp hnone
    have hsame : dir.same dir = true := decide_eq_true rfl
    have hfind' : (s.dirs ++ [(dir, Key.mk s.nextKey)]).find? (fun entry => entry.1.same dir) =
        some (dir, ⟨s.nextKey⟩) := by
      rw [List.find?_append, hfind, Option.none_or, List.find?_singleton, if_pos hsame]
    exact Option.map_eq_some_iff.mpr ⟨_, hfind', rfl⟩

/-- Nothing else is registered by it. -/
theorem Registers.only (h : Registers s dir key s') {p : Path}
    (hp : (s'.keyOf? p).isSome = true) : (s.keyOf? p).isSome = true ∨ dir.same p = true := by
  cases h with
  | again => exact Or.inl hp
  | anew =>
    obtain ⟨k, hk⟩ := Option.isSome_iff_exists.mp hp
    obtain ⟨entry, hfind, -⟩ := Option.map_eq_some_iff.mp hk
    have hfind : (s.dirs ++ [(dir, Key.mk s.nextKey)]).find? (fun entry => entry.1.same p) =
        some entry := hfind
    rw [List.find?_append] at hfind
    cases hold : s.dirs.find? (fun entry => entry.1.same p) with
    | some old =>
      left
      unfold keyOf?
      rw [hold]
      rfl
    | none =>
      right
      rw [hold, Option.none_or] at hfind
      have hsame := List.find?_some hfind
      obtain rfl := List.mem_singleton.mp (List.mem_of_find?_eq_some hfind)
      exact hsame

/-- A registration that is accepted, whatever the faults. -/
theorem registers_of_ok {disk disk' : Disk} {kinds : List EventKind}
    (h : s.register disk dir kinds = (.ok key, s', disk')) : Registers s dir key s' := by
  unfold MemoryService.register at h
  split at h
  · exact absurd (Prod.mk.inj h).1 (by simp)
  · split at h
    · exact absurd (Prod.mk.inj h).1 (by simp)
    · split at h
      · next hkey =>
        obtain ⟨hok, hrest⟩ := Prod.mk.inj h
        obtain rfl := Except.ok.inj hok
        obtain ⟨rfl, -⟩ := Prod.mk.inj hrest
        exact .again hkey
      · next hnone =>
        obtain ⟨hok, hrest⟩ := Prod.mk.inj h
        obtain rfl := Except.ok.inj hok
        obtain ⟨rfl, -⟩ := Prod.mk.inj hrest
        exact .anew hnone

end ChangeWatch.MemoryService

/-! ### What is registered is found -/

namespace ChangeWatch

/-- Giving another value to a key changes what is found under it, and nothing else. -/
theorem lookup_map_value {α β : Type} [DecidableEq α] (entries : List (α × β)) (key key' : α)
    (value : β) :
    (entries.map fun entry => if entry.1 = key then (entry.1, value) else entry).lookup key' =
      if key' = key then (entries.lookup key').map fun _ => value else entries.lookup key' := by
  induction entries with
  | nil => simp
  | cons entry rest ih =>
    obtain ⟨k, old⟩ := entry
    have hfirst : (if k = key then (k, value) else (k, old)).1 = k := by split <;> rfl
    rw [List.map_cons, List.lookup_cons, List.lookup_cons, hfirst]
    by_cases hk : key' = k
    · subst hk
      by_cases hkey : key' = key <;> simp [hkey]
    · rw [beq_eq_false_iff_ne.mpr hk]
      exact ih

/-- What is written under a key, in place of an entry or as a new one, is found under that key
alone. -/
theorem lookup_write {α β : Type} [DecidableEq α] (entries : List (α × β)) (key key' : α)
    (value : β) :
    (if entries.any fun entry => entry.1 = key then
        entries.map fun entry => if entry.1 = key then (entry.1, value) else entry
      else entries ++ [(key, value)]).lookup key' =
      if key' = key then some value else entries.lookup key' := by
  split
  · next hany =>
    obtain ⟨entry, hmem, hentry⟩ := List.any_eq_true.mp hany
    rw [lookup_map_value]
    by_cases h : key' = key
    · have hsome : (entries.lookup key').isSome = true := by
        rw [h, ← of_decide_eq_true hentry, List.lookup_isSome_iff]
        exact ⟨entry, hmem, beq_self_eq_true _⟩
      obtain ⟨old, hold⟩ := Option.isSome_iff_exists.mp hsome
      rw [if_pos h, if_pos h, hold]
      rfl
    · rw [if_neg h, if_neg h]
  · -- there is none, and the new entry comes last
    next hnone =>
    rw [List.lookup_append]
    by_cases h : key' = key
    · have hfree : entries.lookup key' = none := by
        rw [List.lookup_eq_none_iff]
        intro entry hmem
        have hne : entry.1 ≠ key := fun heq =>
          hnone (List.any_eq_true.mpr ⟨entry, hmem, decide_eq_true heq⟩)
        rw [h]
        exact bne_iff_ne.mpr (Ne.symm hne)
      rw [if_pos h, hfree, h, Option.none_or, List.lookup_cons_self]
    · rw [if_neg h, List.lookup_cons, beq_eq_false_iff_ne.mpr h, List.lookup_nil, Option.or_none]

/-- A directory is found as it was put last, and the others as before. -/
theorem Registry.registration?_insert (r : Registry) (dir : Path) (reg : Registration) (p : Path) :
    (r.insert dir reg).registration? p = if dir.same p then some reg else r.registration? p := by
  have hkept : (r.insert dir reg).byDir = (r.setDir dir reg).byDir := by
    unfold Registry.insert Registry.setKey
    split <;> rfl
  have hsame : ∀ {q : Path}, q.same p = true → q.same dir = dir.same p := by
    intro q hq
    have hcomponents : q.components = p.components := of_decide_eq_true hq
    unfold Path.same
    rw [hcomponents]
    exact decide_eq_decide.mpr eq_comm
  unfold registration?
  rw [hkept]
  unfold setDir
  split
  · -- the entry for the directory is replaced, and no entry changes its directory
    next hany =>
    dsimp only
    rw [List.find?_map]
    have hcomp : ((fun entry : Path × Registration => entry.1.same p) ∘
        fun (entry : Path × Registration) =>
          if entry.1.same dir then (entry.1, reg) else (entry.1, entry.2)) =
        fun entry => entry.1.same p := by
      funext entry
      dsimp only [Function.comp]
      split <;> rfl
    rw [hcomp]
    cases hfirst : r.byDir.find? (fun entry => entry.1.same p) with
    | none =>
      obtain ⟨entry, hmem, hentry⟩ := List.any_eq_true.mp hany
      have hother := List.find?_eq_none.mp hfirst entry hmem
      rw [if_neg fun hdir => hother ?_]
      · rfl
      · have hcomponents : entry.1.components = dir.components := of_decide_eq_true hentry
        exact decide_eq_true (hcomponents.trans (of_decide_eq_true hdir))
    | some first =>
      have hfound : first.1.same p = true := by
        have hsome := List.find?_some hfirst
        exact hsome
      rw [Option.map_some, hsame hfound]
      split <;> rfl
  · next hnone =>
    rw [List.find?_append, List.find?_singleton]
    by_cases hdir : dir.same p = true
    · have hnot : r.byDir.find? (fun entry => entry.1.same p) = none := by
        rw [List.find?_eq_none]
        intro entry hmem hentry
        refine hnone (List.any_eq_true.mpr ⟨entry, hmem, ?_⟩)
        rw [hsame hentry]
        exact hdir
      rw [hnot, if_pos hdir, if_pos hdir]
      rfl
    · rw [if_neg hdir, if_neg hdir, Option.or_none]

/-- A directory is found under the key under which it was put last. -/
theorem Registry.keyOf?_insert (r : Registry) (dir : Path) (reg : Registration) :
    (r.insert dir reg).keyOf? dir = some reg.key := by
  have hself : dir.same dir = true := decide_eq_true rfl
  unfold keyOf?
  rw [registration?_insert, if_pos hself]
  rfl

/-- A key leads to the directory that was put under it last, and the others where they did. -/
theorem Registry.dirOf?_insert (r : Registry) (dir : Path) (reg : Registration) (key : Key) :
    (r.insert dir reg).dirOf? key = if key = reg.key then some dir else r.dirOf? key := by
  have hkept : (r.setDir dir reg).byKey = r.byKey := by
    unfold Registry.setDir
    split <;> rfl
  unfold Registry.dirOf?
  rw [← lookup_write r.byKey reg.key key dir]
  unfold Registry.insert Registry.setKey
  rw [hkept]
  split <;> rfl

/-- A key that is struck out leads nowhere, and the others lead where they did. -/
theorem Registry.dirOf?_eraseKey (r : Registry) (key key' : Key) :
    (r.eraseKey key).dirOf? key' = if key' = key then none else r.dirOf? key' := by
  unfold Registry.eraseKey Registry.dirOf?
  dsimp only
  induction r.byKey with
  | nil => simp
  | cons entry rest ih =>
    obtain ⟨k, dir⟩ := entry
    by_cases hk : k = key
    · subst hk
      rw [List.filter_cons_of_neg (by simp), ih]
      by_cases h : key' = k
      · rw [if_pos h, if_pos h]
      · rw [if_neg h, if_neg h, List.lookup_cons, beq_eq_false_iff_ne.mpr h]
    · rw [List.filter_cons_of_pos (by simpa using hk), List.lookup_cons, List.lookup_cons, ih]
      by_cases h : key' = k
      · have hother : ¬key' = key := fun heq => hk (h.symm.trans heq)
        rw [beq_iff_eq.mpr h, if_neg hother, if_neg hother]
      · rw [beq_eq_false_iff_ne.mpr h]

/-- A directory that a service accepts is registered under the key that it gives. -/
theorem Service.register_known {s : Service} {disk : Disk} {dir : Path} {kinds : List EventKind}
    {key : Key} (h : (s.register disk dir kinds).1 = .ok key) :
    (s.register disk dir kinds).2.1.keyOf? dir = some key := by
  cases s with
  | notifying s =>
    unfold Service.register at h ⊢
    dsimp only at h ⊢
    unfold NotifyingService.register at h ⊢
    split at h
    · exact absurd h (by simp)
    · dsimp only at h ⊢
      split at h
      · obtain rfl := Except.ok.inj h
        exact Registry.keyOf?_insert _ dir _
      · exact absurd h (by simp)
  | memory s =>
    unfold Service.register at h ⊢
    dsimp only at h ⊢
    rcases hregister : s.register disk dir kinds with ⟨r, s', disk'⟩
    rw [hregister] at h
    obtain rfl : r = .ok key := h
    exact (MemoryService.registers_of_ok hregister).known

end ChangeWatch
