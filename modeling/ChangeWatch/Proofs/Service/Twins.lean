import ChangeWatch.Proofs.Service.Streaming

/-!
# The service in memory answers as the real one does

A service of either sort is called in any order (`Service.Call`): directories are registered,
signals put into its queue, taken without waiting, keys reset, and the service is closed.  Each
call finds the disk as it is at that moment.

What the two sorts keep is different: a list and a counter on the one side, two maps and a
backend on the other.  The list is read as a registry (`MemoryService.ledger`), and the two are
`Twins` as long as the registries have the same entries and the same next key, the queues are
equal, and neither is closed; or else both were closed.  Every call keeps them twins and is
answered alike (`Twins.answer`), provided that it is `Fair` by what was called before.
-/

namespace ChangeWatch

open Registry (Coherent SameEntries)

namespace Backend

/-- A directory that a backend watches when asked to, whatever it watches already. -/
def Accepts (disk : Disk) (dir : Path) : Prop :=
  ∀ b : Backend, ∃ b', b.watch disk dir = .ok b'

theorem accepts_of_stat {disk : Disk} {dir : Path}
    (h : (disk.stat (disk.cwd.toPath.join dir)).isOk = true) : Accepts disk dir := by
  intro b
  cases hstat : disk.stat (disk.cwd.toPath.join dir) with
  | ok found =>
    simp only [watch, hstat]
    exact ⟨_, rfl⟩
  | error fault =>
    rw [hstat] at h
    cases h

end Backend

namespace Service

/-- A call of a service. -/
inductive Call where
  | register (dir : Path) (kinds : List EventKind)
  /-- A batch or an error of the backend is queued. -/
  | queue (signal : Batch ⊕ BackendError)
  /-- A call of `take` that does not wait. -/
  | take
  | reset (key : Key)
  | close
  deriving DecidableEq, Repr

/-- What a call is answered. -/
inductive Answer where
  | registered (answer : Except WatchError Key)
  | queued
  | taken (taken : Option Taken)
  | reset (valid : Bool)
  | closed (error : Option WatchError)
  deriving DecidableEq, Repr

/-- Puts a signal into the queue. -/
def put (signal : Signal) : Service → Service
  | .notifying s => .notifying { s with queue := s.queue ++ [signal] }
  | .memory s => .memory (s.put signal)

/-- A call with the disk as it is then: the answer, and the service after it. -/
def call (disk : Disk) (s : Service) : Call → Answer × Service
  | .register dir kinds =>
    let (answer, s, _) := s.register disk dir kinds
    (.registered answer, s)
  | .queue (.inl batch) => (.queued, s.put (.batch batch))
  | .queue (.inr e) => (.queued, s.put (.failure e))
  | .take =>
    let (taken, s) := s.take
    (.taken taken, s)
  | .reset key =>
    let (valid, s) := s.reset disk key
    (.reset valid, s)
  | .close => (.closed s.closeError?, s.close)

/-- Calls in order, each with the disk that it finds. -/
abbrev History := List (Disk × Call)

/-- The service after a history. -/
def after (s : Service) (history : History) : Service :=
  history.foldl (fun s c => (s.call c.1 c.2).2) s

/-- What the calls of a history are answered, in order. -/
def answers (s : Service) : History → List Answer
  | [] => []
  | c :: rest => (s.call c.1 c.2).1 :: (s.call c.1 c.2).2.answers rest

theorem after_concat (s : Service) (history : History) (c : Disk × Call) :
    s.after (history ++ [c]) = ((s.after history).call c.1 c.2).2 :=
  List.foldl_concat ..

theorem answers_append (s : Service) (front back : History) :
    s.answers (front ++ back) = s.answers front ++ (s.after front).answers back := by
  induction front generalizing s with
  | nil => rfl
  | cons c rest ih => simp only [List.cons_append, answers, ih, after, List.foldl_cons]

/-- Histories in which a directory that is registered is there, from then on to the end, and is
one that the backend accepts, and in which only keys are reset that were given out before. -/
structure Fair (history : History) : Prop where
  registers : ∀ before disk dir kinds later,
    history = before ++ (disk, .register dir kinds) :: later →
      Backend.Accepts disk dir ∧ disk.isDir dir = true ∧ ∀ c ∈ later, c.1.isDir dir = true
  resets : ∀ before disk key later, history = before ++ (disk, .reset key) :: later →
    .registered (.ok key) ∈ (notifying .new).answers before

end Service

namespace MemoryService

variable {s : MemoryService} {dir : Path} {kinds : List EventKind}

/-- What is registered in memory, as a registry. -/
def ledger (s : MemoryService) : Registry :=
  ⟨s.dirs.map fun e => (e.1, ⟨e.2, []⟩), s.dirs.map fun e => (e.2, e.1), s.nextKey⟩

theorem keyOf?_ledger (s : MemoryService) (dir : Path) :
    s.ledger.keyOf? dir = s.keyOf? dir := by
  simp only [Registry.keyOf?, Registry.registration?, ledger, keyOf?, List.find?_map,
    Option.map_map]
  rfl

/-- An open service without faults takes the front of its queue, if there is one. -/
theorem take_eq (s : MemoryService) (hfaults : s.faults = .none) (hrunning : s.closed = false) :
    (Service.memory s).take = (s.queue.head?.map Signal.taken,
      .memory { s with queue := s.queue.tail, takes := s.takes + 1 }) := by
  obtain ⟨faults, dirs, nextKey, queue, closed, takes, closes, accepted, resets⟩ := s
  cases hfaults
  cases hrunning
  cases queue with
  | nil => rfl
  | cons signal rest => cases signal <;> rfl

/-- What all steps of closing come to. -/
theorem close_eq (s : MemoryService) : (Service.memory s).close =
    .memory (if s.closed then { s with closes := s.closes + 1 }
      else { s with closed := true, closes := s.closes + 1, queue := s.queue ++ [.closed] }) := by
  cases hclosed : s.closed with
  | true =>
    simp only [Service.close, Service.closeFrom, Service.closeStep, closeStep, hclosed, if_true]
  | false =>
    simp [Service.close, Service.closeFrom, Service.closeStep, closeStep, hclosed, put]

end MemoryService

namespace NotifyingService

variable {s : NotifyingService}

/-- A directory that the backend accepts is given a key. -/
theorem Open.register_ok (h : s.Open) {disk : Disk} {dir : Path}
    (hdir : Backend.Accepts disk dir) (kinds : List EventKind) :
    ∃ key, (s.register disk dir kinds).1 = .ok key := by
  obtain ⟨backend, hbackend⟩ := Option.isSome_iff_exists.mp h.held
  obtain ⟨backend', hwatch⟩ := hdir backend
  unfold NotifyingService.register
  rw [hbackend]
  dsimp only
  rw [hwatch]
  exact ⟨_, rfl⟩

/-- The paths that keys lead to are those that they led to before, and the one that is
registered. -/
theorem mem_byKey_register {disk : Disk} {dir : Path} {kinds : List EventKind} {e : Key × Path}
    (he : e ∈ (s.register disk dir kinds).2.registry.byKey) :
    e ∈ s.registry.byKey ∨ e.2 = dir := by
  -- an insertion writes one entry, under the path that is registered
  have hinsert : ∀ {r : Registry} {reg : Registration}, e ∈ (r.insert dir reg).byKey →
      e ∈ r.byKey ∨ e.2 = dir := by
    intro r reg he
    have hkeys : (r.setDir dir reg).byKey = r.byKey := by
      unfold Registry.setDir
      split <;> rfl
    unfold Registry.insert Registry.setKey at he
    rw [hkeys] at he
    split at he
    · obtain ⟨⟨k, old⟩, hold, rfl⟩ := List.mem_map.mp he
      dsimp only
      by_cases hk : k = reg.key
      · rw [if_pos hk]
        exact .inr rfl
      · rw [if_neg hk]
        exact .inl hold
    · rcases List.mem_append.mp he with he | he
      · exact .inl he
      · exact .inr (congrArg Prod.snd (List.mem_singleton.mp he))
  -- refused or accepted, what is left comes from one insertion
  unfold register at he
  split at he
  · exact .inl he
  · next backend _ =>
    dsimp only at he
    cases hkey : s.registry.keyOf? dir with
    | some key =>
      simp only [hkey, Option.isSome_some, if_true] at he
      cases hwatch : backend.watch disk dir <;> rw [hwatch] at he <;> exact hinsert he
    | none =>
      simp only [hkey, Option.isSome_none, Bool.false_eq_true, if_false] at he
      cases hwatch : backend.watch disk dir with
      | ok backend' =>
        rw [hwatch] at he
        exact hinsert (r := { s.registry with nextKey := s.registry.nextKey + 1 }) he
      | error e' =>
        rw [hwatch] at he
        exact hinsert (r := { s.registry with nextKey := s.registry.nextKey + 1 })
          (List.mem_of_mem_filter he)

end NotifyingService

namespace Service

variable {before : History} {told : List Answer} {m : MemoryService} {n : NotifyingService}
  {disk : Disk}

/-- Services of the two sorts before they are closed.  Every path that a key leads to was
registered, and every key that was given out leads somewhere. -/
structure Paired (before : History) (told : List Answer) (m : MemoryService)
    (n : NotifyingService) : Prop where
  faults : m.faults = .none
  running : m.closed = false
  isOpen : n.Open
  coherent : n.registry.Coherent
  entries : SameEntries n.registry m.ledger
  next : m.ledger.nextKey = n.registry.nextKey
  queue : m.queue = n.queue
  spelled : ∀ e ∈ n.registry.byKey, ∃ disk kinds, (disk, .register e.2 kinds) ∈ before
  given : ∀ key, .registered (.ok key) ∈ told → ∃ c, (key, c) ∈ n.registry.keyEntries

/-- Services of the two sorts after they were closed. -/
structure Parted (m : MemoryService) (n : NotifyingService) : Prop where
  faults : m.faults = .none
  closed : m.closed = true
  shut : n.Shut

/-- What a call of both comes to: the same answer, and services that are twins again. -/
def AnswersAlike (before : History) (told : List Answer) (m : MemoryService)
    (n : NotifyingService) (c : Disk × Call) : Prop :=
  ∃ answer m' n', (memory m).call c.1 c.2 = (answer, .memory m') ∧
    (notifying n).call c.1 c.2 = (answer, .notifying n') ∧
    (Paired (before ++ [c]) (told ++ [answer]) m' n' ∨ Parted m' n')

theorem Paired.obliging (h : Paired before told m n) : m.Obliging :=
  ⟨h.running, by rw [h.faults]; rfl, by rw [h.faults]; rfl⟩

/-- Twins know the same keys. -/
theorem Paired.keyOf? (h : Paired before told m n) (dir : Path) :
    m.keyOf? dir = n.registry.keyOf? dir := by
  have hledger : m.ledger.Coherent := (Registry.Moved.kept h.entries h.next).coherent h.coherent
  rw [← m.keyOf?_ledger]
  refine Option.ext fun key => ?_
  rw [hledger.keyOf?_iff, h.coherent.keyOf?_iff, h.entries.keys]

/-- A call that gives out no key and leaves the registrations what they are. -/
theorem Paired.kept (h : Paired before told m n) {m' : MemoryService} {n' : NotifyingService}
    {c : Disk × Call} {answer : Answer} (hanswer : ∀ key, answer ≠ .registered (.ok key))
    (hfaults : m'.faults = m.faults) (hrunning : m'.closed = m.closed)
    (hledger : m'.ledger = m.ledger) (hopen : n'.Open) (hregistry : n'.registry = n.registry)
    (hqueue : m'.queue = n'.queue) :
    Paired (before ++ [c]) (told ++ [answer]) m' n' := by
  refine ⟨hfaults.trans h.faults, hrunning.trans h.running, hopen, hregistry ▸ h.coherent, ?_, ?_,
    hqueue, ?_, ?_⟩
  · rw [hledger, hregistry]
    exact h.entries
  · rw [hledger, hregistry]
    exact h.next
  · intro e he
    rw [hregistry] at he
    obtain ⟨disk, kinds, hmem⟩ := h.spelled e he
    exact ⟨disk, kinds, List.mem_append_left _ hmem⟩
  · intro key hkey
    rw [hregistry]
    rcases List.mem_append.mp hkey with hkey | hkey
    · exact h.given key hkey
    · exact absurd (List.mem_singleton.mp hkey).symm (hanswer key)

/-! ### One call -/

/-- A directory that the backend accepts is given the same key by both, and is entered alike. -/
theorem Paired.entered (h : Paired before told m n) {dir : Path} {kinds : List EventKind}
    {key key' : Key} {m' : MemoryService} (hm : MemoryService.Registers m dir key m')
    (hn : NotifyingService.Registers n dir (.ok key') (n.register disk dir kinds).2) :
    key' = key ∧ SameEntries (n.register disk dir kinds).2.registry m'.ledger ∧
      m'.ledger.nextKey = (n.register disk dir kinds).2.registry.nextKey ∧
      ∀ e ∈ n.registry.keyEntries, e ∈ (n.register disk dir kinds).2.registry.keyEntries := by
  have hsame := h.keyOf? dir
  have hnext : m.nextKey = n.registry.nextKey := h.next
  -- both know the directory or neither does, as the ledgers have the same entries
  cases hm with
  | again hkey =>
    rw [hkey] at hsame
    cases hn with
    | again hkey' hentries hcount hanswer =>
      rw [hkey'] at hsame
      rcases hanswer with hanswer | ⟨e, hanswer⟩
      · refine ⟨(Except.ok.inj hanswer).trans (Option.some.inj hsame).symm, ?_,
          h.next.trans hcount.symm, fun e he => hentries.keys ▸ he⟩
        exact ⟨h.entries.dirs.trans hentries.dirs.symm, h.entries.keys.trans hentries.keys.symm⟩
      · cases hanswer
    | anew hnone =>
      rw [hnone] at hsame
      cases hsame
  | anew hnone =>
    rw [hnone] at hsame
    cases hn with
    | again hkey' =>
      rw [hkey'] at hsame
      cases hsame
    | anew _ hdirs hkeys hcount =>
      refine ⟨by rw [hnext], ⟨?_, ?_⟩, ?_, fun e he => ?_⟩
      · rw [hdirs, ← h.entries.dirs, ← hnext]
        simp [MemoryService.ledger, Registry.dirEntries]
      · rw [hkeys, ← h.entries.keys, ← hnext]
        simp [MemoryService.ledger, Registry.keyEntries]
      · rw [hcount, ← hnext]
        rfl
      · rw [hkeys]
        exact List.mem_append_left _ he

theorem Paired.register (h : Paired before told m n) {dir : Path}
    (hdir : Backend.Accepts disk dir) (kinds : List EventKind) :
    AnswersAlike before told m n (disk, .register dir kinds) := by
  obtain ⟨key, m', hm, hmem⟩ := h.obliging.register disk dir kinds
  obtain ⟨key', hok⟩ := h.isOpen.register_ok hdir kinds
  have hregisters := n.registers h.coherent disk dir kinds
  have hcoherent := (hregisters.moved h.coherent).coherent h.coherent
  rw [hok] at hregisters
  obtain ⟨rfl, hentries, hnext, hgrown⟩ := h.entered hmem hregisters
  have hqueue : (n.register disk dir kinds).2.queue = n.queue :=
    (alike_register (.notifying n) disk dir kinds).signals
  have hfaults : m'.faults = m.faults := by cases hmem <;> rfl
  refine ⟨.registered (.ok key'), m', (n.register disk dir kinds).2, ?_, ?_, .inl
    ⟨hfaults.trans h.faults, (hmem.obliging h.obliging).running, h.isOpen.register disk dir kinds,
      hcoherent, hentries, hnext, ?_, ?_, ?_⟩⟩
  · simp only [call, Service.register, hm]
  · simp only [call, Service.register, hok]
  · rw [hmem.queue, hqueue, h.queue]
  · intro e he
    rcases NotifyingService.mem_byKey_register he with he | rfl
    · obtain ⟨d, ks, hbefore⟩ := h.spelled e he
      exact ⟨d, ks, List.mem_append_left _ hbefore⟩
    · exact ⟨disk, kinds, List.mem_append_right _ (List.mem_singleton_self _)⟩
  · intro key hkey
    rcases List.mem_append.mp hkey with hkey | hkey
    · obtain ⟨c, hc⟩ := h.given key hkey
      exact ⟨c, hgrown _ hc⟩
    · have hkey : key = key' := by simpa using hkey
      exact ⟨_, hkey ▸ hregisters.mem_of_ok h.coherent⟩

/-- What is queued waits in both queues. -/
theorem Paired.queued (h : Paired before told m n) (signal : Batch ⊕ BackendError) :
    AnswersAlike before told m n (disk, .queue signal) := by
  have hput : ∀ signal : Signal, (m.put signal).queue = n.queue ++ [signal] := by
    intro signal
    rw [← h.queue]
    rfl
  cases signal with
  | inl batch =>
    exact ⟨.queued, _, _, rfl, rfl, .inl (h.kept (by simp) rfl rfl rfl
      ⟨h.isOpen.running, h.isOpen.held⟩ rfl (hput _))⟩
  | inr e =>
    exact ⟨.queued, _, _, rfl, rfl, .inl (h.kept (by simp) rfl rfl rfl
      ⟨h.isOpen.running, h.isOpen.held⟩ rfl (hput _))⟩

/-- Both take the front of their queues. -/
theorem Paired.take (h : Paired before told m n) : AnswersAlike before told m n (disk, .take) := by
  have hn : (notifying n).take = (n.queue.head?.map Signal.taken,
      .notifying { n with queue := n.queue.tail }) := by
    rw [n.take_eq, h.isOpen.take]
  have hm : (memory m).take = (n.queue.head?.map Signal.taken,
      .memory { m with queue := n.queue.tail, takes := m.takes + 1 }) := by
    rw [m.take_eq h.faults h.running, h.queue]
  refine ⟨.taken (n.queue.head?.map Signal.taken),
    { m with queue := n.queue.tail, takes := m.takes + 1 }, { n with queue := n.queue.tail },
    ?_, ?_, .inl (h.kept (by simp) rfl rfl rfl ⟨h.isOpen.running, h.isOpen.held⟩ rfl rfl)⟩
  · simp only [call, hm]
  · simp only [call, hn]

/-- A key that was given out is valid as long as the directories that were registered are
there. -/
theorem Paired.reset (h : Paired before told m n) {key : Key}
    (hkey : .registered (.ok key) ∈ told)
    (hthere : ∀ dir kinds d, (d, Call.register dir kinds) ∈ before → disk.isDir dir = true) :
    AnswersAlike before told m n (disk, .reset key) := by
  obtain ⟨c, hc⟩ := h.given key hkey
  obtain ⟨dir, hdir⟩ := Registry.dirOf?_isSome hc
  obtain ⟨front, back, hsplit, -⟩ := List.lookup_eq_some_iff.mp hdir
  obtain ⟨d, kinds, hbefore⟩ := h.spelled (key, dir) (by
    rw [hsplit]
    exact List.mem_append_right _ List.mem_cons_self)
  have hn : n.reset disk key = (true, n) := by
    unfold NotifyingService.reset
    rw [if_neg (by rw [h.isOpen.running]; simp), hdir]
    exact if_pos (hthere dir kinds d hbefore)
  have hm : m.reset key = (true, { m with resets := m.resets ++ [key] }) := by
    rw [MemoryService.reset, h.running, h.faults]
    rfl
  refine ⟨.reset true, { m with resets := m.resets ++ [key] }, n, ?_, ?_,
    .inl (h.kept (by simp) rfl rfl rfl h.isOpen rfl h.queue)⟩
  · simp only [call, Service.reset, hm]
  · simp only [call, Service.reset, hn]

/-- Closing ends both. -/
theorem Paired.close (h : Paired before told m n) : AnswersAlike before told m n (disk, .close) := by
  refine ⟨.closed none, { m with
    closed := true, closes := m.closes + 1, queue := m.queue ++ [.closed] }, n.close, ?_, ?_,
    .inr ⟨h.faults, rfl, NotifyingService.shut_close (.inl h.isOpen)⟩⟩
  · simp only [call, m.close_eq, h.running, closeError?, h.faults]
    rfl
  · simp only [call, n.close_eq, closeError?]

/-- Whatever is asked of them, services that were closed answer alike. -/
theorem Parted.call (h : Parted m n) (c : Disk × Call) : AnswersAlike before told m n c := by
  obtain ⟨disk, c⟩ := c
  have hfarewell : m.closedTaken = .closed := by
    rw [MemoryService.closedTaken, h.faults]
    rfl
  -- each call finds the flag set, in memory and behind the backend
  cases c with
  | register dir kinds =>
    refine ⟨.registered (.error .closed), m, n, ?_, ?_, .inr h⟩
    · simp only [Service.call, Service.register, MemoryService.register, h.closed, if_true]
    · simp only [Service.call, Service.register, n.register_of_released h.shut.released]
  | queue signal =>
    cases signal with
    | inl batch =>
      exact ⟨.queued, _, _, rfl, rfl, .inr ⟨h.faults, h.closed,
        ⟨h.shut.closed, h.shut.released, h.shut.dirs, h.shut.keys⟩⟩⟩
    | inr e =>
      exact ⟨.queued, _, _, rfl, rfl, .inr ⟨h.faults, h.closed,
        ⟨h.shut.closed, h.shut.released, h.shut.dirs, h.shut.keys⟩⟩⟩
  | take =>
    refine ⟨.taken (some .closed), { m with takes := m.takes + 1 }, n, ?_, ?_,
      .inr ⟨h.faults, h.closed, h.shut⟩⟩
    · simp only [Service.call, Service.take, enter, MemoryService.enter, h.closed, if_true,
        hfarewell]
    · simp only [Service.call, n.take_eq, h.shut.take]
  | reset key =>
    refine ⟨.reset false, { m with resets := m.resets ++ [key] }, n, ?_, ?_,
      .inr ⟨h.faults, h.closed, h.shut⟩⟩
    · simp only [Service.call, Service.reset, MemoryService.reset, h.closed, Bool.not_true,
        Bool.false_and]
    · simp only [Service.call, Service.reset, n.reset_of_closed h.shut.closed]
  | close =>
    refine ⟨.closed none, { m with closes := m.closes + 1 }, n, ?_, ?_,
      .inr ⟨h.faults, h.closed, h.shut⟩⟩
    · simp only [Service.call, m.close_eq, h.closed, if_true, closeError?, h.faults]
      rfl
    · simp only [Service.call, n.close_eq, NotifyingService.close_of_closed h.shut.closed,
        closeError?]

/-! ### Whole histories -/

/-- Services of the two sorts, both open or both closed. -/
def Twins (before : History) (told : List Answer) (m : MemoryService)
    (n : NotifyingService) : Prop :=
  Paired before told m n ∨ Parted m n

/-- A call of a fair history is answered alike by twins. -/
theorem Twins.call {history later : History} {c : Disk × Call} (h : Twins before told m n)
    (hfair : Fair history) (hsplit : history = before ++ c :: later)
    (htold : told = (notifying .new).answers before) : AnswersAlike before told m n c := by
  rcases h with h | h
  · obtain ⟨disk, c⟩ := c
    cases c with
    | register dir kinds => exact h.register (hfair.registers _ _ _ _ _ hsplit).1 kinds
    | queue signal => exact h.queued signal
    | take => exact h.take
    | reset key =>
      refine h.reset (htold ▸ hfair.resets _ _ _ _ hsplit) fun dir kinds d hmem => ?_
      -- the directory was registered earlier, so it is there now
      obtain ⟨front, back, rfl⟩ := List.append_of_mem hmem
      have hbefore := hfair.registers front d dir kinds (back ++ (disk, .reset key) :: later)
        (by rw [hsplit, List.append_assoc, List.cons_append])
      exact hbefore.2.2 _ (List.mem_append_right _ List.mem_cons_self)
    | close => exact h.close
  · exact h.call c

/-- The services are twins after every front part of a fair history, and have given the same
answers until then. -/
theorem twins_after {history : History} (hfair : Fair history) (before : History) :
    ∀ later, history = before ++ later →
      (memory (.new .none)).answers before = (notifying .new).answers before ∧
      ∃ m n, (memory (.new .none)).after before = .memory m ∧
        (notifying .new).after before = .notifying n ∧
        Twins before ((notifying .new).answers before) m n := by
  induction before using List.reverseRecOn with
  | nil =>
    intro later _
    refine ⟨rfl, .new .none, .new, rfl, rfl, .inl ⟨rfl, rfl, NotifyingService.open_new,
      Registry.coherent_empty, ⟨rfl, rfl⟩, rfl, rfl, ?_, ?_⟩⟩
    · exact fun e he => absurd he List.not_mem_nil
    · exact fun key hkey => absurd hkey List.not_mem_nil
  | append_singleton before c ih =>
    intro later hsplit
    rw [List.append_assoc, List.singleton_append] at hsplit
    obtain ⟨hanswers, m, n, hm, hn, htwins⟩ := ih (c :: later) hsplit
    obtain ⟨answer, m', n', hm', hn', htwins'⟩ := htwins.call hfair hsplit rfl
    have htold : (notifying .new).answers (before ++ [c]) =
        (notifying .new).answers before ++ [answer] := by
      rw [answers_append, hn, answers, hn']
      rfl
    have hgave : (memory (.new .none)).answers (before ++ [c]) =
        (memory (.new .none)).answers before ++ [answer] := by
      rw [answers_append, hm, answers, hm']
      rfl
    refine ⟨by rw [htold, hgave, hanswers], m', n', ?_, ?_, htold ▸ htwins'⟩
    · rw [after_concat, hm, hm']
    · rw [after_concat, hn, hn']

/-- **The service in memory is faithful.**  In every fair history, a fresh service in memory and
a fresh one on top of a backend answer each call alike: they give out the same keys, yield the
same batches and errors in the same order, accept the same resets, and once closed say so to
every further call. -/
theorem memory_answers_as_notifying (history : History) (hfair : Fair history) :
    (memory (.new .none)).answers history = (notifying .new).answers history :=
  (twins_after hfair history [] (List.append_nil _).symm).1

/-- A directory is registered by two spellings and then one below it, a batch and an error are
queued, and after the batch is taken and its key reset the services are closed. -/
theorem closed_twins_answer_alike :
    let disk := (Disk.empty.put [[119]] .dir).put [[119], [97]] .dir
    let calls : List Call := [.register (Location.toPath [[119]]) [.create],
      .register ⟨[47, 119, 47]⟩ [.delete], .register (Location.toPath [[119], [97]]) [.create],
      .queue (.inl ⟨⟨0⟩, [⟨.create, some ⟨[97]⟩⟩]⟩), .queue (.inr ⟨.watchLimit, []⟩), .take,
      .reset ⟨0⟩, .close, .take, .reset ⟨0⟩, .register (Location.toPath [[119]]) [], .close]
    let history : History := calls.map (disk, ·)
    Fair history ∧ (memory (.new .none)).answers history = [.registered (.ok ⟨0⟩),
      .registered (.ok ⟨0⟩), .registered (.ok ⟨1⟩), .queued, .queued,
      .taken (some (.batch ⟨⟨0⟩, [⟨.create, some ⟨[97]⟩⟩]⟩)), .reset true, .closed none,
      .taken (some .closed), .reset false, .registered (.error .closed), .closed none] := by
  intro disk calls history
  have hthere : ∀ c ∈ history, ∀ dir kinds, c.2 = .register dir kinds →
      Backend.Accepts c.1 dir ∧ disk.isDir dir = true := by
    have hchecked : ∀ c ∈ calls, (match c with
        | .register dir _ => (disk.stat (disk.cwd.toPath.join dir)).isOk && disk.isDir dir
        | _ => true) = true := by
      decide +kernel
    intro c hc dir kinds hdir
    obtain ⟨call, hcall, rfl⟩ := List.mem_map.mp hc
    obtain rfl : call = .register dir kinds := hdir
    obtain ⟨hstat, hisDir⟩ := Bool.and_eq_true_iff.mp (hchecked _ hcall)
    exact ⟨Backend.accepts_of_stat hstat, hisDir⟩
  have hfair : Fair history := by
    constructor
    · intro before disk' dir kinds later hsplit
      have hmem : (disk', Call.register dir kinds) ∈ history := by
        rw [hsplit]
        exact List.mem_append_right _ List.mem_cons_self
      obtain ⟨haccepts, hisDir⟩ := hthere _ hmem dir kinds rfl
      have hstill : ∀ c ∈ history, c.1.isDir dir = true := by
        intro c hc
        obtain ⟨call, -, rfl⟩ := List.mem_map.mp hc
        exact hisDir
      refine ⟨haccepts, hstill _ hmem, fun c hc => hstill c ?_⟩
      rw [hsplit]
      exact List.mem_append_right _ (List.mem_cons_of_mem _ hc)
    · intro before disk' key later hsplit
      -- only the key of the first call is reset
      have hkey : key = ⟨0⟩ := by
        have hmem : (disk', Call.reset key) ∈ history := by
          rw [hsplit]
          exact List.mem_append_right _ List.mem_cons_self
        obtain ⟨call, hcall, heq⟩ := List.mem_map.mp hmem
        obtain ⟨-, rfl⟩ := Prod.mk.inj heq
        simpa [calls] using hcall
      cases before with
      | nil => cases (List.cons.inj hsplit).1
      | cons first before =>
        obtain rfl : _ = first := (List.cons.inj hsplit).1
        rw [hkey, answers]
        exact List.mem_cons.mpr (.inl (by decide +kernel))
  refine ⟨hfair, ?_⟩
  rw [memory_answers_as_notifying history hfair]
  decide +kernel

end Service

end ChangeWatch
