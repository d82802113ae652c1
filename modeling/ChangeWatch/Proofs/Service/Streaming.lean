import ChangeWatch.Proofs.Watch.Serving

/-!
# What is taken is what was reported, in order

A service on top of a notification backend is called in any order whatever: directories are
registered, keys reset, batches taken without waiting, the backend reports and complains, the
disk becomes any other, and the service is closed (`call`).

A report is translated by the registrations of the moment at which it comes (`news`).  Until
the service is closed, what was taken and what is still queued are together all that was
reported, in order (`step_account`, `run_account`): nothing is lost, told twice or put in
another order, and registrations that change later change nothing of what is queued.

A service that was closed is `Shut`, and stays as it is whatever is asked of it
(`call_shut`, `run_shut`).
-/

namespace ChangeWatch

namespace NotifyingService

variable {s : NotifyingService}

/-- A call of `take` that does not wait: what it comes to, if there is anything, and the service
after it. -/
def take (s : NotifyingService) : Option Taken × NotifyingService :=
  match s.enter with
  | some taken => (some taken, s)
  | none => (s.receive.map (·.1), s.receive.elim s (·.2))

theorem take_eq (s : NotifyingService) :
    (Service.notifying s).take = (s.take.1, .notifying s.take.2) := by
  unfold Service.take take
  simp only [Service.enter, Service.receive]
  cases s.enter with
  | some taken => rfl
  | none =>
    dsimp only
    cases s.receive <;> rfl

/-! ### Open and shut -/

/-- A service that has its backend and was not closed. -/
structure Open (s : NotifyingService) : Prop where
  running : s.closed = false
  held : s.backend.isSome = true

/-- A service that was closed: the backend is let go of, and nothing is registered. -/
structure Shut (s : NotifyingService) : Prop where
  closed : s.closed = true
  released : s.backend = none
  dirs : s.registry.byDir = []
  keys : s.registry.byKey = []

theorem open_new : new.Open := ⟨rfl, rfl⟩

theorem Open.register (h : s.Open) (disk : Disk) (dir : Path) (kinds : List EventKind) :
    (s.register disk dir kinds).2.Open := by
  obtain ⟨backend, hbackend⟩ := Option.isSome_iff_exists.mp h.held
  unfold NotifyingService.register
  rw [hbackend]
  dsimp only
  cases backend.watch disk dir with
  | ok backend => exact ⟨h.running, rfl⟩
  | error e => exact ⟨h.running, rfl⟩

theorem Open.reset (h : s.Open) (disk : Disk) (key : Key) : (s.reset disk key).2.Open := by
  unfold NotifyingService.reset
  split
  · exact h
  · split
    · exact h
    · split
      · exact h
      · exact ⟨h.running, Option.isSome_map.trans h.held⟩

/-- An open service takes the front of its queue, if there is one. -/
theorem Open.take (h : s.Open) :
    s.take = (s.queue.head?.map Signal.taken, { s with queue := s.queue.tail }) := by
  have henter : s.enter = none := if_neg (by rw [h.running]; simp)
  unfold NotifyingService.take receive
  rw [henter]
  dsimp only
  cases hqueue : s.queue with
  | nil =>
    show (none, s) = (none, { s with queue := [] })
    rw [← hqueue]
  | cons signal rest => rfl

/-- Closing shuts a service that is open, and one that is shut. -/
theorem shut_close (h : s.Open ∨ s.Shut) : s.close.Shut := by
  rcases h with hopen | hshut
  · unfold close
    rw [hopen.running]
    exact ⟨rfl, rfl, rfl, rfl⟩
  · rw [close_of_closed hshut.closed]
    exact hshut

theorem Shut.take (h : s.Shut) : s.take = (some .closed, s) := by
  unfold NotifyingService.take enter
  rw [if_pos h.closed]

theorem Shut.hear (h : s.Shut) (disk : Disk) (report : Report) : s.hear disk report = s := by
  unfold NotifyingService.hear
  rw [h.released]
  rfl

theorem Shut.hearFailure (h : s.Shut) (e : BackendError) : s.hearFailure e = s := by
  unfold NotifyingService.hearFailure
  rw [h.released]
  rfl

theorem Shut.witness (h : s.Shut) (disk : Disk) (changes : List Change) :
    s.witness disk changes = s := by
  unfold NotifyingService.witness
  rw [h.released]

end NotifyingService

namespace Streaming

open Registering (World Turn start)
open Notified (signalsOf hear_all)

variable {w : World}

/-! ### Histories -/

/-- The world after a turn; a closed service gives nothing out of its queue. -/
def call (w : World) : Turn → World
  | .take => { w with service := w.service.take.2 }
  | t => w.turn t

def run (w : World) (turns : List Turn) : World :=
  turns.foldl call w

/-- What a turn takes. -/
def taken (w : World) : Turn → List Taken
  | .take => w.service.take.1.toList
  | _ => []

/-- What a report means to those who take, by the registrations and the disk of the moment. -/
def translated (r : Registry) (disk : Disk) (report : Report) : List Taken :=
  (r.translate disk report).map .batch

/-- What is reported in a turn: by the backend as it is told, or as it witnesses changes. -/
def news (w : World) : Turn → List Taken
  | .report r => translated w.registry w.disk r
  | .complain e => [.failure e]
  | .change disk changes =>
    (w.service.backend.elim [] fun b => (b.witness changes).1).flatMap
      (translated w.registry disk)
  | _ => []

/-- What is taken in a whole history, in order. -/
def takings (w : World) : List Turn → List Taken
  | [] => []
  | t :: rest => taken w t ++ takings (call w t) rest

/-- What is reported in a whole history, each report translated when it comes. -/
def stream (w : World) : List Turn → List Taken
  | [] => []
  | t :: rest => news w t ++ stream (call w t) rest

/-- What waits to be taken. -/
def queued (w : World) : List Taken :=
  w.service.queue.map Signal.taken

theorem run_append (w : World) (turns more : List Turn) :
    run w (turns ++ more) = run (run w turns) more :=
  List.foldl_append

/-! ### An open service -/

/-- A turn other than closing leaves an open service open. -/
theorem open_call (h : w.service.Open) {t : Turn} (ht : t ≠ .close) : (call w t).service.Open := by
  have hsame : ∀ {s : NotifyingService}, s.backend = w.service.backend →
      s.closed = w.service.closed → s.Open := by
    intro s hbackend hclosed
    exact ⟨hclosed.trans h.running, by rw [hbackend]; exact h.held⟩
  cases t with
  | register dir kinds => exact h.register w.disk dir kinds
  | reset key => exact h.reset w.disk key
  | report r =>
    obtain ⟨-, hbackend, hclosed⟩ := w.service.hear_registry w.disk r
    exact hsame hbackend hclosed
  | complain e =>
    obtain ⟨-, hbackend, hclosed⟩ := w.service.hearFailure_registry e
    exact hsame hbackend hclosed
  | change disk changes =>
    obtain ⟨-, hbackend, hclosed⟩ := w.service.witness_registry disk changes
    refine ⟨hclosed.trans h.running, ?_⟩
    rw [Option.isSome_iff_ne_none]
    exact fun hnone => Option.isSome_iff_ne_none.mp h.held (hbackend.mp hnone)
  | take =>
    show w.service.take.2.Open
    rw [h.take]
    exact ⟨h.running, h.held⟩
  | close => exact absurd rfl ht

/-- Signals mean what was translated. -/
theorem taken_signalsOf (s : NotifyingService) (disk : Disk) (reports : List Report) :
    (signalsOf s disk reports).map Signal.taken = reports.flatMap (translated s.registry disk) := by
  unfold signalsOf
  rw [List.map_flatMap]
  refine List.flatMap_congr fun r _ => ?_
  rw [List.map_map]
  rfl

/-- What a turn takes comes off the front of the queue, and what is reported in it is added
behind. -/
theorem step_account (h : w.service.Open) {t : Turn} (ht : t ≠ .close) :
    taken w t ++ queued (call w t) = queued w ++ news w t := by
  have hsame : ∀ {w' : World}, w'.service.queue = w.service.queue →
      [] ++ queued w' = queued w ++ [] := by
    intro w' hqueue
    rw [List.nil_append, List.append_nil, queued, queued, hqueue]
  cases t with
  | register dir kinds => exact hsame (Notified.register_queue w.service w.disk dir kinds)
  | reset key => exact hsame (Service.alike_reset (.notifying w.service) w.disk key).signals
  | report r =>
    have hqueue := hear_all w.disk [r] h.held
    have hheard : (call w (.report r)).service.queue =
        w.service.queue ++ signalsOf w.service w.disk [r] := hqueue
    show queued (call w (.report r)) = queued w ++ translated w.registry w.disk r
    rw [queued, hheard, List.map_append, taken_signalsOf, List.flatMap_singleton]
    rfl
  | complain e =>
    have hheard : (call w (.complain e)).service.queue = w.service.queue ++ [.failure e] := by
      show (w.service.hearFailure e).queue = _
      unfold NotifyingService.hearFailure
      rw [if_pos h.held]
    show queued (call w (.complain e)) = queued w ++ [.failure e]
    rw [queued, hheard, List.map_append]
    rfl
  | change disk changes =>
    obtain ⟨backend, hbackend⟩ := Option.isSome_iff_exists.mp h.held
    -- the reports are translated one by one, but no registration changes meanwhile
    have hheard : (call w (.change disk changes)).service.queue =
        w.service.queue ++ signalsOf w.service disk (backend.witness changes).1 := by
      show (w.service.witness disk changes).queue = _
      unfold NotifyingService.witness
      rw [hbackend]
      exact hear_all disk _ (s := { w.service with backend := some _ }) rfl
    show queued (call w (.change disk changes)) = queued w ++
      (w.service.backend.elim [] fun b => (b.witness changes).1).flatMap (translated w.registry disk)
    rw [queued, hheard, List.map_append, taken_signalsOf, hbackend]
    rfl
  | take =>
    show w.service.take.1.toList ++ w.service.take.2.queue.map Signal.taken = queued w ++ []
    rw [h.take, List.append_nil, queued]
    cases w.service.queue with
    | nil => rfl
    | cons signal rest => rfl
  | close => exact absurd rfl ht

/-- Until the service is closed, what was taken and what is queued are what was queued and
reported before. -/
theorem run_account (turns : List Turn) : ∀ {w : World}, w.service.Open → .close ∉ turns →
    takings w turns ++ queued (run w turns) = queued w ++ stream w turns ∧
      (run w turns).service.Open := by
  induction turns with
  | nil =>
    intro w h _
    exact ⟨(List.append_nil _).symm, h⟩
  | cons t rest ih =>
    intro w h hclose
    have ht : t ≠ .close := Ne.symm (List.ne_of_not_mem_cons hclose)
    have hstep := step_account h ht
    obtain ⟨haccount, hopen⟩ := ih (open_call h ht) (List.not_mem_of_not_mem_cons hclose)
    refine ⟨?_, hopen⟩
    calc takings w (t :: rest) ++ queued (run w (t :: rest))
        = taken w t ++ (takings (call w t) rest ++ queued (run (call w t) rest)) :=
          List.append_assoc _ _ _
      _ = taken w t ++ (queued (call w t) ++ stream (call w t) rest) := by rw [haccount]
      _ = (queued w ++ news w t) ++ stream (call w t) rest := by
          rw [← List.append_assoc, hstep]
      _ = queued w ++ stream w (t :: rest) := List.append_assoc _ _ _

/-! ### A service that was closed -/

/-- Whatever is asked of it, a service that is shut stays what it is. -/
theorem call_shut (h : w.service.Shut) (t : Turn) : (call w t).service = w.service := by
  cases t with
  | register dir kinds =>
    exact congrArg Prod.snd (w.service.register_of_released h.released w.disk dir kinds)
  | reset key => exact congrArg Prod.snd (w.service.reset_of_closed h.closed w.disk key)
  | report r => exact h.hear w.disk r
  | complain e => exact h.hearFailure e
  | change disk changes => exact h.witness disk changes
  | take => exact congrArg Prod.snd h.take
  | close => exact NotifyingService.close_of_closed h.closed

theorem run_shut (turns : List Turn) : ∀ {w : World}, w.service.Shut →
    (run w turns).service.Shut := by
  induction turns with
  | nil => exact fun h => h
  | cons t rest ih =>
    intro w h
    exact ih (w := call w t) (by rw [call_shut h t]; exact h)

/-- Every history leads to a service that is open or shut. -/
theorem open_or_shut (turns : List Turn) : ∀ {w : World}, w.service.Open ∨ w.service.Shut →
    (run w turns).service.Open ∨ (run w turns).service.Shut := by
  induction turns with
  | nil => exact fun h => h
  | cons t rest ih =>
    intro w h
    refine ih (w := call w t) ?_
    rcases h with hopen | hshut
    · by_cases ht : t = .close
      · subst ht
        exact Or.inr (NotifyingService.shut_close (Or.inl hopen))
      · exact Or.inl (open_call hopen ht)
    · exact Or.inr (by rw [call_shut hshut t]; exact hshut)

/-- In every history of a service, what was taken before it is closed is a front part of what
was reported, every report translated by the registrations of the moment at which it came, and
the rest of it is still queued.  Once the service was closed, whatever was done before and
since: taking is told so even if batches are queued, no directory is registered, no key is
valid, the size is zero, closing succeeds once more, and none of these calls changes
anything. -/
theorem history_streams (disk : Disk) (turns : List Turn) :
    (.close ∉ turns →
      takings (start disk) turns <+: stream (start disk) turns ∧
      takings (start disk) turns ++ queued (run (start disk) turns) =
        stream (start disk) turns) ∧
    ∀ more, ∃ s, (run (start disk) (turns ++ .close :: more)).service = s ∧
      (Service.notifying s).take = (some .closed, .notifying s) ∧
      (∀ disk dir kinds, s.register disk dir kinds = (.error .closed, s)) ∧
      (∀ disk key, s.reset disk key = (false, s)) ∧
      s.registry.size = 0 ∧
      (Service.notifying s).close = .notifying s ∧ (Service.notifying s).closeError? = none := by
  have hstart : (start disk).service.Open := NotifyingService.open_new
  refine ⟨fun hclose => ?_, fun more => ⟨_, rfl, ?_⟩⟩
  · -- before a close: what was taken and what is queued make up the stream
    obtain ⟨haccount, -⟩ := run_account turns hstart hclose
    have hnone : queued (start disk) = [] := rfl
    rw [hnone, List.nil_append] at haccount
    exact ⟨⟨_, haccount⟩, haccount⟩
  · -- after a close the service is shut, whatever comes
    have hshut : (run (start disk) (turns ++ .close :: more)).service.Shut := by
      rw [run_append]
      exact run_shut more (NotifyingService.shut_close (open_or_shut turns (Or.inl hstart)))
    generalize (run (start disk) (turns ++ .close :: more)).service = s at hshut ⊢
    refine ⟨?_, fun disk => s.register_of_released hshut.released disk,
      fun disk => s.reset_of_closed hshut.closed disk, ?_, ?_, rfl⟩
    · rw [s.take_eq, hshut.take]
    · unfold Registry.size
      rw [hshut.keys]
      rfl
    · rw [s.close_eq]
      exact congrArg _ (if_pos hshut.closed)

/-- A report about two directories and a complaint come in; in between one of the directories is
deleted and its key reset.  What was translated before stays queued, and is still queued when
the service is closed, but it is not given out any more. -/
theorem cancelled_directory_stays_queued :
    let kept := Disk.empty.put [[119]] .dir
    let full := kept.put [[119], [97]] .dir
    let path (parts : Location) : Path := parts.toPath
    let turns := [Turn.register (path [[119]]) [.create], .register (path [[119], [97]]) [.create],
      .report ⟨.create, [path [[119], [120]], path [[119], [97], [121]]], false⟩, .change kept [],
      .reset ⟨1⟩, .report ⟨.create, [path [[119], [97], [122]]], false⟩,
      .complain ⟨.watchLimit, []⟩, .take]
    let first : Taken := .batch ⟨⟨0⟩, [⟨.create, some ⟨[120]⟩⟩]⟩
    let rest : List Taken := [.batch ⟨⟨1⟩, [⟨.create, some ⟨[121]⟩⟩]⟩, .failure ⟨.watchLimit, []⟩]
    stream (start full) turns = first :: rest ∧ takings (start full) turns = [first] ∧
    takings (start full) turns ++ rest = stream (start full) turns ∧
    ∃ s, (run (start full) (turns ++ [.close])).service = s ∧
      s.queue.map Signal.taken = rest ++ [.closed] ∧
      (Service.notifying s).take = (some .closed, .notifying s) := by
  intro kept full path turns first rest
  obtain ⟨hopen, hclosed⟩ := history_streams full turns
  obtain ⟨-, haccount⟩ := hopen (by decide)
  have hqueued : queued (run (start full) turns) = rest := by decide +kernel
  rw [hqueued] at haccount
  obtain ⟨s, hs, htake, -⟩ := hclosed []
  refine ⟨by decide +kernel, by decide +kernel, haccount, s, hs, ?_, htake⟩
  rw [← hs]
  decide +kernel

end Streaming

end ChangeWatch
