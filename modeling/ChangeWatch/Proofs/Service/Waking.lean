import ChangeWatch.Proofs.Service.Steps
import ChangeWatch.Proofs.Work.Setting

/-!
# Takers that wait while a service is closed

A service is shared by any number of threads.  Each call of `take` is two steps, a look at
the closed flag and then the front of the queue, and each call of `close` is up to four
(`perform`); they are called whenever someone likes, the backend reports and complains,
and directories are registered and reset (`setting`).

The flag is looked at before the queue is waited for, and the one call of `close` that sets
it queues one signal.  So from then on a taker that waits is let go by what was in the queue
at that moment, by what the backend still had to say, or by that signal, and each of them
lets one go: what waits, less what is queued or yet to be queued, changes by what
arrives alone (`move_balance` for one move, `run_balance` for a run).  `run_wakes` is what
this comes to when nothing can move any more: of the takers that were past the flag when it
was set, so many are left as there were more of them than signals.

One taker is therefore always let go, as a watch loop needs it; a second one need not be
(`second_taker_is_left`).
-/

namespace ChangeWatch

namespace Waking

/-! ### The setting -/

/-- What is left to do of a call. -/
inductive Call where
  | take
  /-- A taker is past the flag. -/
  | receive
  | close (step : CloseStep)
  deriving DecidableEq, Repr

def perform : Call → NotifyingService → Option (Done NotifyingService Call)
  | .take, s =>
    some (match s.enter with
      | some _ => .just s
      | none => .andThen s [.receive])
  | .receive, s => s.receive.map fun r => .just r.2
  | .close step, s => some (.andThen (s.closeStep step).1 ((s.closeStep step).2.toList.map .close))

/-- What may come from outside. -/
inductive Outside where
  /-- Someone calls `take`. -/
  | take
  /-- Someone calls `close`. -/
  | close
  /-- The backend reports, while the disk is like this. -/
  | report (disk : Disk) (r : Report)
  | complain (e : BackendError)
  | register (disk : Disk) (dir : Path) (kinds : List EventKind)
  | reset (disk : Disk) (key : Key)
  deriving DecidableEq, Repr

/-- A service and the calls that are under way. -/
abbrev Shared := Pool NotifyingService Call

def outside : Outside → Shared → Option Shared
  | .take, p => some (p.spawn [.take])
  | .close, p => some (p.spawn [.close .mark])
  | .report disk r, p => some (p.modify (·.hear disk r))
  | .complain e, p => some (p.modify (·.hearFailure e))
  | .register disk dir kinds, p => some (p.modify fun s => (s.register disk dir kinds).2)
  | .reset disk key, p => some (p.modify fun s => (s.reset disk key).2)

/-- A service at which threads take and close in any order. -/
def setting : Setting NotifyingService Call Outside :=
  ⟨⟨perform⟩, outside⟩

/-- A service at which nobody has called anything yet. -/
def unused (s : NotifyingService) : Shared := ⟨s, []⟩

/-! ### What is counted -/

/-- A taker that is past the flag, and returns when a signal comes. -/
def Call.waits : Call → Bool
  | .receive => true
  | _ => false

/-- A call of `close` that has set the flag, and has its signal still to queue. -/
def Call.owes : Call → Bool
  | .close step => step ≠ .mark
  | _ => false

/-- How many takers are past the flag. -/
def waiting (p : Shared) : Nat := p.jobs.countP Call.waits

/-- How many signals are still to be queued by calls of `close`. -/
def owing (p : Shared) : Nat := p.jobs.countP Call.owes

/-- What the backend puts into the queue when something comes from outside. -/
def Outside.signals (s : NotifyingService) : Outside → List Signal
  | .report disk r => if s.backend.isSome then (s.registry.translate disk r).map .batch else []
  | .complain e => if s.backend.isSome then [.failure e] else []
  | _ => []

/-- What the backend puts into the queue in a move. -/
def arriving : Move Outside → Shared → List Signal
  | .job _, _ => []
  | .outside e, p => e.signals p.state

/-- A service that is closed all the time from `p` to `q`: what waits, less what is queued or
yet to be queued, has changed by what arrived alone. -/
def Balanced (p : Shared) (arrived : List Signal) (q : Shared) : Prop :=
  q.state.closed = true ∧
    waiting q + (p.state.queue.length + owing p) + arrived.length =
      waiting p + (q.state.queue.length + owing q)

/-- Nothing can move any more, and every call of `close` has returned. -/
structure AtRest (p : Shared) : Prop where
  closed : p.state.closed = true
  returned : ∀ step, .close step ∉ p.jobs
  still : ∀ i, p.step setting.machine i = none

variable {s : NotifyingService} {call : Call} {d : Done NotifyingService Call}
  {p q r : Shared} {moves : List (Move Outside)}

theorem Balanced.trans {before since : List Signal} (h : Balanced p before q)
    (h' : Balanced q since r) : Balanced p (before ++ since) r := by
  obtain ⟨-, hbefore⟩ := h
  obtain ⟨hclosed, hsince⟩ := h'
  refine ⟨hclosed, ?_⟩
  rw [List.length_append]
  omega

/-! ### Jobs -/

theorem closeStep_closed (hclosed : s.closed = true) (step : CloseStep) :
    (s.closeStep step).1.closed = true := by
  cases step with
  | mark => rfl
  | release | forget | signal => exact hclosed

/-- No call starts a thread. -/
theorem perform_spawned (h : perform call s = some d) : d.spawned = [] := by
  cases call with
  | take =>
    obtain rfl := Option.some.inj h
    split <;> rfl
  | receive =>
    obtain ⟨r, -, rfl⟩ := Option.map_eq_some_iff.mp h
    rfl
  | close step =>
    obtain rfl := Option.some.inj h
    rfl

/-- At a closed service, a signal is taken for each taker that is done, and queued for each
call of `close` that owed it; and nobody starts to wait. -/
theorem perform_balance (h : perform call s = some d) (hclosed : s.closed = true) :
    d.state.closed = true ∧ d.next.countP Call.waits = 0 ∧
      d.state.queue.length + d.next.countP Call.owes + (if call.waits then 1 else 0) =
        s.queue.length + (if call.owes then 1 else 0) := by
  cases call with
  | take =>
    have henter : s.enter = some .closed := if_pos hclosed
    simp only [perform, henter] at h
    obtain rfl := Option.some.inj h
    exact ⟨hclosed, rfl, rfl⟩
  | receive =>
    obtain ⟨⟨taken, s'⟩, hr, rfl⟩ := Option.map_eq_some_iff.mp h
    obtain ⟨signal, hqueue, -, hsame⟩ := NotifyingService.receive_front hr
    have hstill : s'.closed = true := by
      rw [hsame]
      exact hclosed
    refine ⟨hstill, rfl, ?_⟩
    rw [hqueue]
    rfl
  | close step =>
    obtain rfl := Option.some.inj h
    refine ⟨closeStep_closed hclosed step, ?_, ?_⟩
    · exact List.countP_eq_zero.mpr fun c hc => by
        obtain ⟨next, -, rfl⟩ := List.mem_map.mp hc
        exact Bool.false_ne_true
    · cases step with
      | mark =>
        have hnext : (s.closeStep .mark).2 = none := if_pos hclosed
        show _ + (((s.closeStep .mark).2.toList.map Call.close).countP Call.owes) + 0 = _
        rw [hnext]
        rfl
      | release | forget => rfl
      | signal => exact List.length_append

/-- At an open service, one call sets the flag and owes a signal from then on; all others
leave it open and owe nothing. -/
theorem perform_open (h : perform call s = some d) (hopen : s.closed = false)
    (hcall : call.owes = false) :
    d.state.closed = false ∧ d.next.countP Call.owes = 0 ∨
      d.state.closed = true ∧ call.waits = false ∧ d.next.countP Call.waits = 0 ∧
        d.next.countP Call.owes = 1 ∧ d.state.queue = s.queue := by
  -- only the mark sets the flag, and then it owes the signal
  cases call with
  | take =>
    have henter : s.enter = none := if_neg (by rw [hopen]; simp)
    simp only [perform, henter] at h
    obtain rfl := Option.some.inj h
    exact Or.inl ⟨hopen, rfl⟩
  | receive =>
    obtain ⟨⟨taken, s'⟩, hr, rfl⟩ := Option.map_eq_some_iff.mp h
    obtain ⟨-, -, -, hsame⟩ := NotifyingService.receive_front hr
    have hstill : s'.closed = false := by
      rw [hsame]
      exact hopen
    exact Or.inl ⟨hstill, rfl⟩
  | close step =>
    obtain rfl := Option.some.inj h
    cases step with
    | mark =>
      have hnext : (s.closeStep .mark).2 = some .release := if_neg (by rw [hopen]; simp)
      refine Or.inr ⟨rfl, rfl, ?_, ?_, rfl⟩
      · show ((s.closeStep .mark).2.toList.map Call.close).countP Call.waits = 0
        rw [hnext]
        rfl
      · show ((s.closeStep .mark).2.toList.map Call.close).countP Call.owes = 1
        rw [hnext]
        rfl
    | release | forget | signal => exact absurd hcall (by decide)

/-! ### From outside -/

/-- What comes from outside leaves the flag as it is, lets nobody past it, and adds to the
queue what the backend has to say. -/
theorem outside_balance {e : Outside} (h : outside e p = some q) :
    q.state.closed = p.state.closed ∧ waiting q = waiting p ∧ owing q = owing p ∧
      q.state.queue = p.state.queue ++ e.signals p.state := by
  -- a call that comes is neither past the flag nor does it owe the signal of closing
  have hspawn : ∀ call : Call, call.waits = false → call.owes = false →
      waiting (p.spawn [call]) = waiting p ∧ owing (p.spawn [call]) = owing p := by
    intro call hwaits howes
    constructor
    · unfold waiting
      rw [Pool.jobs_spawn, List.countP_append, List.countP_singleton, hwaits]
      rfl
    · unfold owing
      rw [Pool.jobs_spawn, List.countP_append, List.countP_singleton, howes]
      rfl
  cases e with
  | take =>
    obtain rfl := Option.some.inj h
    obtain ⟨hwaiting, howing⟩ := hspawn .take rfl rfl
    exact ⟨rfl, hwaiting, howing, (List.append_nil _).symm⟩
  | close =>
    obtain rfl := Option.some.inj h
    obtain ⟨hwaiting, howing⟩ := hspawn (.close .mark) rfl rfl
    exact ⟨rfl, hwaiting, howing, (List.append_nil _).symm⟩
  | report disk r =>
    obtain rfl := Option.some.inj h
    have hheard : (p.state.hear disk r).closed = p.state.closed ∧
        (p.state.hear disk r).queue =
          p.state.queue ++ (Outside.report disk r).signals p.state := by
      unfold NotifyingService.hear Outside.signals
      split
      · exact ⟨rfl, rfl⟩
      · exact ⟨rfl, (List.append_nil _).symm⟩
    exact ⟨hheard.1, rfl, rfl, hheard.2⟩
  | complain e =>
    obtain rfl := Option.some.inj h
    have hheard : (p.state.hearFailure e).closed = p.state.closed ∧
        (p.state.hearFailure e).queue =
          p.state.queue ++ (Outside.complain e).signals p.state := by
      unfold NotifyingService.hearFailure Outside.signals
      split
      · exact ⟨rfl, rfl⟩
      · exact ⟨rfl, (List.append_nil _).symm⟩
    exact ⟨hheard.1, rfl, rfl, hheard.2⟩
  | register disk dir kinds =>
    obtain rfl := Option.some.inj h
    have halike := Service.alike_register (.notifying p.state) disk dir kinds
    exact ⟨halike.closed, rfl, rfl, halike.signals.trans (List.append_nil _).symm⟩
  | reset disk key =>
    obtain rfl := Option.some.inj h
    have halike := Service.alike_reset (.notifying p.state) disk key
    exact ⟨halike.closed, rfl, rfl, halike.signals.trans (List.append_nil _).symm⟩

/-! ### Moves -/

/-- How a job changes what is counted. -/
theorem counts_of_step {i : Nat} (h : p.step setting.machine i = some q) : ∃ call d,
    call ∈ p.jobs ∧ perform call p.state = some d ∧ q.state = d.state ∧
      waiting q + (if call.waits then 1 else 0) = waiting p + d.next.countP Call.waits ∧
      owing q + (if call.owes then 1 else 0) = owing p + d.next.countP Call.owes := by
  obtain ⟨call, rest, d, hi, hd, rfl⟩ := Pool.step_eq_some h
  refine ⟨call, d, (Pool.jobs_of_set (d := d) (s := p.state) hi).before, hd, rfl, ?_, ?_⟩
  · have hcount := Pool.countP_of_set (d := d) (s := p.state) Call.waits hi
    rw [perform_spawned hd] at hcount ⊢
    exact hcount
  · have hcount := Pool.countP_of_set (d := d) (s := p.state) Call.owes hi
    rw [perform_spawned hd] at hcount ⊢
    exact hcount

theorem move_balance {a : Move Outside} (h : setting.move a p = some q)
    (hclosed : p.state.closed = true) : Balanced p (arriving a p) q := by
  cases a with
  | outside e =>
    obtain ⟨hsame, hwaiting, howing, hqueue⟩ := outside_balance h
    refine ⟨hsame.trans hclosed, ?_⟩
    rw [hwaiting, howing, hqueue, List.length_append, arriving]
    omega
  | job i =>
    obtain ⟨call, d, -, hd, hstate, hwaiting, howing⟩ := counts_of_step h
    obtain ⟨hstill, hnobody, hbalance⟩ := perform_balance hd hclosed
    rw [← hstate] at hstill hbalance
    refine ⟨hstill, ?_⟩
    rw [arriving, List.length_nil]
    omega

/-- At an open service of which no signal is owed, a move leaves that so, or sets the flag
and has one signal owed. -/
theorem move_open {a : Move Outside} (h : setting.move a p = some q)
    (hopen : p.state.closed = false) (howed : owing p = 0) :
    q.state.closed = false ∧ owing q = 0 ∨
      q.state.closed = true ∧ owing q = 1 ∧ waiting q = waiting p ∧
        q.state.queue = p.state.queue := by
  cases a with
  | outside e =>
    obtain ⟨hsame, -, howing, -⟩ := outside_balance h
    exact Or.inl ⟨hsame.trans hopen, howing.trans howed⟩
  | job i =>
    obtain ⟨call, d, hmem, hd, hstate, hwaiting, howing⟩ := counts_of_step h
    have hcall : call.owes = false :=
      Bool.eq_false_iff.mpr (List.countP_eq_zero.mp howed call hmem)
    rw [howed, hcall] at howing
    rcases perform_open hd hopen hcall with
      ⟨hstill, hnone⟩ | ⟨hset, hself, hnobody, hone, hqueue⟩
    · exact Or.inl ⟨hstate ▸ hstill, howing.trans (by rw [hnone])⟩
    · rw [hself, hnobody] at hwaiting
      exact Or.inr ⟨hstate ▸ hset, howing.trans (by rw [hone]), hwaiting, hstate ▸ hqueue⟩

/-! ### Runs -/

theorem run_balance (hclosed : p.state.closed = true) (hrun : setting.run? moves p = some q) :
    Balanced p (setting.trail arriving moves p) q := by
  have hstart : Balanced p [] p := ⟨hclosed, rfl⟩
  rw [← List.nil_append (setting.trail arriving moves p)]
  refine Setting.preserved_trail ?_ hstart hrun
  intro arrived r a _ r' hsofar hmove
  exact hsofar.trans (move_balance hmove hsofar.1)

/-- A run by which a service is closed that was open, and of which no signal was owed, has
one move that sets the flag; by that one nothing is queued and nobody is let past the flag,
and one signal is owed after it. -/
theorem run_sets (hclosed : q.state.closed = true) :
    ∀ {moves : List (Move Outside)} {p : Shared}, p.state.closed = false → owing p = 0 →
      setting.run? moves p = some q → ∃ earlier a later r r',
        moves = earlier ++ a :: later ∧ setting.run? earlier p = some r ∧
        setting.move a r = some r' ∧ setting.run? later r' = some q ∧
        r.state.closed = false ∧ r'.state.closed = true ∧
        owing r' = 1 ∧ waiting r' = waiting r ∧ r'.state.queue = r.state.queue := by
  intro moves
  induction moves with
  | nil =>
    intro p hopen _ hrun
    obtain rfl := Option.some.inj hrun
    exact absurd (hopen.symm.trans hclosed) (by simp)
  | cons a rest ih =>
    intro p hopen howed hrun
    obtain ⟨p', hmove, hrest⟩ := Setting.run?_cons.mp hrun
    rcases move_open hmove hopen howed with ⟨hstill, hnone⟩ | ⟨hset, hone, hwaiting, hqueue⟩
    · obtain ⟨earlier, b, later, r, r', rfl, hr, hmoved⟩ := ih hstill hnone hrest
      exact ⟨a :: earlier, b, later, r, r', rfl, Setting.run?_cons.mpr ⟨p', hmove, hr⟩, hmoved⟩
    · exact ⟨[], a, rest, p, p', rfl, rfl, hmove, hrest, hopen, hset, hone, hwaiting, hqueue⟩

/-! ### At rest -/

/-- Whoever still waits when nothing can move waits for an empty queue. -/
theorem AtRest.queue (h : AtRest p) (hwaits : waiting p ≠ 0) : p.state.queue = [] := by
  obtain ⟨call, hcall, -⟩ := List.countP_pos_iff.mp (Nat.pos_of_ne_zero hwaits)
  obtain ⟨t, ht, hmem⟩ := Pool.mem_jobs.mp hcall
  obtain ⟨i, hi⟩ := List.getElem?_of_mem ht
  -- the first job of that thread cannot be done, and only a taker ever has to wait
  cases t with
  | nil => exact absurd hmem (by simp)
  | cons first rest =>
    have hwaits : perform first p.state = none := by
      cases hd : perform first p.state with
      | none => rfl
      | some d =>
        obtain ⟨q, hq, -⟩ := Pool.step_of (m := setting.machine) hi hd
        exact absurd ((h.still i).symm.trans hq) (by simp)
    cases first with
    | take => exact absurd hwaits (by simp [perform])
    | close step => exact absurd hwaits (by simp [perform])
    | receive => exact NotifyingService.receive_none_iff.mp (Option.map_eq_none_iff.mp hwaits)

theorem AtRest.owing (h : AtRest p) : owing p = 0 := by
  refine List.countP_eq_zero.mpr fun call hcall => ?_
  cases call with
  | take | receive => exact Bool.false_ne_true
  | close step => exact absurd hcall (h.returned step)

/-- Takers and closers share a service that was open.  When it is closed, nothing can move
and every call of `close` has returned, then of the takers that were past the flag when it
was set so many are left as there were more of them than signals: those in the queue at that
moment, those that the backend added later, and the one that tells of the end. -/
theorem run_wakes (hopen : s.closed = false) (hrun : setting.run? moves (unused s) = some p)
    (hrest : AtRest p) : ∃ earlier a later r r',
      moves = earlier ++ a :: later ∧ setting.run? earlier (unused s) = some r ∧
      setting.move a r = some r' ∧ setting.run? later r' = some p ∧
      r.state.closed = false ∧ r'.state.closed = true ∧
      waiting p =
        waiting r - (r.state.queue.length + (setting.trail arriving later r').length + 1) := by
  obtain ⟨earlier, a, later, r, r', hmoves, hr, hmove, hlater, hbefore, hset, hone, hwaiting,
    hqueue⟩ := run_sets hrest.closed hopen rfl hrun
  refine ⟨earlier, a, later, r, r', hmoves, hr, hmove, hlater, hbefore, hset, ?_⟩
  obtain ⟨-, hbalance⟩ := run_balance hset hlater
  rw [hone, hwaiting, hqueue, hrest.owing] at hbalance
  by_cases hleft : waiting p = 0
  · omega
  · rw [hrest.queue hleft, List.length_nil] at hbalance
    omega

/-- Two takers are past the flag when it is set, and before the backend is let go of it
complains once: that lets one of them go, and the signal the other one. -/
theorem complaint_lets_another_go : ∃ moves p,
    setting.run? moves (unused .new) = some p ∧ AtRest p ∧
    ∃ earlier a later r r',
      moves = earlier ++ a :: later ∧ setting.run? earlier (unused .new) = some r ∧
      setting.move a r = some r' ∧ setting.run? later r' = some p ∧
      r.state.closed = false ∧ r'.state.closed = true ∧
      waiting p =
        waiting r - (r.state.queue.length + (setting.trail arriving later r').length + 1) := by
  let moves : List (Move Outside) :=
    [.outside .take, .job 0, .outside .take, .job 1, .outside .close, .job 2,
      .outside (.complain ⟨.watchLimit, []⟩), .job 2, .job 2, .job 2, .job 1, .job 0]
  have hrun : setting.run? moves (unused .new) =
      some ⟨⟨none, Registry.empty.clear, [], true⟩, [[], [], []]⟩ := rfl
  have hrest : AtRest ⟨⟨none, Registry.empty.clear, [], true⟩, [[], [], []]⟩ :=
    ⟨rfl, fun _ => List.not_mem_nil, fun i => match i with
      | 0 | 1 | 2 | _ + 3 => rfl⟩
  exact ⟨moves, _, hrun, hrest, run_wakes rfl hrun hrest⟩

/-- Two takers are past the flag when it is set, and nothing else is queued: the signal lets
one of them go, and the other one waits for ever. -/
theorem second_taker_is_left :
    ¬ ∀ moves p, setting.run? moves (unused .new) = some p → AtRest p → waiting p = 0 := by
  intro h
  let moves : List (Move Outside) :=
    [.outside .take, .job 0, .outside .take, .job 1, .outside .close, .job 2, .job 2, .job 2,
      .job 2, .job 0]
  have hrun : setting.run? moves (unused .new) =
      some ⟨⟨none, Registry.empty.clear, [], true⟩, [[], [.receive], []]⟩ := rfl
  have hrest : AtRest ⟨⟨none, Registry.empty.clear, [], true⟩, [[], [.receive], []]⟩ :=
    ⟨rfl, fun step => by simp [Pool.jobs], fun i => match i with
      | 0 | 1 | 2 | _ + 3 => rfl⟩
  exact absurd (h moves _ hrun hrest) (by decide)

end Waking

end ChangeWatch
