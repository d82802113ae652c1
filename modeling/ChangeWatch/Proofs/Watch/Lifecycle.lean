import ChangeWatch.Proofs.Watch.Lifecycle.Calls
import ChangeWatch.Proofs.Watch.Lifecycle.Teardown

/-!
# The life of a watch

A watch is created, started at most once and stopped once and for all.  What that
means for a run is `LivesOnce`: what is done at most once, for whom the loop runs,
how calls of `start` are answered that fail or come late, what the two flags stand
for, and what is closed when no job of a stop is left.  Every run of every watch,
from the moment it is built, lives so (`run_lives_once`).  A loop that is told that
its service is closed is one of those that call `stop` (`stopping_follows_closed`).

Every beginning of a run is a run, so what is kept from the beginning holds at each
`Moment` at which something is seen.
-/

namespace ChangeWatch.Lifecycle

open Watch

variable {behaviour : Behaviour Wish} {w : Watch} {p q : Running} {moves : List (Move Outside)}
  {strategy : Strategy} {handlers : Handlers} {options : Watch.Options} {disk : Disk}

/-- How a watch lives that has come to the pool `p`, with `L` seen on the way. -/
structure LivesOnce (behaviour : Behaviour Wish) (L : List (Nat × Seen)) (p : Running) : Prop where
  /-- The root is registered, the loop is submitted, the service is asked to close and
  a call of `start` succeeds at most once each. -/
  once : ∀ deed : Deed, L.countP (fun entry => deed.isDone entry.2) ≤ 1
  shutdowns : ∀ g, p.state.desk.debouncer = some g → g.scheduler.shutdowns ≤ 1
  /-- The loop runs only after a registration and a submission that succeeded. -/
  looping : ∀ front i back, L = front ++ (i, .looping) :: back →
    .registered none ∈ front.map (·.2) ∧ .submitted none ∈ front.map (·.2)
  /-- A call whose registration or submission failed returns that error, and then the
  watch is stopped. -/
  failed : ∀ front i e back,
    L = front ++ (i, .registered (some e)) :: back ∨
      L = front ++ (i, .submitted (some e)) :: back →
    Unanswered (onThread i back) ∨
      AnsweredWith e (onThread i back) ∧ p.state.stopped = true
  /-- A call that begins after the stop flag was set registers nothing and returns that
  this is no state to start in, after two more steps of its own at most. -/
  late : ∀ front i back, L = front ++ (i, .called) :: back → .stopping ∈ front.map (·.2) →
    ∃ e : WatchError, e.errorClass = .illegalState ∧
      (AnsweredWith e (onThread i back) ∨
        Unanswered (onThread i back) ∧ ∃ n ≤ 2, ∃ q,
          (setting behaviour).run? (List.replicate n (.job i)) p = some q ∧
          AnsweredWith e (onThread i (log behaviour (List.replicate n (.job i)) p)))
  /-- The stop flag is set by the first call of `stop`, and never cleared. -/
  stopped : p.state.stopped = true ↔ .stopping ∈ L.map (·.2)
  running : p.state.isRunning = true ↔ .called ∈ L.map (·.2) ∧ .stopping ∉ L.map (·.2)
  /-- When no job of a stop is left after one was called, the service is closed, and the
  debouncer is shut down, once. -/
  torn : .stopping ∈ L.map (·.2) → (∀ j ∈ p.jobs, j.stops = false) →
    .closing ∈ L.map (·.2) ∧ p.state.ground.service.isClosed = true ∧
      ∀ g, p.state.desk.debouncer = some g → g.shutDown = true ∧ g.scheduler.shutdowns = 1

/-! ### From the beginning -/

/-- A watch that was just built has done nothing. -/
theorem new_kept (h : Watch.new strategy handlers options disk = .ok w) :
    Tally [] (Running.ofWatch w) ∧ Teardown [] (Running.ofWatch w) := by
  have hfresh := fresh_of_new h
  have hnew : ∀ g, w.desk.debouncer = some g → g.shutDown = false ∧ g.scheduler.shutdowns = 0 := by
    intro g hg
    obtain rfl := eq_of_debouncerFor (hfresh.debouncer_eq ▸ hg)
    exact ⟨rfl, rfl⟩
  have hparked : ∀ j, j ∉ w.executor.parked := by
    rw [hfresh.parked_eq]
    exact fun _ => List.not_mem_nil
  constructor
  · refine ⟨?_, by simp [Running.ofWatch, hfresh.started_eq],
      by simp [Running.ofWatch, hfresh.stopped_eq], fun j hj => absurd hj (hparked j),
      fun caller hj => absurd hj List.not_mem_nil, ?_, by simp⟩
    · intro deed
      exact Nat.zero_le _
    · rintro j (hj | hj)
      · exact absurd hj List.not_mem_nil
      · exact absurd hj (hparked j)
  · have hopen : w.desk.Open := fun g hg => (hnew g hg).1
    have hrunning : (Running.ofWatch w).state.stopped ≠ true := by
      simp [Running.ofWatch, hfresh.stopped_eq]
    refine ⟨fun _ => ⟨hopen, fun j hj => absurd hj List.not_mem_nil⟩, fun hs => absurd hs hrunning,
      fun hs => absurd hs hrunning, hopen.tidy, ?_⟩
    intro g hg
    obtain ⟨hdown, hcount⟩ := hnew g hg
    rw [hcount, hdown]
    rfl

/-- What is kept from the beginning. -/
theorem run_kept (h : Watch.new strategy handlers options disk = .ok w)
    (hrun : (setting behaviour).run? moves (Running.ofWatch w) = some p) :
    Tally (log behaviour moves (Running.ofWatch w)) p ∧
      Teardown (log behaviour moves (Running.ofWatch w)) p :=
  Setting.preserved_log (I := fun L r => Tally L r ∧ Teardown L r)
    (fun _ _ _ _ hkept hmove =>
      ⟨move_tally hkept.1 hmove, move_teardown hkept.2 hkept.1 hmove⟩) (new_kept h) hrun

/-! ### All runs -/

/-- Every run of a watch, from the moment it is built, lives once: it is started and
stopped at most once, whoever calls `start` and `stop`, how often, and in whatever order
the steps are taken. -/
theorem run_lives_once (hnew : Watch.new strategy handlers options disk = .ok w)
    (hrun : (setting behaviour).run? moves (Running.ofWatch w) = some p) :
    LivesOnce behaviour (log behaviour moves (Running.ofWatch w)) p := by
  obtain ⟨htally, hteardown⟩ := run_kept hnew hrun
  refine ⟨?_, ?_, ?_, ?_, ?_, htally.stopping, ?_, ?_⟩
  · -- each deed is counted against a flag (`Tally`)
    intro deed
    have hdeeds := htally.deeds deed
    have hclaimed := Bool.toNat_le (deed.claimed p.state)
    omega
  · intro g hg
    rw [hteardown.single g hg]
    exact Bool.toNat_le _
  · -- the loop comes from a registration and a submission that succeeded
    intro front i back hlog
    obtain ⟨m⟩ := moment_of_log hrun hlog
    obtain ⟨hregistered, hsubmitted⟩ := (run_kept hnew m.run_earlier).1.loops m.job
      (Or.inl m.job_mem) (m.lifecycleEffect.earns.looping m.mem_seen)
    rw [m.front_eq, List.map_append]
    exact ⟨List.mem_append_left _ hregistered, List.mem_append_left _ hsubmitted⟩
  · -- the thread of a start that fails has the jobs of the failure before it
    intro front i e back hlog
    obtain ⟨x, hx, hlog⟩ : ∃ x, (x = .registered (some e) ∨ x = .submitted (some e)) ∧
        log behaviour moves (Running.ofWatch w) = front ++ (i, x) :: back := by
      rcases hlog with hlog | hlog
      · exact ⟨_, Or.inl rfl, hlog⟩
      · exact ⟨_, Or.inr rfl, hlog⟩
    obtain ⟨m⟩ := moment_of_log hrun hlog
    obtain ⟨hlast, caller, hnext⟩ := m.lifecycleEffect.fails_last m.seen_eq hx
    exact m.fails hnext (hlast ▸ .nil)
  · -- a call after the stop is refused, or the job that refuses it is still to be done
    intro front i back hlog hstopping
    obtain ⟨m⟩ := moment_of_log hrun hlog
    obtain ⟨htold, hrefused⟩ := m.lifecycleEffect.called m.mem_seen
    obtain ⟨hfirst, -, hlast⟩ := Setting.eq_of_singleton (htold.symm.trans m.seen_eq)
    have hstopped : m.here.state.stopped = true := by
      rw [(run_kept hnew m.run_earlier).1.stopping]
      rwa [m.front_eq, hfirst, List.map_nil, List.append_nil] at hstopping
    obtain ⟨e, hclass, hlate⟩ := hrefused hstopped
    refine ⟨e, hclass, ?_⟩
    rw [m.onThread_back, hlast, List.nil_append]
    rw [← m.state] at hlate
    rcases (late_fate behaviour e).run m.thread hlate m.run_later with ⟨hopen, t, hi, ht⟩ | hanswer
    · exact Or.inr ⟨hopen, late_answers hi ht⟩
    · exact Or.inl hanswer.1
  · rw [isRunning, Bool.and_eq_true, Bool.not_eq_true', htally.called, ← htally.stopping,
      Bool.not_eq_true]
  · -- no job of a stop is left, so each part of it is done (`Teardown`)
    intro hstopping hjobs
    have hstopped := htally.stopping.mpr hstopping
    have hshut : p.state.desk.Shut :=
      (hteardown.shutting hstopped).resolve_right fun hmem =>
        absurd (hjobs _ hmem) (by simp [Job.stops])
    obtain ⟨hclosing, hclosed⟩ := (hteardown.closing hstopped).resolve_right fun hmem =>
      absurd (hjobs _ hmem) (by simp [Job.stops])
    refine ⟨hclosing, hclosed, fun g hg => ?_⟩
    obtain ⟨hdown, -⟩ := hshut g hg
    have hsingle := hteardown.single g hg
    rw [hdown] at hsingle
    exact ⟨hdown, hsingle⟩

/-- A call of `start` whose loop is refused has closed the service and shut the debouncer
down, once, by the time it returns; a call after it is answered at once. -/
theorem refused_loop_is_torn_down : ∃ w p moves,
    Watch.new ⟨.tree ⟨.here, 1, []⟩, .none⟩ ⟨some ⟨0⟩, none, none, none⟩
      ⟨⟨5⟩, .default, some (.refusing .closed), none, some (.memory (.new .none))⟩ .empty = .ok w ∧
    (setting fun _ _ _ => .none).run? moves (Running.ofWatch w) = some p ∧
    (log (fun _ _ _ => .none) moves (Running.ofWatch w)).filter (fun entry => entry.2.isAnswer) =
      [(0, .answered (some .closed)), (1, .answered (some .alreadyStarted))] ∧
    p.state.ground.service.isClosed = true ∧
    ∃ g, p.state.desk.debouncer = some g ∧ g.shutDown = true ∧ g.scheduler.shutdowns = 1 := by
  let moves : List (Move Outside) :=
    .outside .start :: List.replicate 14 (.job 0) ++ [.outside .start, .job 1, .job 1]
  have hrun : ∃ w p,
      Watch.new ⟨.tree ⟨.here, 1, []⟩, .none⟩ ⟨some ⟨0⟩, none, none, none⟩
        ⟨⟨5⟩, .default, some (.refusing .closed), none, some (.memory (.new .none))⟩ .empty = .ok w ∧
      (setting fun _ _ _ => .none).run? moves (Running.ofWatch w) = some p ∧
      log (fun _ _ _ => .none) moves (Running.ofWatch w) =
        [(0, .called), (0, .registering), (0, .looked .here .directory),
          (0, .enrolled .here 0 ⟨0⟩), (0, .registered none), (0, .submitted (some .closed)),
          (0, .stopping), (0, .closing), (0, .answered (some .closed)), (1, .called),
          (1, .answered (some .alreadyStarted))] ∧
      p.jobs = [] ∧ p.state.desk.debouncer.isSome = true :=
    ⟨_, _, rfl, rfl, rfl, rfl, rfl⟩
  obtain ⟨w, p, hnew, hrun, hlog, hjobs, hdebouncer⟩ := hrun
  have hlives := run_lives_once hnew hrun
  rw [hlog] at hlives
  obtain ⟨-, hclosed, hshut⟩ := hlives.torn (by decide) fun j hj => by
    rw [hjobs] at hj
    exact absurd hj List.not_mem_nil
  obtain ⟨g, hg⟩ := Option.isSome_iff_exists.mp hdebouncer
  exact ⟨w, p, moves, hnew, hrun, by rw [hlog]; rfl, hclosed, g, hg, hshut g hg⟩

/-! ### A loop that is told that the service is closed -/

/-- A job that takes from the service of a watch and is told that it is closed. -/
def ToldClosed (w : Watch) : Job → Prop
  | .take => w.ground.service.enter.1 = some .closed
  | .receive => ∃ service, w.ground.service.receive = some (.closed, service)
  | _ => False

/-- Being told so is a step of the loop, and a call of `stop` is all that follows it. -/
theorem perform_toldClosed {job : Job} {d : Done Watch Job} (h : perform behaviour job w = some d)
    (htold : ToldClosed w job) : d.next = [.stop] ∧ seen job w = [.looping] := by
  cases perform_outcome h with
  | taken henter =>
    have hclosed : w.ground.service.enter.1 = some .closed := htold
    rw [henter] at hclosed
    obtain rfl := Option.some.inj hclosed
    exact ⟨rfl, rfl⟩
  | waiting henter =>
    have hclosed : w.ground.service.enter.1 = some .closed := htold
    rw [henter] at hclosed
    exact absurd hclosed (by simp)
  | received hreceive =>
    obtain ⟨service, hclosed⟩ := htold
    obtain ⟨rfl, -⟩ := Prod.mk.inj (Option.some.inj (hreceive.symm.trans hclosed))
    exact ⟨rfl, rfl⟩
  | _ => exact htold.elim

/-- A call of `stop` need not wait, and leaves the flag set. -/
theorem perform_stop (behaviour : Behaviour Wish) (w : Watch) :
    ∃ d, perform behaviour .stop w = some d ∧ d.state.stopped = true := by
  cases hstopped : w.stopped with
  | true => exact ⟨_, Outcome.performed (.stoppedBefore hstopped), hstopped⟩
  | false => exact ⟨_, Outcome.performed (.stopped hstopped), rfl⟩

/-- Whoever takes and is told that the service is closed stops the watch with its next step,
whatever other threads do before it: the step need not wait, it is seen as a call of `stop`,
and the watch is stopped after it. -/
theorem stopping_follows_closed {i : Nat} {job : Job} {rest : List Job}
    (hi : p.threads[i]? = some (job :: rest)) (htold : ToldClosed p.state job)
    (hrun : (setting behaviour).run? (.job i :: moves) p = some q) (hothers : .job i ∉ moves) :
    onThread i (log behaviour (.job i :: moves) p) = [.looping] ∧
      ∃ r, (setting behaviour).move (.job i) q = some r ∧ r.state.stopped = true ∧
        Setting.noted note (.job i : Move Outside) q = [(i, .stopping)] := by
  obtain ⟨next, hnext, hlater⟩ := Setting.run?_cons.mp hrun
  obtain ⟨first, more, d, hfirst, hd, rfl⟩ := Pool.step_eq_some hnext
  obtain ⟨rfl, rfl⟩ := List.cons.inj (Option.some.inj (hi.symm.trans hfirst))
  obtain ⟨hstop, hseen⟩ := perform_toldClosed hd htold
  -- the call of `stop` stands first in the thread until the thread makes its next step
  obtain ⟨hkept, hnone⟩ := run_leaves hlater (Pool.getElem?_set_append hi) hothers
  rw [hstop] at hkept
  obtain ⟨done, hdone, hstopped⟩ := perform_stop behaviour q.state
  obtain ⟨r, hr, hstate, -⟩ := Pool.step_of (m := machine behaviour) hkept hdone
  refine ⟨?_, r, hr, by rw [hstate]; exact hstopped, ?_⟩
  · rw [onThread_log_cons hnext, onThread_noted hi, hseen, hnone]
    rfl
  · exact Setting.noted_job hkept

end ChangeWatch.Lifecycle
