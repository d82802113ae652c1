import ChangeWatch.Proofs.Dispatch.Accepting
import ChangeWatch.Proofs.Watch.Stopping.Underway

/-!
# Threads that contend for a debouncer

Any number of threads offer changes, the scheduler takes up what it accepted whenever it
pleases, and the debouncer is shut down, all of it in any order (`Desk.contention`).  The
key of an offer becomes pending before the lock is taken, and a dispatch that is taken
up frees its key before its callback starts; nothing that comes in between does harm
(`Desk.run_contended`):

* an offer is followed by a callback under its key, or such a callback is still owed,
  unless the debouncer was shut down;
* the scheduler is given nothing once it was shut down, and until then it accepts all it is
  given;
* a key is pending only as long as someone will free it, so that after a shutdown none is
  left when the offers that were on their way are done.

What carries this is that a pending key is always in someone's hands (`Desk.Held`): the
offer that opened its window, or a task that the scheduler accepted.
-/

namespace ChangeWatch

/-! ### Schedulers that take everything -/

/-- A scheduler of this policy refuses no task with this delay before it is shut down. -/
def Policy.Takes (policy : Policy) (delay : Duration) : Prop :=
  ∀ (s : Scheduler Dispatch) (d : Dispatch) (e : WatchError), s.policy = policy →
    s.shutDown = false → (s.schedule delay d).1 ≠ .refused e

theorem Policy.takes_queueing (delay : Duration) : Policy.queueing.Takes delay := by
  intro s d e hpolicy hrunning
  simp [Scheduler.schedule, hpolicy, hrunning]

/-- A scheduler queues what it is given, runs it at once, or refuses it and stays as it was. -/
theorem Scheduler.schedule_cases (s : Scheduler Dispatch) (delay : Duration) (d : Dispatch) :
    s.schedule delay d = (.queued, s.enqueue delay d) ∨
      s.schedule delay d = (.immediate, { s with delays := s.delays ++ [delay] }) ∨
      ∃ e, s.schedule delay d = (.refused e, s) := by
  unfold schedule
  cases s.shutDown with
  | true => exact Or.inr (Or.inr ⟨_, rfl⟩)
  | false =>
    cases s.policy with
    | queueing => exact Or.inl rfl
    | immediate => exact Or.inr (Or.inl rfl)
    | refusing e => exact Or.inr (Or.inr ⟨e, rfl⟩)
    | ranged =>
      cases inRange delay with
      | true => exact Or.inl rfl
      | false => exact Or.inr (Or.inr ⟨_, rfl⟩)

namespace Debouncer

/-- A debouncer whose scheduler takes everything until both are shut down. -/
structure Taking (g : Debouncer) : Prop where
  takes : g.scheduler.policy.Takes g.delay
  together : g.scheduler.shutDown = g.shutDown
  empty : g.shutDown = true → g.scheduler.waiting = []

/-- The debouncer after its scheduler took a dispatch to be run at once. -/
def seized (g : Debouncer) : Debouncer :=
  { g with
    scheduler := { g.scheduler with delays := g.scheduler.delays ++ [g.delay] }, locked := true }

/-- The debouncer after it was shut down. -/
def closed (g : Debouncer) : Debouncer :=
  { g with shutDown := true, scheduler := g.scheduler.shutdown, pending := [] }

/-- What a debouncer that is not shut down makes of a dispatch. -/
theorem commit_cases {g : Debouncer} (hrunning : g.shutDown = false) (d : Dispatch) :
    ((g.scheduler.schedule g.delay d).1 = .queued ∧ g.commit d = (.accepted, g.queued d)) ∨
      ((g.scheduler.schedule g.delay d).1 = .immediate ∧ g.commit d = (.immediate, g.seized)) ∨
      ∃ e warning, (g.scheduler.schedule g.delay d).1 = .refused e ∧
        g.commit d = (.declined warning, g.release d.key) := by
  unfold commit
  rw [if_neg (by rw [hrunning]; simp)]
  rcases g.scheduler.schedule_cases g.delay d with hs | hs | ⟨e, hs⟩
  · rw [hs]
    exact Or.inl ⟨rfl, rfl⟩
  · rw [hs]
    exact Or.inr (Or.inl ⟨rfl, rfl⟩)
  · rw [hs]
    -- only a scheduler that was shut down is not worth a warning
    cases e with
    | schedulerShutDown => exact Or.inr (Or.inr ⟨_, none, rfl, rfl⟩)
    | _ => exact Or.inr (Or.inr ⟨_, some .unscheduled, rfl, rfl⟩)

theorem Taking.commit_eq {g : Debouncer} (h : g.Taking) (hrunning : g.shutDown = false)
    (d : Dispatch) :
    g.commit d = (.accepted, g.queued d) ∨ g.commit d = (.immediate, g.seized) := by
  rcases commit_cases hrunning d with ⟨-, heq⟩ | ⟨-, heq⟩ | ⟨e, -, hrefused, -⟩
  · exact Or.inl heq
  · exact Or.inr heq
  · exact absurd hrefused (h.takes g.scheduler d e rfl (h.together.trans hrunning))

theorem mem_release {g : Debouncer} {key name : String} :
    name ∈ (g.release key).pending ↔ name ∈ g.pending ∧ name ≠ key := by
  show name ∈ g.pending.filter (· ≠ key) ↔ _
  rw [List.mem_filter, decide_eq_true_iff]

end Debouncer

namespace Desk

/-! ### The setting -/

/-- What may come from outside. -/
inductive Outside where
  /-- One more thread makes an offer. -/
  | offer (d : Dispatch)
  /-- One of the tasks that wait is taken up, on a thread of its own. -/
  | fire (n : Nat)
  /-- One more thread shuts the debouncer down. -/
  | shutdown
  /-- Time passes. -/
  | time (point : Nat)
  deriving DecidableEq, Repr

/-- What comes from outside, if it may come now. -/
def arrive : Outside → Pool Desk (Job Plea) → Option (Pool Desk (Job Plea))
  | .offer d, p => some (p.spawn [.offer d .owner])
  | .fire n, p =>
    (Stopping.takeUp? p.state n).map fun r => { p with state := r.2 }.spawn [.begin r.1]
  | .shutdown, p => some (p.spawn [.shutdown])
  | .time t, p => some (p.modify (moveTo t))

/-- A desk at which threads work in any order. -/
def contention (behaviour : Behaviour Plea) : Setting Desk (Job Plea) Outside :=
  ⟨machine behaviour, arrive⟩

/-! ### What is seen of it -/

/-- What a thread does to a debouncer that can be seen. -/
inductive Deed where
  /-- The first half of an offer: a key becomes pending, or was so already. -/
  | inserted (key : String) (fresh : Bool)
  /-- The scheduler is given a dispatch. -/
  | scheduled (d : Dispatch)
  /-- The scheduler is shut down. -/
  | shut
  /-- A dispatch that was taken up frees its key. -/
  | begun (d : Dispatch)
  /-- A callback starts. -/
  | ran (callback : Callback) (context : Context)
  deriving DecidableEq, Repr

def Deed.isScheduled : Deed → Bool
  | .scheduled _ => true
  | _ => false

def Deed.isShut : Deed → Bool
  | .shut => true
  | _ => false

/-- A deed and the thread that does it. -/
structure Sight where
  thread : Nat
  deed : Deed
  deriving DecidableEq, Repr

/-- What is seen when a job is done at a debouncer. -/
def deeds {ρ : Type} (g : Debouncer) : Job ρ → List Deed
  | .offer d _ => [.inserted d.key (d.key ∉ g.pending)]
  | .commit d _ => if g.shutDown then [] else [.scheduled d]
  | .shutdown => if g.shutDown then [] else [.shut]
  | .begin d => [.begun d]
  | .call callback context _ => [.ran callback context]
  | _ => []

/-- What is noted of a job. -/
def sight (thread : Nat) (job : Job Plea) (desk : Desk) : List Sight :=
  (desk.debouncer.elim [] fun g => deeds g job).map fun deed => ⟨thread, deed⟩

/-- What a thread was seen to do last. -/
def lastOf (thread : Nat) (log : List Sight) : Option Deed :=
  ((log.filter (·.thread = thread)).getLast?).map (·.deed)

/-- After what was seen before, the callback of a dispatch under a key starts: it is that of
the dispatch whose key the thread freed just before. -/
def Starts (key : String) (front : List Sight) (x : Sight) : Prop :=
  ∃ d : Dispatch, d.key = key ∧ x.deed = .ran d.callback d.context ∧
    lastOf x.thread front = some (.begun d)

theorem lastOf_append_self (thread : Nat) (log : List Sight) (deed : Deed) :
    lastOf thread (log ++ [⟨thread, deed⟩]) = some deed := by
  simp [lastOf, List.filter_append]

/-- What others do is no deed of a thread. -/
theorem lastOf_append_other {thread other : Nat} (hne : thread ≠ other) (log : List Sight)
    (told : List Deed) :
    lastOf thread (log ++ told.map (⟨other, ·⟩)) = lastOf thread log := by
  have hnone : (told.map (Sight.mk other)).filter (·.thread = thread) = [] := by
    rw [List.filter_eq_nil_iff]
    intro x hx
    obtain ⟨deed, -, rfl⟩ := List.mem_map.mp hx
    simpa using Ne.symm hne
  unfold lastOf
  rw [List.filter_append, hnone, List.append_nil]

/-! ### One job -/

variable {behaviour : Behaviour Plea} {g g' : Debouncer} {key : String}

/-- What a job does to a debouncer whose scheduler takes everything, what is next and what
is seen of it. -/
inductive Worked {ρ : Type} (g : Debouncer) :
    Job ρ → Debouncer → List (Job ρ) → List Deed → Prop
  /-- The key is pending already. -/
  | fallsIn (d : Dispatch) (caller : Caller) : d.key ∈ g.pending →
      Worked g (.offer d caller) g [.answer d.key false caller] [.inserted d.key false]
  | opens (d : Dispatch) (caller : Caller) : d.key ∉ g.pending →
      Worked g (.offer d caller) (g.opened d.key) [.commit d caller] [.inserted d.key true]
  | queues (d : Dispatch) (caller : Caller) : g.shutDown = false →
      Worked g (.commit d caller) (g.queued d) [.answer d.key true caller] [.scheduled d]
  /-- The task is run at once, under the lock. -/
  | seizes (d : Dispatch) (caller : Caller) : g.shutDown = false →
      Worked g (.commit d caller) g.seized [.begin d, .unlock, .answer d.key true caller]
        [.scheduled d]
  | declines (d : Dispatch) (caller : Caller) : g.shutDown = true →
      Worked g (.commit d caller) (g.release d.key) [.answer d.key false caller] []
  | begins (d : Dispatch) :
      Worked g (.begin d) (g.release d.key) [.call d.callback d.context .modifyPanicked]
        [.begun d]
  | closes : g.shutDown = false → Worked g .shutdown g.closed [] [.shut]
  | remains : g.shutDown = true → Worked g .shutdown g [] []
  | unlocks : Worked g .unlock g.unlock [] []
  | calls (callback : Callback) (context : Context) (onPanic : Warning) (next : List (Job ρ)) :
      Worked g (.call callback context onPanic) g next [.ran callback context]
  | idles (job : Job ρ) (next : List (Job ρ)) : job.idle = true → deeds g job = [] →
      Worked g job g next []

theorem operate_worked {job : Job Plea} {more : List (Job Plea)} (hg : g.Taking)
    (journal : Journal) (h : operate g job = some (g', more)) :
    Worked g job g' ((record behaviour journal job).2 ++ more) (deeds g job) := by
  cases operate_operates h with
  | fallsIn d caller hpending =>
    have hdeeds : deeds g (.offer d caller : Job Plea) = [.inserted d.key false] := by
      simp [deeds, hpending]
    rw [hdeeds]
    exact .fallsIn d caller hpending
  | opens d caller hfree =>
    have hdeeds : deeds g (.offer d caller : Job Plea) = [.inserted d.key true] := by
      simp [deeds, hfree]
    rw [hdeeds]
    exact .opens d caller hfree
  | commits d caller =>
    -- a commit is declined, or it queues its task, or it seizes the lock to run at once
    cases hdown : g.shutDown with
    | true =>
      rw [commit_of_shutDown hdown]
      simp only [deeds, hdown, if_true]
      exact .declines d caller hdown
    | false =>
      simp only [deeds, hdown, Bool.false_eq_true, if_false]
      rcases hg.commit_eq hdown d with hcommit | hcommit
      · rw [hcommit]
        exact .queues d caller hdown
      · rw [hcommit]
        exact .seizes d caller hdown
  | begins d => exact .begins d
  | unlocks => exact .unlocks
  | closes hdown =>
    simp only [deeds, hdown, Bool.false_eq_true, if_false]
    exact .closes hdown
  | remains hdown =>
    simp only [deeds, hdown, if_true]
    exact .remains hdown
  | idles hidle hother =>
    cases job with
    | call callback context onPanic => exact .calls callback context onPanic _
    | unlock => exact absurd rfl hother
    | offer | commit | begin | shutdown => exact absurd hidle (by simp [Job.idle])
    | _ => exact .idles _ _ rfl rfl

theorem perform_worked {desk : Desk} {job : Job Plea} {done : Done Desk (Job Plea)}
    (h : (machine behaviour).perform job desk = some done) (hg : desk.debouncer = some g)
    (htaking : g.Taking) : done.spawned = [] ∧
      ∃ g', done.state.debouncer = some g' ∧ Worked g job g' done.next (deeds g job) := by
  have hdesk : ∀ {r : Desk × List (Job Plea)}, perform behaviour job desk = some r →
      ∃ g', r.1.debouncer = some g' ∧ Worked g job g' r.2 (deeds g job) := by
    intro r hr
    rcases perform_cases hr with ⟨hnone, -⟩ | ⟨g₁, g', more, hg₁, hg', hoperate, hnext⟩
    · rw [hg] at hnone
      exact absurd hnone (by simp)
    · obtain rfl := Option.some.inj (hg.symm.trans hg₁)
      rw [hnext]
      exact ⟨g', hg', operate_worked htaking desk.journal hoperate⟩
  cases job with
  | request plea context =>
    obtain rfl := Option.some.inj h
    exact ⟨rfl, g, hg, .idles _ _ rfl rfl⟩
  | _ =>
    obtain ⟨r, hr, rfl⟩ := Option.map_eq_some_iff.mp h
    exact ⟨rfl, hdesk hr⟩

/-- What is shut down stays so, and a scheduler that takes everything goes on doing so. -/
theorem Worked.taking {job : Job Plea} {next : List (Job Plea)} {told : List Deed}
    (h : Worked g job g' next told) (hg : g.Taking) :
    g'.Taking ∧ (g.shutDown = true → g'.shutDown = true) := by
  have hopen : g.shutDown = false → g.shutDown ≠ true := by simp
  cases h with
  | queues d caller hdown =>
    exact ⟨⟨hg.takes, hg.together, fun h => absurd h (hopen hdown)⟩, id⟩
  | seizes d caller hdown =>
    exact ⟨⟨hg.takes, hg.together, fun h => absurd h (hopen hdown)⟩, id⟩
  | closes hdown => exact ⟨⟨hg.takes, rfl, fun _ => rfl⟩, fun _ => rfl⟩
  | _ => exact ⟨⟨hg.takes, hg.together, hg.empty⟩, id⟩

/-! ### In whose hands a key is -/

/-- An offer that made a key pending has still to ask the scheduler. -/
def InFlight (key : String) (p : Pool Desk (Job Plea)) : Prop :=
  ∃ (d : Dispatch) (caller : Caller), d.key = key ∧ .commit d caller ∈ p.jobs

/-- A task that the scheduler accepted under a key has not yet freed it. -/
def Entrusted (key : String) (g : Debouncer) (p : Pool Desk (Job Plea)) : Prop :=
  ∃ d : Dispatch, d.key = key ∧ (g.Awaits d ∨ .begin d ∈ p.jobs)

/-- A task that the scheduler accepted under a key has freed it, and its callback is what its
thread does next. -/
def Imminent (key : String) (log : List Sight) (p : Pool Desk (Job Plea)) : Prop :=
  ∃ (d : Dispatch) (i : Nat) (rest : List (Job Plea)), d.key = key ∧
    p.threads[i]? = some (.call d.callback d.context .modifyPanicked :: rest) ∧
    lastOf i log = some (.begun d)

/-- Someone will free the key. -/
def Held (key : String) (g : Debouncer) (p : Pool Desk (Job Plea)) : Prop :=
  InFlight key p ∨ g.shutDown = false ∧ Entrusted key g p

/-- A callback under the key is owed, or the debouncer was shut down. -/
def Owed (key : String) (log : List Sight) (g : Debouncer) (p : Pool Desk (Job Plea)) : Prop :=
  g.shutDown = true ∨ InFlight key p ∨ Entrusted key g p ∨ Imminent key log p

theorem Held.owed {log : List Sight} {p : Pool Desk (Job Plea)} (h : Held key g p) :
    Owed key log g p := by
  rcases h with hflight | ⟨-, hentrusted⟩
  · exact Or.inr (Or.inl hflight)
  · exact Or.inr (Or.inr (Or.inl hentrusted))

section Step

variable {p q : Pool Desk (Job Plea)} {job : Job Plea} {next : List (Job Plea)}
  {log : List Sight} {told : List Deed}

/-- Only a shutdown that closes the debouncer changes whether it is shut down. -/
theorem Worked.shutDown_eq (h : Worked g job g' next told) :
    g'.shutDown = g.shutDown ∨ g'.shutDown = true ∧ g'.pending = [] := by
  cases h with
  | closes => exact Or.inr ⟨rfl, rfl⟩
  | _ => exact Or.inl rfl

/-- A key is pending because it was, or because an offer has just opened its window. -/
theorem Worked.mem_pending (h : Worked g job g' next told) (hkey : key ∈ g'.pending) :
    key ∈ g.pending ∨ ∃ (d : Dispatch) (caller : Caller), d.key = key ∧ .commit d caller ∈ next := by
  cases h with
  | opens d caller hfree =>
    rcases List.mem_append.mp hkey with hkey | hkey
    · exact Or.inl hkey
    · exact Or.inr ⟨d, caller, (List.mem_singleton.mp hkey).symm, List.mem_singleton_self _⟩
  | declines d caller hdown => exact Or.inl (Debouncer.mem_release.mp hkey).1
  | begins d => exact Or.inl (Debouncer.mem_release.mp hkey).1
  | closes hdown => exact absurd hkey List.not_mem_nil
  | _ => exact Or.inl hkey

variable (hworked : Worked g job g' next told) (hkept : ∀ j ∈ p.jobs, j = job ∨ j ∈ q.jobs)
  (hadded : ∀ j ∈ next, j ∈ q.jobs)

include hworked hkept hadded

/-- An offer on its way stays so, or its task is accepted, or it frees its key because the
debouncer is shut down. -/
theorem InFlight.step (h : InFlight key p) :
    InFlight key q ∨ (g'.shutDown = false ∧ Entrusted key g' q) ∨
      (g'.shutDown = true ∧ key ∉ g'.pending) := by
  obtain ⟨d, caller, rfl, hmem⟩ := h
  rcases hkept _ hmem with rfl | hstays
  · cases hworked with
    | queues d caller hdown =>
      exact Or.inr (Or.inl ⟨hdown, d, rfl, Or.inl (Debouncer.awaits_queued.mpr (Or.inr rfl))⟩)
    | seizes d caller hdown =>
      exact Or.inr (Or.inl ⟨hdown, d, rfl, Or.inr (hadded _ List.mem_cons_self)⟩)
    | declines d caller hdown =>
      exact Or.inr (Or.inr ⟨hdown, fun hkey => (Debouncer.mem_release.mp hkey).2 rfl⟩)
    | idles _ _ hidle => exact absurd hidle (by simp [Job.idle])
  · exact Or.inl ⟨d, caller, rfl, hstays⟩

/-- A task that was accepted stays so, or everything is closed, or it frees its key and its
callback is next. -/
theorem Entrusted.step (h : Entrusted key g p) :
    (g'.shutDown = g.shutDown ∧ Entrusted key g' q) ∨ (g'.shutDown = true ∧ g'.pending = []) ∨
      ∃ d : Dispatch, d.key = key ∧ key ∉ g'.pending ∧ told = [.begun d] ∧
        next = [.call d.callback d.context .modifyPanicked] := by
  rcases hworked.shutDown_eq with hsame | hclosed
  · obtain ⟨d, rfl, hawaits | hmem⟩ := h
    · have hstill : g'.Awaits d := by
        cases hworked with
        | queues d' caller => exact Debouncer.awaits_queued.mpr (Or.inl hawaits)
        | closes hdown => exact absurd (hsame.trans hdown) (by simp [Debouncer.closed])
        | _ => exact hawaits
      exact Or.inl ⟨hsame, d, rfl, Or.inl hstill⟩
    · rcases hkept _ hmem with rfl | hstays
      · cases hworked with
        | begins d =>
          exact Or.inr (Or.inr ⟨d, rfl, fun hkey => (Debouncer.mem_release.mp hkey).2 rfl, rfl,
            rfl⟩)
        | idles _ _ hidle => exact absurd hidle (by simp [Job.idle])
      · exact Or.inl ⟨hsame, d, rfl, Or.inr hstays⟩
  · exact Or.inr (Or.inl hclosed)

/-- A key that is still pending is still in someone's hands. -/
theorem Held.step (h : Held key g p) (hkey : key ∈ g'.pending) : Held key g' q := by
  rcases h with hflight | ⟨hrunning, hentrusted⟩
  · rcases hflight.step hworked hkept hadded with hstays | haccepted | ⟨-, hfree⟩
    · exact Or.inl hstays
    · exact Or.inr haccepted
    · exact absurd hkey hfree
  · rcases hentrusted.step hworked hkept hadded with ⟨hsame, hstays⟩ | ⟨-, hnone⟩ | ⟨d, -, hfree, -⟩
    · exact Or.inr ⟨hsame.trans hrunning, hstays⟩
    · rw [hnone] at hkey
      exact absurd hkey List.not_mem_nil
    · exact absurd hkey hfree

end Step

/-- A callback that is owed is still owed after a step of a thread, or it starts. -/
theorem Owed.step {p : Pool Desk (Job Plea)} {job : Job Plea} {done : Done Desk (Job Plea)}
    {rest : List (Job Plea)} {log : List Sight} {told : List Deed} {i : Nat}
    (hi : p.threads[i]? = some (job :: rest)) (hworked : Worked g job g' done.next told)
    (hg : g.Taking) (h : Owed key log g p) :
    Owed key (log ++ told.map (⟨i, ·⟩)) g'
        ⟨done.state, p.threads.set i (done.next ++ rest) ++ done.spawned⟩ ∨
      ∃ x, told.map (Sight.mk i) = [x] ∧ Starts key log x := by
  have hjobs := Pool.jobs_of_set (s := p.state) (d := done) hi
  generalize hq : Pool.mk done.state (p.threads.set i (done.next ++ rest) ++ done.spawned) = q
    at hjobs
  rcases h with hdown | hflight | hentrusted | ⟨d, k, rest', rfl, hk, hlast⟩
  · exact Or.inl (Or.inl ((hworked.taking hg).2 hdown))
  · rcases hflight.step hworked hjobs.kept hjobs.added with hstays | ⟨-, haccepted⟩ | ⟨hdown, -⟩
    · exact Or.inl (Or.inr (Or.inl hstays))
    · exact Or.inl (Or.inr (Or.inr (Or.inl haccepted)))
    · exact Or.inl (Or.inl hdown)
  · rcases hentrusted.step hworked hjobs.kept hjobs.added with
      ⟨-, hstays⟩ | ⟨hdown, -⟩ | ⟨d, rfl, -, rfl, hnext⟩
    · exact Or.inl (Or.inr (Or.inr (Or.inl hstays)))
    · exact Or.inl (Or.inl hdown)
    · refine Or.inl (Or.inr (Or.inr (Or.inr ⟨d, i, rest, rfl, ?_, lastOf_append_self i log _⟩)))
      rw [← hq, hnext]
      exact Pool.getElem?_set_append hi
  · by_cases hik : i = k
    · -- the thread that has freed the key goes on
      subst hik
      obtain ⟨rfl, rfl⟩ := List.cons.inj (Option.some.inj (hi.symm.trans hk))
      generalize done.next = next at hworked
      cases hworked with
      | calls => exact Or.inr ⟨_, rfl, d, rfl, rfl, hlast⟩
      | idles _ _ _ hdeeds => exact absurd hdeeds (by simp [deeds])
    · refine Or.inl (Or.inr (Or.inr (Or.inr ⟨d, k, rest', rfl, ?_, ?_⟩)))
      · rw [← hq]
        exact Pool.getElem?_set_append_ne hk hik
      · rw [lastOf_append_other (Ne.symm hik)]
        exact hlast

/-! ### What is seen of a job -/

section Seen

variable {job : Job Plea} {next : List (Job Plea)} {told : List Deed}

theorem Worked.told_le_one (h : Worked g job g' next told) : told = [] ∨ ∃ deed, told = [deed] := by
  cases h with
  | declines => exact Or.inl rfl
  | remains => exact Or.inl rfl
  | unlocks => exact Or.inl rfl
  | idles => exact Or.inl rfl
  | _ => exact Or.inr ⟨_, rfl⟩

/-- After the first half of an offer its key is pending. -/
theorem Worked.pending_of_inserted {fresh : Bool} (h : Worked g job g' next told)
    (hmem : .inserted key fresh ∈ told) : key ∈ g'.pending := by
  cases h with
  | fallsIn d caller hpending =>
    obtain ⟨rfl, -⟩ := Deed.inserted.inj (List.mem_singleton.mp hmem)
    exact hpending
  | opens d caller hfree =>
    obtain ⟨rfl, -⟩ := Deed.inserted.inj (List.mem_singleton.mp hmem)
    exact List.mem_append_right _ (List.mem_singleton_self _)
  | _ => exact absurd hmem (by simp)

/-- The scheduler is given something only by a debouncer that is not shut down. -/
theorem Worked.running_of_scheduled {deed : Deed} (h : Worked g job g' next told)
    (hmem : deed ∈ told) (hdeed : deed.isScheduled = true) : g.shutDown = false := by
  cases h with
  | queues d caller hdown => exact hdown
  | seizes d caller hdown => exact hdown
  | declines => exact absurd hmem List.not_mem_nil
  | remains => exact absurd hmem List.not_mem_nil
  | unlocks => exact absurd hmem List.not_mem_nil
  | idles => exact absurd hmem List.not_mem_nil
  | _ => rw [List.mem_singleton.mp hmem] at hdeed; exact absurd hdeed (by simp [Deed.isScheduled])

/-- A debouncer that is not shut down after a job was not shut down by it. -/
theorem Worked.not_shut (h : Worked g job g' next told) (hrunning : g'.shutDown = false) :
    g.shutDown = false ∧ .shut ∉ told := by
  cases h with
  | closes => exact absurd hrunning (by simp [Debouncer.closed])
  | _ => exact ⟨hrunning, by simp⟩

/-- The scheduler accepts what it is seen to be given, and nothing else. -/
theorem Worked.accepted_eq (h : Worked g job g' next told) :
    g'.scheduler.accepted = g.scheduler.accepted + told.countP Deed.isScheduled := by
  have happend : ∀ delay : Duration,
      (g.scheduler.delays ++ [delay]).length = g.scheduler.delays.length + 1 :=
    fun _ => List.length_append
  cases h with
  | queues => exact happend _
  | seizes => exact happend _
  | _ => rfl

theorem Worked.shutdowns_eq (h : Worked g job g' next told) :
    g'.scheduler.shutdowns = g.scheduler.shutdowns + told.countP Deed.isShut := by
  cases h with
  | _ => rfl

end Seen

/-! ### Every run -/

variable {p q : Pool Desk (Job Plea)} {log : List Sight}

/-- Every insert that was seen was followed by a callback under its key, or one is owed. -/
def Answered (log : List Sight) (g : Debouncer) (p : Pool Desk (Job Plea)) : Prop :=
  ∀ front x back key fresh, log = front ++ x :: back → x.deed = .inserted key fresh →
    (∃ before y after, back = before ++ y :: after ∧ Starts key (front ++ x :: before) y) ∨
      Owed key log g p

/-- After the scheduler was shut down it is given nothing. -/
def Silent (log : List Sight) : Prop :=
  ∀ front x back, log = front ++ x :: back → x.deed = .shut →
    ∀ y ∈ back, y.deed.isScheduled = false

/-- What holds of a debouncer after all that was seen of it. -/
structure Sound (log : List Sight) (p : Pool Desk (Job Plea)) (g : Debouncer) : Prop where
  desk : p.state.debouncer = some g
  taking : g.Taking
  /-- No key is pending for ever. -/
  held : ∀ key ∈ g.pending, Held key g p
  answered : Answered log g p
  running : g.shutDown = false → ∀ x ∈ log, x.deed ≠ .shut
  silent : Silent log
  accepted : g.scheduler.accepted = log.countP (·.deed.isScheduled)
  shutdowns : g.scheduler.shutdowns = log.countP (·.deed.isShut)

theorem sound_fresh {policy : Policy} {delay : Duration} (h : policy.Takes delay) :
    Sound [] (fresh delay policy) (.new delay policy) where
  desk := rfl
  taking := ⟨h, rfl, fun hdown => absurd hdown (by simp [Debouncer.new])⟩
  held := fun key hkey => absurd hkey List.not_mem_nil
  answered := fun front x back key fresh hsplit => absurd hsplit (by simp)
  running := fun _ x hx => absurd hx List.not_mem_nil
  silent := fun front x back hsplit => absurd hsplit (by simp)
  accepted := rfl
  shutdowns := rfl

theorem countP_append_map (f : Deed → Bool) (log : List Sight) (i : Nat) (told : List Deed) :
    (log ++ told.map (Sight.mk i)).countP (fun x => f x.deed) =
      log.countP (fun x => f x.deed) + told.countP f := by
  rw [List.countP_append, List.countP_map]
  rfl

/-- A step of a thread. -/
theorem Sound.step {i : Nat} (hp : Sound log p g)
    (hstep : p.step (machine behaviour) i = some q) :
    ∃ g', Sound (log ++ Setting.noted sight (.job i : Move Outside) p) q g' := by
  obtain ⟨job, rest, done, hi, hdone, rfl⟩ := Pool.step_eq_some hstep
  obtain ⟨-, g', hg', hworked⟩ := perform_worked hdone hp.desk hp.taking
  have hjobs := Pool.jobs_of_set (s := p.state) (d := done) hi
  have hnoted : Setting.noted sight (.job i : Move Outside) p = (deeds g job).map (Sight.mk i) := by
    rw [Setting.noted_job hi, sight, hp.desk]
    rfl
  have hheld : ∀ key ∈ g'.pending,
      Held key g' ⟨done.state, p.threads.set i (done.next ++ rest) ++ done.spawned⟩ := by
    intro key hkey
    rcases hworked.mem_pending hkey with hbefore | ⟨d, caller, rfl, hmem⟩
    · exact (hp.held key hbefore).step hworked hjobs.kept hjobs.added hkey
    · exact Or.inl ⟨d, caller, rfl, hjobs.added _ hmem⟩
  rw [hnoted]
  refine ⟨g', hg', (hworked.taking hp.taking).1, hheld, ?answered, ?running, ?silent, ?accepted,
    ?shutdowns⟩
  case answered =>
    intro front x back key fresh hsplit hx
    rcases Setting.split_append hsplit with ⟨more, rfl, htold⟩ | ⟨more, rfl, rfl⟩
    · -- the insert is what was just seen
      have hmem : x ∈ (deeds g job).map (Sight.mk i) := by simp [htold]
      obtain ⟨deed, hdeed, rfl⟩ := List.mem_map.mp hmem
      obtain rfl : deed = .inserted key fresh := hx
      exact Or.inr (hheld key (hworked.pending_of_inserted hdeed)).owed
    · rcases hp.answered front x more key fresh rfl hx with ⟨before, y, after, rfl, hstarts⟩ | howed
      · exact Or.inl ⟨before, y, after ++ _, by rw [List.append_assoc, List.cons_append], hstarts⟩
      · rcases howed.step hi hworked hp.taking with hstill | ⟨y, htold, hstarts⟩
        · exact Or.inr hstill
        · exact Or.inl ⟨more, y, [], by rw [htold], hstarts⟩
  case running =>
    intro hrunning x hx
    obtain ⟨hbefore, hnot⟩ := hworked.not_shut hrunning
    rcases List.mem_append.mp hx with hx | hx
    · exact hp.running hbefore x hx
    · obtain ⟨deed, hdeed, rfl⟩ := List.mem_map.mp hx
      rintro rfl
      exact hnot hdeed
  case silent =>
    intro front x back hsplit hx y hy
    rcases Setting.split_append hsplit with ⟨more, rfl, htold⟩ | ⟨more, rfl, rfl⟩
    · -- nothing was seen after the shutdown
      rcases hworked.told_le_one with hnone | ⟨deed, hone⟩
      · rw [hnone] at htold
        exact absurd htold (by simp)
      · rw [hone] at htold
        obtain ⟨-, -, rfl⟩ := Setting.eq_of_singleton htold
        exact absurd hy List.not_mem_nil
    · rcases List.mem_append.mp hy with hy | hy
      · exact hp.silent front x more rfl hx y hy
      · obtain ⟨deed, hdeed, rfl⟩ := List.mem_map.mp hy
        cases hscheduled : deed.isScheduled with
        | false => rfl
        | true =>
          have hrunning := hworked.running_of_scheduled hdeed hscheduled
          exact absurd hx (hp.running hrunning x (by simp))
  case accepted => rw [hworked.accepted_eq, hp.accepted, countP_append_map]
  case shutdowns => rw [hworked.shutdowns_eq, hp.shutdowns, countP_append_map]

/-- What comes from outside changes nothing of what is known, so long as nothing is lost by
it: a task that no longer waits is on a thread. -/
theorem Sound.grow (hp : Sound log p g) (hdesk : q.state.debouncer = some g')
    (htaking : g'.Taking) (hpending : g'.pending = g.pending) (hdown : g'.shutDown = g.shutDown)
    (haccepted : g'.scheduler.accepted = g.scheduler.accepted)
    (hshutdowns : g'.scheduler.shutdowns = g.scheduler.shutdowns)
    (hthreads : ∀ (i : Nat) t, p.threads[i]? = some t → q.threads[i]? = some t)
    (hawaits : ∀ d, g.Awaits d → g'.Awaits d ∨ .begin d ∈ q.jobs) : Sound log q g' := by
  -- every thread is still there, so whatever some thread had to do it has to do still
  have hkept : ∀ j ∈ p.jobs, j ∈ q.jobs := by
    intro j hj
    obtain ⟨t, ht, hjt⟩ := Pool.mem_jobs.mp hj
    obtain ⟨i, hi⟩ := List.getElem?_of_mem ht
    exact Pool.mem_jobs.mpr ⟨t, List.mem_of_getElem? (hthreads i t hi), hjt⟩
  have hflight : ∀ {key}, InFlight key p → InFlight key q := by
    rintro key ⟨d, caller, hkey, hmem⟩
    exact ⟨d, caller, hkey, hkept _ hmem⟩
  have hentrusted : ∀ {key}, Entrusted key g p → Entrusted key g' q := by
    rintro key ⟨d, hkey, hd | hmem⟩
    · exact ⟨d, hkey, hawaits d hd⟩
    · exact ⟨d, hkey, Or.inr (hkept _ hmem)⟩
  refine ⟨hdesk, htaking, ?held, ?answered, by rw [hdown]; exact hp.running, hp.silent,
    haccepted.trans hp.accepted, hshutdowns.trans hp.shutdowns⟩
  case held =>
    intro key hkey
    rw [hpending] at hkey
    rcases hp.held key hkey with hstays | ⟨hrunning, hstays⟩
    · exact Or.inl (hflight hstays)
    · exact Or.inr ⟨hdown.trans hrunning, hentrusted hstays⟩
  case answered =>
    intro front x back key fresh hsplit hx
    rcases hp.answered front x back key fresh hsplit hx with hstarted | howed
    · exact Or.inl hstarted
    · rcases howed with hshut | hstays | hstays | ⟨d, i, rest, hkey, hi, hlast⟩
      · exact Or.inr (Or.inl (hdown.trans hshut))
      · exact Or.inr (Or.inr (Or.inl (hflight hstays)))
      · exact Or.inr (Or.inr (Or.inr (Or.inl (hentrusted hstays))))
      · exact Or.inr (Or.inr (Or.inr (Or.inr ⟨d, i, rest, hkey, hthreads i _ hi, hlast⟩)))

theorem Sound.arrive {e : Outside} (hp : Sound log p g) (h : arrive e p = some q) :
    ∃ g', Sound log q g' := by
  -- only a dispatch that is due moves something: its task goes from the queue to a thread
  cases e with
  | offer d =>
    obtain rfl := Option.some.inj h
    exact ⟨g, hp.grow hp.desk hp.taking rfl rfl rfl rfl (fun _ _ => Pool.getElem?_spawn)
      fun _ hd => Or.inl hd⟩
  | shutdown =>
    obtain rfl := Option.some.inj h
    exact ⟨g, hp.grow hp.desk hp.taking rfl rfl rfl rfl (fun _ _ => Pool.getElem?_spawn)
      fun _ hd => Or.inl hd⟩
  | time t =>
    obtain rfl := Option.some.inj h
    refine ⟨{ g with scheduler := g.scheduler.moveTo t }, hp.grow ?_ ?_ rfl rfl rfl rfl
      (fun _ _ => id) fun _ hd => Or.inl hd⟩
    · show (p.state.debouncer.map _) = _
      rw [hp.desk]
      rfl
    · exact ⟨hp.taking.takes, hp.taking.together, hp.taking.empty⟩
  | fire n =>
    obtain ⟨r, hr, rfl⟩ := Option.map_eq_some_iff.mp h
    obtain ⟨g₁, w, hg₁, hw, rfl⟩ := Stopping.takeUp?_eq_some hr
    obtain rfl := Option.some.inj (hp.desk.symm.trans hg₁)
    refine ⟨_, hp.grow rfl ?_ rfl rfl rfl rfl (fun _ _ => Pool.getElem?_spawn) ?_⟩
    · refine ⟨hp.taking.takes, hp.taking.together, fun hdown => ?_⟩
      rw [hp.taking.empty hdown] at hw
      exact absurd hw (by simp)
    · intro d hd
      rcases hd.erase hw (max g.scheduler.now w.due) with rfl | hleft
      · exact Or.inr (Pool.mem_jobs_spawn.mpr (Or.inr (List.mem_singleton_self _)))
      · exact Or.inl hleft

variable {policy : Policy} {delay : Duration} {moves : List (Move Outside)}

theorem run_sound (htakes : policy.Takes delay)
    (hrun : (contention behaviour).run? moves (fresh delay policy) = some q) :
    ∃ g, Sound ((contention behaviour).log sight moves (fresh delay policy)) q g := by
  have hmove : ∀ log p a q, (∃ g, Sound log p g) → (contention behaviour).move a p = some q →
      ∃ g, Sound (log ++ Setting.noted sight a p) q g := by
    rintro log p a q ⟨g, hp⟩ hmove
    cases a with
    | job i => exact hp.step hmove
    | outside e =>
      rw [Setting.noted_outside, List.append_nil]
      exact hp.arrive hmove
  exact Setting.preserved_log hmove ⟨_, sound_fresh htakes⟩ hrun

/-- In every order of the steps of offers, of tasks that are taken up and of shutdowns, at a
scheduler that takes everything until it is shut down: every offer whose first half was done
is followed by a callback under its key, or one is owed, unless the debouncer was shut down;
after it shut its scheduler down it gives it nothing, and all it gave before was accepted;
and every key that is pending will be freed, so that none is left when the debouncer is shut
down and no offer is on its way. -/
theorem run_contended (htakes : policy.Takes delay)
    (hrun : (contention behaviour).run? moves (fresh delay policy) = some q) :
    let log := (contention behaviour).log sight moves (fresh delay policy)
    ∃ g, q.state.debouncer = some g ∧ Answered log g q ∧
      (Silent log ∧ g.scheduler.accepted = log.countP (·.deed.isScheduled) ∧
        g.scheduler.shutdowns = log.countP (·.deed.isShut)) ∧
      (∀ key ∈ g.pending, Held key g q) ∧
      (g.shutDown = true → g.scheduler.waiting = [] ∧
        ((∀ d caller, .commit d caller ∉ q.jobs) → g.pending = [])) := by
  obtain ⟨g, hsound⟩ := run_sound htakes hrun
  refine ⟨g, hsound.desk, hsound.answered, ⟨hsound.silent, hsound.accepted, hsound.shutdowns⟩,
    hsound.held, fun hdown => ⟨hsound.taking.empty hdown, fun hdone => ?_⟩⟩
  rw [List.eq_nil_iff_forall_not_mem]
  intro key hkey
  rcases hsound.held key hkey with ⟨d, caller, -, hmem⟩ | ⟨hrunning, -⟩
  · exact hdone d caller hmem
  · rw [hdown] at hrunning
    exact absurd hrunning (by simp)

/-- Two threads offer changes under one key, and a third offers one while the task of the
first is about to run its callback; then the debouncer is shut down before that third offer
comes to the scheduler. -/
theorem offers_under_one_key_contend :
    let d : Dispatch := ⟨"x", ⟨.modify, ⟨[120]⟩, false⟩, ⟨0⟩⟩
    let moves : List (Move Outside) :=
      [.outside (.offer d), .outside (.offer d), .job 0, .job 1, .job 0, .outside (.fire 0),
        .outside (.offer d), .job 2, .job 3, .job 2, .outside .shutdown, .job 4, .job 3, .job 3,
        .job 1, .job 0]
    let start := fresh ⟨5⟩ .queueing
    let log := (contention fun _ _ _ => .none).log sight moves start
    Policy.queueing.Takes ⟨5⟩ ∧ ∃ q g,
      (contention fun _ _ _ => .none).run? moves start = some q ∧ q.state.debouncer = some g ∧
      log = [⟨0, .inserted "x" true⟩, ⟨1, .inserted "x" false⟩, ⟨0, .scheduled d⟩, ⟨2, .begun d⟩,
        ⟨3, .inserted "x" true⟩, ⟨2, .ran ⟨0⟩ d.context⟩, ⟨4, .shut⟩] ∧
      Answered log g q ∧ Silent log ∧ g.shutDown = true ∧ g.pending = [] := by
  intro d moves start log
  have hend : ((contention fun _ _ _ => .none).run? moves start).map
      (fun q => (q.state.debouncer.map (·.shutDown), q.jobs)) = some (some true, []) := by
    decide +kernel
  obtain ⟨q, hq, hend⟩ := Option.map_eq_some_iff.mp hend
  obtain ⟨hdown, hjobs⟩ := Prod.mk.inj hend
  obtain ⟨g, hg, hanswered, ⟨hsilent, -⟩, -, hclosed⟩ :=
    run_contended (Policy.takes_queueing ⟨5⟩) hq
  rw [hg] at hdown
  have hshut : g.shutDown = true := Option.some.inj hdown
  have hnone : ∀ d caller, .commit d caller ∉ q.jobs := by
    intro d caller
    rw [hjobs]
    exact List.not_mem_nil
  exact ⟨Policy.takes_queueing ⟨5⟩, q, g, hq, hg, by decide +kernel, hanswered, hsilent, hshut,
    (hclosed hshut).2 hnone⟩

end Desk

end ChangeWatch
