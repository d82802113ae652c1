import ChangeWatch.Proofs.Service.Alone
import ChangeWatch.Proofs.Watch.Covering.Threads

/-!
# Incidents, each handled before the next

A watch is left to itself but for `Incident`s: it is started, the disk changes, the backend
reports or complains.  After each of them threads go on in any order until the watch is at rest
(`settle?`), and only then comes the next (`heed?`); all the while every registered directory
is there.

What the watch covers at rest is determined: it is what an incident makes of what was covered
before (`Cover.next`), one incident after the other (`heed_covers`).
-/

namespace ChangeWatch

namespace Notified

open Watch

/-! ### Incidents -/

/-- What happens to a watch from outside. -/
inductive Incident where
  | start
  /-- The disk becomes any other. -/
  | change (disk : Disk)
  | report (r : Report)
  | complaint (e : BackendError)
  deriving DecidableEq, Repr

def Incident.told : Incident → Outside
  | .start => .start
  | .change disk => .change disk []
  | .report r => .report r
  | .complaint e => .complain e

end Notified

namespace Cover

open Notified

/-- The creations among some events are picked up. -/
def creations (c : Cover) (entries : List (Key × RawEvent)) : Cover :=
  entries.foldl (fun c e => c.event e.1 e.2) c

/-- What the cover of a watch becomes when disk or backend are up to something. -/
def incident (c : Cover) : Incident → Cover
  | .change disk => ⟨⟨c.roster.service, disk⟩, c.tree⟩
  | .report r =>
    if c.roster.service.backend.isSome then
      c.creations (c.roster.service.registry.creations c.roster.disk r)
    else c
  | _ => c

/-- Whether a watch was started, and what it covers, after an incident was handled. -/
def next (refuses : Bool) : Bool × Cover → Incident → Bool × Cover
  | (false, c), .start => (true, c.launch refuses [.look c.tree.root 0])
  | (started, c), incident => (started, c.incident incident)

theorem next_of_ne {i : Incident} (hi : i ≠ .start) (refuses started : Bool) (c : Cover) :
    next refuses (started, c) i = (started, c.incident i) := by
  cases i with
  | start => exact absurd rfl hi
  | _ => cases started <;> rfl

/-- Batches are handled event by event. -/
theorem signals_batches (batches : List Batch) (c : Cover) :
    (batches.map Signal.batch).foldl signal c = c.creations (batches.flatMap Batch.entries) := by
  induction batches generalizing c with
  | nil => rfl
  | cons b rest ih =>
    have hfirst : c.signal (.batch b) = c.creations b.entries := by
      unfold creations Batch.entries
      rw [List.foldl_map]
      rfl
    rw [List.map_cons, List.foldl_cons, ih, hfirst, List.flatMap_cons]
    exact (List.foldl_append ..).symm

/-- Of some events only creations matter. -/
theorem creations_filter (entries : List (Key × RawEvent)) (c : Cover) :
    c.creations (entries.filter fun e => e.2.kind = .create) = c.creations entries := by
  unfold creations
  rw [List.foldl_filter]
  congr 1
  funext c e
  by_cases hcreate : e.2.kind = .create
  · simp [hcreate]
  · simp [hcreate, event]

end Cover

/-- A report is translated to nothing where nothing is registered. -/
theorem Registry.Vacant.translate_eq {r : Registry} (h : r.Vacant) (disk : Disk)
    (report : Report) : r.translate disk report = [] := by
  -- no directory and no key can be found
  have hdir : ∀ dir, r.registration? dir = none := by
    intro dir
    unfold registration?
    rw [h.1]
    rfl
  have hkey : ∀ dir, r.keyOf? dir = none := fun dir => by
    unfold keyOf?
    rw [hdir]
    rfl
  have hfirst : r.firstKey? = none := by
    unfold firstKey?
    rw [h.2]
    rfl
  have hplace : ∀ change, r.locate change = none := by
    intro change
    unfold locate
    split
    · rw [hdir]
    · rfl
  unfold translate
  split
  · have hnone : r.rescanKey? report.paths = none := by
      unfold rescanKey?
      rw [hfirst]
      cases report.paths.head? <;> simp [hkey]
    rw [hnone]
    rfl
  · rw [List.filterMap_eq_nil_iff.mpr fun change _ => hplace change]
    rfl

namespace Notified

open Watch

variable {behaviour : Behaviour Wish} {s s' : NotifyingService} {t : DirTree} {refuses : Bool}
  {kinds : List EventKind} {c : Cover} {p q : Running} {i : Incident}

/-! ### What an incident does -/

/-- What a watch covers does not depend on its queue, nor on what its backend has noted. -/
theorem cover_eq (hregistry : s'.registry = s.registry)
    (hbackend : s'.backend = none ↔ s.backend = none) (disk : Disk) :
    Cover.of s' disk t = .of s disk t := by
  obtain ⟨backend, registry, queue, closed⟩ := s
  obtain ⟨backend', registry', queue', closed'⟩ := s'
  obtain rfl : registry' = registry := hregistry
  cases backend with
  | none =>
    obtain rfl : backend' = none := hbackend.mpr rfl
    rfl
  | some b =>
    cases backend' with
    | none => exact absurd (hbackend.mp rfl) (by simp)
    | some b' => rfl

/-- What an incident that is no call does to a watch: the disk may change, and the queue grows by
what is reported. -/
structure Occurs (kinds : List EventKind) (i : Incident) (p : Running) (s : NotifyingService)
    (t : DirTree) (q : Running) (s' : NotifyingService) (more : List Signal) : Prop where
  state : ∃ disk, q = p.modify (·.withGround ⟨.notifying s', disk⟩)
  registry : s'.registry = s.registry
  backend : s'.backend = none ↔ s.backend = none
  closed : s'.closed = s.closed
  queue : s'.queue = s.queue ++ more
  unclosed : .closed ∉ more
  vacant : s.registry.Vacant → ∀ x ∈ more, ∀ b, x ≠ .batch b
  cover : s.registry.Subscribed kinds → .create ∈ kinds →
    more.foldl Cover.signal (.of s' q.state.ground.disk t) =
      (Cover.of s p.state.ground.disk t).incident i

/-- A change of the disk or a message of the backend is made to the ground alone. -/
theorem incident_ground (hi : i ≠ .start) (h : outside i.told p = some q) :
    q = p.modify (·.withGround q.state.ground) := by
  have hground : ∀ {g : Ground}, Lifecycle.outside (.ground g) p = some q →
      q = p.modify (·.withGround q.state.ground) := by
    intro g h
    simp only [Lifecycle.outside] at h
    split at h
    · exact absurd h (by simp)
    · obtain rfl := Option.some.inj h
      rfl
  cases i with
  | start => exact absurd rfl hi
  | change disk => exact hground h
  | report r => exact hground h
  | complaint e => exact hground h

/-- What is reported makes of the cover what the incident makes of it. -/
theorem reports_cover (hi : i ≠ .start) (hover : Over p.state s t) (hs : s.registry.Subscribed kinds)
    (hcreate : .create ∈ kinds) :
    (signalsOf s (i.told.diskAfter p.state.ground) (i.told.reports p.state.ground)).foldl
        Cover.signal (.of s (i.told.diskAfter p.state.ground) t) =
      (Cover.of s p.state.ground.disk t).incident i := by
  -- only a report that a backend hears adds to the queue
  cases i with
  | start => exact absurd rfl hi
  | change disk =>
    have hnone : (Incident.change disk).told.reports p.state.ground = [] := by
      simp only [Incident.told, Outside.reports, hover.service]
      cases s.backend <;> rfl
    rw [hnone]
    rfl
  | report r =>
    have hheld : (Cover.of s p.state.ground.disk t).roster.service.backend.isSome =
        s.backend.isSome := Option.isSome_map ..
    have hreports : (Incident.report r).told.reports p.state.ground =
        if s.backend.isSome then [r] else [] := by
      simp only [Incident.told, Outside.reports, hover.service]
    rw [hreports]
    show _ = if (Cover.of s p.state.ground.disk t).roster.service.backend.isSome then
      (Cover.of s p.state.ground.disk t).creations
        (s.registry.plain.creations p.state.ground.disk r) else _
    rw [hheld]
    split
    · have hsignals : ∀ disk, signalsOf s disk [r] = (s.registry.translate disk r).map .batch :=
        fun disk => List.append_nil _
      rw [hsignals, Cover.signals_batches, Registry.creations_plain hs hcreate]
      exact (Cover.creations_filter ..).symm
    · rfl
  | complaint e => rfl

theorem incident_occurs (kinds : List EventKind) (hi : i ≠ .start)
    (h : outside i.told p = some q) (hover : Over p.state s t) :
    ∃ s' more, Occurs kinds i p s t q s' more := by
  obtain ⟨s', complaints, hground, hsupplied⟩ := outside_service h hover.service
  have hstate := incident_ground hi h
  rw [hground] at hstate
  refine ⟨s', _, ⟨_, hstate⟩, hsupplied.registry, hsupplied.backend, hsupplied.closed,
    hsupplied.queue, ?_, ?_, ?_⟩
  · intro hmem
    rcases List.mem_append.mp hmem with hmem | hmem
    · obtain ⟨r, -, hr⟩ := List.mem_flatMap.mp hmem
      obtain ⟨b, -, heq⟩ := List.mem_map.mp hr
      exact absurd heq (by simp)
    · obtain ⟨e, heq⟩ := hsupplied.failures _ hmem
      exact absurd heq (by simp)
  · intro hvacant x hx b
    rcases List.mem_append.mp hx with hx | hx
    · obtain ⟨r, -, hr⟩ := List.mem_flatMap.mp hx
      rw [hvacant.translate_eq] at hr
      exact absurd hr List.not_mem_nil
    · obtain ⟨e, rfl⟩ := hsupplied.failures x hx
      simp
  · intro hs hcreate
    have hsilent : ∀ x ∈ complaints, ∀ b, x ≠ .batch b := by
      intro x hx b
      obtain ⟨e, rfl⟩ := hsupplied.failures x hx
      simp
    rw [List.foldl_append, signals_silent hsilent, hground,
      cover_eq hsupplied.registry hsupplied.backend]
    exact reports_cover hi hover hs hcreate

/-! ### At rest -/

/-- A job at which the watch is at rest: the loop waits, or a callback has yet to be run. -/
def rests : Job → Bool
  | .receive | .desk _ => true
  | _ => false

/-- All events were handled: no thread has anything to do with one, and no batch waits. -/
def atRest (p : Running) : Bool :=
  p.threads.all (·.all rests) && match p.state.ground.service with
  | .notifying s => s.queue.all fun
    | .batch _ => false
    | _ => true
  | .memory _ => true

theorem threads_of_rest (h : atRest p = true) : ∀ jobs ∈ p.threads, ∀ j ∈ jobs, rests j = true := by
  intro jobs hjobs j hj
  have hthreads := (Bool.and_eq_true_iff.mp h).1
  exact List.all_eq_true.mp (List.all_eq_true.mp hthreads jobs hjobs) j hj

theorem queue_of_rest (h : atRest p = true) (hover : Over p.state s t) :
    ∀ x ∈ s.queue, ∀ b, x ≠ .batch b := by
  intro x hx b
  have hqueue := (Bool.and_eq_true_iff.mp h).2
  rw [hover.service] at hqueue
  have hsilent := List.all_eq_true.mp hqueue x hx
  rintro rfl
  exact absurd hsilent (by simp)

theorem jobs_of_rests {jobs : List Job} (h : ∀ j ∈ jobs, rests j = true) (c : Cover) :
    jobs.foldl (Cover.job refuses) c = c := by
  induction jobs with
  | nil => rfl
  | cons job rest ih =>
    have hnone : c.job refuses job = c := by
      have hjob := h job List.mem_cons_self
      cases job with
      | receive | desk => rfl
      | _ => exact absurd hjob (by simp [rests])
    rw [List.foldl_cons, hnone]
    exact ih fun j hj => h j (List.mem_cons_of_mem _ hj)

/-- At rest a watch covers what it was about to cover. -/
theorem outcome_of_rest {main : List Job} (h : atRest p = true) (hmain : main ∈ p.threads)
    (hover : Over p.state s t) (disk : Disk) :
    outcome refuses main s disk t = .of s disk t := by
  unfold outcome
  rw [jobs_of_rests (threads_of_rest h main hmain), signals_silent (queue_of_rest h hover)]

theorem Lone.mem {threads : List (List Job)} {main : List Job} (h : Lone threads main) :
    main ∈ threads := by
  obtain ⟨m, hm, -⟩ := h
  exact List.mem_of_getElem? hm

/-- A watch that was started covers at rest what it was about to cover. -/
theorem Manned.settled (hp : Manned refuses c p) (hrest : atRest p = true) :
    ∃ s t, Over p.state s t ∧ c = .of s p.state.ground.disk t := by
  obtain ⟨-, -, -, main, s, t, hlone, hover, -, hcover⟩ := hp
  exact ⟨s, t, hover, hcover.symm.trans (outcome_of_rest hrest hlone.mem hover _)⟩

/-- What an incident makes of the cover at rest is what the watch is about to cover then. -/
theorem Manned.incident (hp : Manned refuses c p) (hrest : atRest p = true)
    (hsubscribes : Subscribes kinds p) (hcreate : .create ∈ kinds) (hi : i ≠ .start)
    (h : outside i.told p = some q) : Manned refuses (c.incident i) q := by
  obtain ⟨hstarted, hoverride, hmanner, main, s, t, hlone, hover, hcourse, rfl⟩ := hp
  obtain ⟨⟨s₀, t₀, hover₀, hsubscribed⟩, -⟩ := hsubscribes
  obtain ⟨rfl, rfl⟩ := hover₀.unique hover
  obtain ⟨s', more, hoccurs⟩ := incident_occurs kinds hi h hover
  have hcover := hoccurs.cover hsubscribed hcreate
  obtain ⟨disk, rfl⟩ := hoccurs.state
  have hclosed : .closed ∈ s'.queue → .closed ∈ s₀.queue := by
    intro hmem
    rw [hoccurs.queue] at hmem
    exact (List.mem_append.mp hmem).elim id fun hmem => absurd hmem hoccurs.unclosed
  refine ⟨hstarted, hoverride, hmanner, main, s', t₀, hlone, ⟨rfl, hover.target⟩,
    hcourse.transfer rfl rfl hoccurs.registry hoccurs.backend hoccurs.closed hclosed, ?_⟩
  rw [outcome_of_rest hrest hlone.mem hover, ← hcover]
  unfold outcome
  rw [hoccurs.queue, List.foldl_append, jobs_of_rests (threads_of_rest hrest main hlone.mem),
    signals_silent (queue_of_rest hrest hover)]

/-- A call of `start` does nothing to a watch that was started. -/
theorem Manned.start (hp : Manned refuses c p) (h : outside .start p = some q) :
    Manned refuses c q := by
  obtain ⟨hstarted, hoverride, hmanner, main, s, t, hlone, hover, hcourse, hcover⟩ := hp
  obtain rfl := Option.some.inj h
  refine ⟨hstarted, hoverride, hmanner, main, s, t, hlone.append fun jobs hjobs j hj => ?_, hover,
    hcourse, hcover⟩
  rw [List.mem_singleton.mp hjobs] at hj
  rw [List.mem_singleton.mp hj]
  rfl

/-! ### Before the start -/

/-- A watch that nobody has started. -/
structure Unstarted (refuses : Bool) (p : Running) (s : NotifyingService) (t : DirTree) : Prop where
  started : p.state.started = false
  override : p.state.strategy.override = .none
  manner : p.state.executor.manner.refuses = refuses
  parked : p.state.executor.parked = []
  idle : ∀ g, p.state.desk.debouncer = some g → g.scheduler.waiting = []
  setup : Over p.state s t
  opened : Open p.state s
  vacant : s.registry.Vacant
  silent : ∀ x ∈ s.queue, ∀ b, x ≠ .batch b

/-- It has nothing to do. -/
def Idle (refuses : Bool) (c : Cover) (p : Running) : Prop :=
  ∃ s t, Unstarted refuses p s t ∧ (∀ jobs ∈ p.threads, jobs = []) ∧
    c = .of s p.state.ground.disk t

/-- It is about to be started, and has nothing else to do. -/
def Called (refuses : Bool) (c : Cover) (p : Running) : Prop :=
  ∃ s t, Unstarted refuses p s t ∧
    (∃ m : Nat, p.threads[m]? = some [.start .owner] ∧
      ∀ (i : Nat) (jobs : List Job), i ≠ m → p.threads[i]? = some jobs → jobs = []) ∧
    c = (Cover.of s p.state.ground.disk t).launch refuses [.look t.root 0]

/-- Of its own accord it does nothing. -/
theorem Unstarted.own {e : Outside} (hp : Unstarted refuses p s t) (he : own e = true)
    (h : outside e p = some q) : q = p := by
  cases e with
  | unpark =>
    obtain rfl := Option.some.inj h
    obtain ⟨⟨_, _, _, _, _, _, ⟨manner, spawned, parked⟩, _, _, _, _⟩, threads⟩ := p
    obtain rfl : parked = [] := hp.parked
    simp
  | dispatch n =>
    obtain ⟨r, hr, -⟩ := Option.map_eq_some_iff.mp h
    obtain ⟨g, w, hg, hw, -⟩ := Stopping.takeUp?_eq_some hr
    rw [hp.idle g hg] at hw
    exact absurd hw (by simp)
  | _ => exact absurd he (by simp [Notified.own])

theorem Idle.step {behaviour : Behaviour Wish} {n : Nat} (hp : Idle refuses c p) :
    p.step (machine behaviour) n ≠ some q := by
  intro h
  obtain ⟨s, t, -, hthreads, -⟩ := hp
  obtain ⟨job, rest, d, hn, -, -⟩ := Pool.step_eq_some h
  exact absurd (hthreads _ (List.mem_of_getElem? hn)) (by simp)

/-- Nothing is registered yet, so that no report is about anything. -/
theorem Idle.incident (hp : Idle refuses c p) (hi : i ≠ .start) (h : outside i.told p = some q) :
    Idle refuses (c.incident i) q := by
  obtain ⟨s, t, hunstarted, hthreads, rfl⟩ := hp
  obtain ⟨s', more, hoccurs⟩ := incident_occurs [.create] hi h hunstarted.setup
  have hsubscribed : s.registry.Subscribed [.create] := by
    intro e he
    rw [hunstarted.vacant.1] at he
    exact absurd he List.not_mem_nil
  have hcover := hoccurs.cover hsubscribed List.mem_cons_self
  have hsilent := hoccurs.vacant hunstarted.vacant
  rw [signals_silent hsilent] at hcover
  obtain ⟨disk, rfl⟩ := hoccurs.state
  refine ⟨s', t, ⟨hunstarted.started, hunstarted.override, hunstarted.manner, hunstarted.parked,
    hunstarted.idle, ⟨rfl, hunstarted.setup.target⟩, ?_, ?_, ?_⟩, hthreads, hcover.symm⟩
  · refine ⟨hunstarted.opened.running, hoccurs.closed.trans hunstarted.opened.unclosed, ?_⟩
    rw [hoccurs.queue]
    exact fun hmem => (List.mem_append.mp hmem).elim hunstarted.opened.unsignalled hoccurs.unclosed
  · rw [hoccurs.registry]
    exact hunstarted.vacant
  · rw [hoccurs.queue]
    exact fun x hx => (List.mem_append.mp hx).elim (hunstarted.silent x) (hsilent x)

theorem Idle.start (hp : Idle refuses c p) (h : outside .start p = some q) :
    Called refuses (c.launch refuses [.look c.tree.root 0]) q := by
  obtain ⟨s, t, hunstarted, hthreads, rfl⟩ := hp
  obtain rfl := Option.some.inj h
  refine ⟨s, t, ⟨hunstarted.started, hunstarted.override, hunstarted.manner, hunstarted.parked,
    hunstarted.idle, hunstarted.setup, hunstarted.opened, hunstarted.vacant, hunstarted.silent⟩,
    ⟨p.threads.length, List.getElem?_concat_length, fun i jobs hi hjobs => ?_⟩, rfl⟩
  have hlt : i < (p.threads ++ [[Job.start .owner]]).length :=
    (List.getElem?_eq_some_iff.mp hjobs).1
  rw [List.length_append, List.length_singleton] at hlt
  have hold : p.threads[i]? = some jobs :=
    (List.getElem?_append_left (by omega)).symm.trans hjobs
  exact hthreads _ (List.mem_of_getElem? hold)

/-- A call has yet to be answered. -/
theorem Called.not_rest (hp : Called refuses c p) : ¬atRest p = true := by
  intro hrest
  obtain ⟨s, t, -, ⟨m, hm, -⟩, -⟩ := hp
  have hcalled := threads_of_rest hrest _ (List.mem_of_getElem? hm) _ List.mem_cons_self
  exact absurd hcalled (by simp [rests])

/-- The start is claimed. -/
theorem Called.step {behaviour : Behaviour Wish} {n : Nat} (hp : Called refuses c p)
    (h : p.step (machine behaviour) n = some q) : Manned refuses c q := by
  obtain ⟨s, t, hunstarted, ⟨m, hm, hothers⟩, rfl⟩ := hp
  obtain ⟨job, rest, d, hn, hd, rfl⟩ := Pool.step_eq_some h
  have hlt : n < p.threads.length := (List.getElem?_eq_some_iff.mp hn).1
  obtain rfl : n = m := by
    by_contra hne
    exact absurd (hothers n _ hne hn) (by simp)
  obtain ⟨rfl, rfl⟩ := List.cons.inj (Option.some.inj (hn.symm.trans hm))
  have hd : perform behaviour (.start .owner) p.state = some d := hd
  simp only [perform, hunstarted.started, Bool.false_eq_true, if_false] at hd
  obtain rfl := Option.some.inj hd
  refine ⟨rfl, hunstarted.override, hunstarted.manner, [.startUnlessStopped .owner], s, t, ?_,
    ⟨hunstarted.setup.service, hunstarted.setup.target⟩,
    .leading rfl (by simp) ⟨hunstarted.opened.running, hunstarted.opened.unclosed,
      hunstarted.opened.unsignalled⟩ hunstarted.parked, ?_⟩
  · show Lone (p.threads.set n [.startUnlessStopped .owner] ++ []) _
    rw [List.append_nil]
    refine ⟨n, List.getElem?_set_self hlt, fun k jobs hk hjobs => ?_⟩
    rw [List.getElem?_set_ne (Ne.symm hk)] at hjobs
    rw [hothers k jobs hk hjobs]
    simp
  · exact signals_silent hunstarted.silent _

/-! ### Runs in stages -/

/-- What a watch is about to cover, and whether it was started. -/
inductive Phase (refuses : Bool) : Bool × Cover → Running → Prop
  | idle {c : Cover} {p : Running} : Idle refuses c p → Phase refuses (false, c) p
  | called {c : Cover} {p : Running} : Called refuses c p → Phase refuses (true, c) p
  | manned {c : Cover} {p : Running} : Manned refuses c p → Phase refuses (true, c) p

variable {behaviour : Behaviour Wish} {x : Bool × Cover}

/-- A move that a watch makes of its own accord. -/
def ownMove : Move Outside → Bool
  | .job _ => true
  | .outside e => own e

/-- A watch that is left to itself stays about to cover the same. -/
theorem Phase.own {a : Move Outside} (hspares : Spares behaviour) (hp : Phase refuses x p)
    (hintact : intact p = true) (ha : ownMove a = true)
    (h : (setting behaviour).move a p = some q) : Phase refuses x q := by
  cases a with
  | job n =>
    cases hp with
    | idle hp => exact absurd h hp.step
    | called hp => exact .manned (hp.step h)
    | manned hp => exact .manned (hp.step hspares hintact h)
  | outside e =>
    have hstays : ∀ {s t}, Unstarted refuses p s t → q = p := fun hp => hp.own ha h
    cases hp with
    | idle hp =>
      obtain ⟨s, t, hunstarted, -⟩ := id hp
      rw [hstays hunstarted]
      exact .idle hp
    | called hp =>
      obtain ⟨s, t, hunstarted, -⟩ := id hp
      rw [hstays hunstarted]
      exact .called hp
    | manned hp => exact .manned (hp.own ha h)

/-- An incident at rest makes of what is covered what it makes of a cover. -/
theorem Phase.incident (hp : Phase refuses x p) (hrest : atRest p = true)
    (hsubscribes : Subscribes kinds p) (hcreate : .create ∈ kinds)
    (h : outside i.told p = some q) : Phase refuses (Cover.next refuses x i) q := by
  by_cases hi : i = .start
  · subst hi
    cases hp with
    | idle hp => exact .called (hp.start h)
    | called hp => exact absurd hrest hp.not_rest
    | manned hp => exact .manned (hp.start h)
  · cases hp with
    | idle hp =>
      rw [Cover.next_of_ne hi]
      exact .idle (hp.incident hi h)
    | called hp => exact absurd hrest hp.not_rest
    | manned hp =>
      rw [Cover.next_of_ne hi]
      exact .manned (hp.incident hrest hsubscribes hcreate hi h)

/-- At rest a watch covers what it was about to cover. -/
theorem Phase.settled (hp : Phase refuses x p) (hrest : atRest p = true) :
    ∃ s t, Over p.state s t ∧ x.2 = .of s p.state.ground.disk t := by
  cases hp with
  | idle hp =>
    obtain ⟨s, t, hunstarted, -, hcover⟩ := hp
    exact ⟨s, t, hunstarted.setup, hcover⟩
  | called hp => exact absurd hrest hp.not_rest
  | manned hp => exact hp.settled hrest

/-- A watch is left to itself: it makes these moves and is at rest then, and all registered
directories are there all the while. -/
def settle? (behaviour : Behaviour Wish) : List (Move Outside) → Running → Option Running
  | [], p => if intact p && atRest p then some p else none
  | a :: rest, p =>
    if intact p && ownMove a then ((setting behaviour).move a p).bind (settle? behaviour rest)
    else none

/-- Incidents come one after the other, each with the moves by which it is handled. -/
def heed? (behaviour : Behaviour Wish) :
    List (Incident × List (Move Outside)) → Running → Option Running
  | [], p => some p
  | (i, moves) :: rest, p =>
    ((outside i.told p).bind (settle? behaviour moves)).bind (heed? behaviour rest)

/-- What every move of its own preserves holds when a watch is at rest. -/
theorem settle_preserved {I : Running → Prop}
    (hmove : ∀ {p a q}, I p → intact p = true → ownMove a = true →
      (setting behaviour).move a p = some q → I q) (moves : List (Move Outside)) :
    ∀ {p q : Running}, I p → settle? behaviour moves p = some q → I q ∧ atRest q = true := by
  induction moves with
  | nil =>
    intro p q hp h
    unfold settle? at h
    split at h
    · next hend =>
      obtain rfl := Option.some.inj h
      exact ⟨hp, (Bool.and_eq_true_iff.mp hend).2⟩
    · exact absurd h (by simp)
  | cons a rest ih =>
    intro p q hp h
    unfold settle? at h
    split at h
    · next hown =>
      obtain ⟨hintact, ha⟩ := Bool.and_eq_true_iff.mp hown
      obtain ⟨r, hr, hrest⟩ := Option.bind_eq_some_iff.mp h
      exact ih (hmove hp hintact ha hr) hrest
    · exact absurd h (by simp)

/-- What goes with every incident, and is preserved by every move in between, holds after all of
them. -/
theorem heed_preserved {α : Type} {I : α → Running → Prop} (next : α → Incident → α)
    (hincident : ∀ {x p i q}, I x p → atRest p = true → outside i.told p = some q →
      I (next x i) q)
    (hmove : ∀ {x p a q}, I x p → intact p = true → ownMove a = true →
      (setting behaviour).move a p = some q → I x q)
    (stages : List (Incident × List (Move Outside))) : ∀ {x : α} {p q : Running}, I x p →
      atRest p = true → heed? behaviour stages p = some q →
      I ((stages.map (·.1)).foldl next x) q ∧ atRest q = true := by
  induction stages with
  | nil =>
    intro x p q hp hrest h
    obtain rfl := Option.some.inj h
    exact ⟨hp, hrest⟩
  | cons stage rest ih =>
    intro x p q hp hrest h
    obtain ⟨i, moves⟩ := stage
    obtain ⟨r, hstage, hlater⟩ := Option.bind_eq_some_iff.mp h
    obtain ⟨u, hu, hsettle⟩ := Option.bind_eq_some_iff.mp hstage
    obtain ⟨hr, hrest'⟩ := settle_preserved hmove moves (hincident hp hrest hu) hsettle
    exact ih hr hrest' hlater

/-- What a watch is about to cover after some incidents is what they make, one after the other, of
what it covered before. -/
theorem heed_phase (hspares : Spares behaviour) (hcreate : .create ∈ kinds)
    {stages : List (Incident × List (Move Outside))} (hp : Phase refuses x p)
    (hsubscribes : Subscribes kinds p) (hrest : atRest p = true)
    (h : heed? behaviour stages p = some q) :
    Phase refuses ((stages.map (·.1)).foldl (Cover.next refuses) x) q ∧ atRest q = true := by
  have hincident : ∀ {x : Bool × Cover} {p : Running} {i : Incident} {q : Running},
      Phase refuses x p ∧ Subscribes kinds p → atRest p = true → outside i.told p = some q →
      Phase refuses (Cover.next refuses x i) q ∧ Subscribes kinds q :=
    fun hp hrest hu => ⟨hp.1.incident hrest hp.2 hcreate hu, hp.2.outside hu⟩
  have hmove : ∀ {x : Bool × Cover} {p : Running} {a : Move Outside} {q : Running},
      Phase refuses x p ∧ Subscribes kinds p → intact p = true → ownMove a = true →
      (setting behaviour).move a p = some q → Phase refuses x q ∧ Subscribes kinds q := by
    intro x p a q hp hintact ha hmove
    refine ⟨hp.1.own hspares hintact ha hmove, ?_⟩
    cases a with
    | job n => exact hp.2.step hmove
    | outside e => exact hp.2.outside hmove
  have hkept := heed_preserved (I := fun x p => Phase refuses x p ∧ Subscribes kinds p)
    (Cover.next refuses) hincident hmove stages ⟨hp, hsubscribes⟩ hrest h
  exact ⟨hkept.1.1, hkept.2⟩

/-! ### From the beginning -/

variable {root : Path} {maxDepth : Nat} {handlers : Handlers} {options : Watch.Options}
  {disk : Disk} {w : Watch}

/-- A watch that was just built covers nothing. -/
theorem idle_new (hservice : options.service = none ∨ options.service = some (.notifying .new))
    (hnew : Watch.new ⟨.tree ⟨root, maxDepth, []⟩, .none⟩ handlers options disk = .ok w) :
    Idle (options.manner.getD .ownThread).refuses (.of .new disk ⟨root, maxDepth, []⟩)
      (Running.ofWatch w) := by
  have hfresh := fresh_of_new hnew
  have hbuilt : w.executor.manner = options.manner.getD .ownThread ∧ w.ground.disk = disk := by
    unfold Watch.new at hnew
    split at hnew
    · exact absurd hnew (by simp)
    · obtain rfl := Except.ok.inj hnew
      exact ⟨rfl, rfl⟩
  have hidle : ∀ g, w.desk.debouncer = some g → g.scheduler.waiting = [] := by
    intro g hg
    obtain rfl := eq_of_debouncerFor (hfresh.debouncer_eq ▸ hg)
    rfl
  refine ⟨.new, ⟨root, maxDepth, []⟩, ⟨hfresh.started_eq, ?_, ?_, hfresh.parked_eq, hidle,
    over_new hservice hnew, ⟨hfresh.stopped_eq, rfl, List.not_mem_nil⟩, ⟨rfl, rfl⟩,
    fun x hx => absurd hx List.not_mem_nil⟩, fun jobs hjobs => absurd hjobs List.not_mem_nil, ?_⟩
  · exact congrArg Strategy.override hfresh.strategy_eq
  · exact congrArg Manner.refuses hbuilt.1
  · exact congrArg (Cover.of .new · _) hbuilt.2.symm

/-- Creations are heard of, with or without a callback for them. -/
theorem create_mem_kinds
    (hnew : Watch.new ⟨.tree ⟨root, maxDepth, []⟩, .none⟩ handlers options disk = .ok w) :
    .create ∈ w.kinds := by
  unfold Watch.new at hnew
  split at hnew
  · exact absurd hnew (by simp)
  · obtain rfl := Except.ok.inj hnew
    show .create ∈ if .create ∈ handlers.kinds then handlers.kinds else handlers.kinds ++ [.create]
    split
    · next hmem => exact hmem
    · exact List.mem_append_right _ List.mem_cons_self

/-- A watch that was just built is at rest. -/
theorem rest_new (hservice : options.service = none ∨ options.service = some (.notifying .new))
    (hnew : Watch.new ⟨.tree ⟨root, maxDepth, []⟩, .none⟩ handlers options disk = .ok w) :
    atRest (Running.ofWatch w) = true := by
  unfold atRest Running.ofWatch
  rw [(over_new hservice hnew).service]
  rfl

/-- What a watch covers at rest is determined by the incidents so far. -/
theorem heed_covers (hspares : Spares behaviour)
    (hservice : options.service = none ∨ options.service = some (.notifying .new))
    (hnew : Watch.new ⟨.tree ⟨root, maxDepth, []⟩, .none⟩ handlers options disk = .ok w)
    {stages : List (Incident × List (Move Outside))}
    (h : heed? behaviour stages (Running.ofWatch w) = some p) :
    ∃ s t, Over p.state s t ∧ Cover.of s p.state.ground.disk t =
      ((stages.map (·.1)).foldl (Cover.next (options.manner.getD .ownThread).refuses)
        (false, .of .new disk ⟨root, maxDepth, []⟩)).2 := by
  have hover := over_new hservice hnew
  have hsubscribes : Subscribes w.kinds (Running.ofWatch w) :=
    ⟨⟨.new, _, hover, fun e he => absurd he List.not_mem_nil⟩, rfl⟩
  obtain ⟨hphase, hrest⟩ := heed_phase hspares (create_mem_kinds hnew)
    (.idle (idle_new hservice hnew)) hsubscribes (rest_new hservice hnew) h
  obtain ⟨s, t, hover', hcover⟩ := hphase.settled hrest
  exact ⟨s, t, hover', hcover.symm⟩

end Notified

end ChangeWatch
