import ChangeWatch.Proofs.Watch.Covering.Jobs
import ChangeWatch.Proofs.Watch.Resolving

/-!
# What a watch is about to cover

Of the threads of a watch that was started, at most one has anything to do with what the watch
covers: the one that starts it, and after that the one of its loop.  Its `Course` says what it
has still to do.  What the watch is about to cover is what comes of the jobs of this thread, in
their order, and of the queue after that (`outcome`).

No step of any thread changes it (`Manned.step`), nor does anything that the watch does of its
own accord (`Manned.own`).  So it is what the watch covers once all is done.
-/

namespace ChangeWatch.Notified

open Watch

variable {behaviour : Behaviour Wish} {w : Watch} {job : Job} {d : Done Watch Job}
  {s : NotifyingService} {t : DirTree} {refuses : Bool} {jobs rest : List Job}

/-! ### The course of a thread -/

/-- Nobody has stopped the watch, and its service is open. -/
structure Open (w : Watch) (s : NotifyingService) : Prop where
  running : w.stopped = false
  unclosed : s.closed = false
  unsignalled : Signal.closed ∉ s.queue

/-- What is closed before a step of closing is made. -/
def ClosedUpTo (s : NotifyingService) : CloseStep → Prop
  | .mark => s.closed = false
  | .release => True
  | .forget => s.backend = none
  | .signal => s.backend = none ∧ s.registry.clear = s.registry

/-- A job that the loop is at between two batches. -/
def turns : Job → Bool
  | .run | .take | .receive | .recheck => true
  | _ => false

/-- What the one thread that the cover depends on has still to do. -/
inductive Course (w : Watch) (s : NotifyingService) : List Job → Prop
  /-- Events are handled, and after them the loop goes on. -/
  | looping {front rest : List Job} {last : Job} : (∀ j ∈ front, j.event = true) →
      turns last = true → (∀ j ∈ rest, j.light = true) → Open w s → w.executor.parked = [] →
      Course w s (front ++ last :: rest)
  /-- The watch is being started, or is about to be stopped. -/
  | leading {first : Job} {rest : List Job} : first.leads = true → (∀ j ∈ rest, j.light = true) →
      Open w s → w.executor.parked = [] → Course w s (first :: rest)
  | closing {step : CloseStep} {rest : List Job} : ClosedUpTo s step →
      (∀ j ∈ rest, j.light = true) → w.executor.parked = [] → Course w s (.close step :: rest)
  /-- There is no loop, or it is yet to be run. -/
  | done {jobs : List Job} : (∀ j ∈ jobs, j.light = true) →
      (w.executor.parked = [] ∨ w.executor.parked = [.run] ∧ Open w s) → Course w s jobs

/-- What comes of some jobs, and of the queue after them. -/
def outcome (refuses : Bool) (jobs : List Job) (s : NotifyingService) (disk : Disk) (t : DirTree) :
    Cover :=
  s.queue.foldl Cover.signal (jobs.foldl (Cover.job refuses) (.of s disk t))

/-- The course of a thread depends on the flag, on what is parked, and on how far the service is
closed. -/
theorem Course.transfer {w' : Watch} {s' : NotifyingService} (h : Course w s jobs)
    (hstopped : w'.stopped = w.stopped) (hparked : w'.executor.parked = w.executor.parked)
    (hregistry : s'.registry = s.registry) (hbackend : s'.backend = none ↔ s.backend = none)
    (hclosed : s'.closed = s.closed) (hqueue : .closed ∈ s'.queue → .closed ∈ s.queue) :
    Course w' s' jobs := by
  have hopen : Open w s → Open w' s' := fun h =>
    ⟨hstopped.trans h.running, hclosed.trans h.unclosed, fun hmem => h.unsignalled (hqueue hmem)⟩
  cases h with
  | looping hfront hlast hrest h hnone =>
    exact .looping hfront hlast hrest (hopen h) (hparked.trans hnone)
  | leading hfirst hrest h hnone => exact .leading hfirst hrest (hopen h) (hparked.trans hnone)
  | @closing step _ hupTo hrest hnone =>
    refine .closing ?_ hrest (hparked.trans hnone)
    cases step with
    | mark => exact hclosed.trans hupTo
    | release => trivial
    | forget => exact hbackend.mpr hupTo
    | signal => exact ⟨hbackend.mpr hupTo.1, by rw [hregistry]; exact hupTo.2⟩
  | done hlight h => exact .done hlight (by rw [hparked]; exact h.imp id fun h => ⟨h.1, hopen h.2⟩)

/-- A loop may be parked only for a thread that has nothing to do with the cover. -/
theorem Course.parked (h : Course w s jobs) : w.executor.parked = [] ∨
    w.executor.parked = [.run] ∧ Open w s ∧ ∀ j ∈ jobs, j.light = true := by
  cases h with
  | looping _ _ _ _ hnone | leading _ _ _ hnone | closing _ _ hnone => exact Or.inl hnone
  | done hlight h => exact h.imp id fun h => ⟨h.1, h.2, hlight⟩

theorem outcome_of_light (h : ∀ j ∈ jobs, j.light = true) (disk : Disk) :
    outcome refuses jobs s disk t = s.queue.foldl Cover.signal (.of s disk t) := by
  unfold outcome
  rw [Cover.jobs_of_light h]

/-- What is no batch does nothing to the cover. -/
theorem signals_silent {signals : List Signal} (h : ∀ x ∈ signals, ∀ b, x ≠ .batch b) (c : Cover) :
    signals.foldl Cover.signal c = c := by
  induction signals with
  | nil => rfl
  | cons signal rest ih =>
    have hsilent : c.signal signal = c := by
      cases signal with
      | batch b => exact absurd rfl (h _ List.mem_cons_self b)
      | _ => rfl
    rw [List.foldl_cons, hsilent]
    exact ih fun x hx => h x (List.mem_cons_of_mem _ hx)

/-- A step of the thread: what it has to do after that, or that a thread for the loop has taken
over, and that the same will come of it. -/
structure Proceeds (refuses : Bool) (w : Watch) (s : NotifyingService) (t : DirTree)
    (jobs rest : List Job) (d : Done Watch Job) (s' : NotifyingService) (t' : DirTree)
    (main : List Job) : Prop where
  setup : Over d.state s' t'
  disk : d.state.ground.disk = w.ground.disk
  started : d.state.started = w.started
  manner : d.state.executor.manner = w.executor.manner
  continues : d.spawned = [] ∧ main = d.next ++ rest ∨
    d.spawned = [[.run]] ∧ main = [.run] ∧ ∀ j ∈ d.next ++ rest, j.light = true
  course : Course d.state s' main
  conserved : outcome refuses main s' w.ground.disk t' = outcome refuses jobs s w.ground.disk t

theorem Open.onward {s' : NotifyingService} {t' : DirTree} (h : Open w s)
    (hd : Onward refuses w s t job d s' t') : Open d.state s' :=
  ⟨hd.stopped.trans h.running, hd.closed.trans h.unclosed, hd.queue ▸ h.unsignalled⟩

/-- A job that goes on with the cover, in a thread that stays on its course. -/
theorem Onward.proceeds {s' : NotifyingService} {t' : DirTree}
    (h : Onward refuses w s t job d s' t') (hspawned : d.spawned = [])
    (hcourse : Course d.state s' (d.next ++ rest)) :
    Proceeds refuses w s t (job :: rest) rest d s' t' (d.next ++ rest) := by
  refine ⟨h.setup, h.disk, h.started, congrArg _ h.executor, Or.inl ⟨hspawned, rfl⟩, hcourse, ?_⟩
  unfold outcome
  rw [h.queue, List.foldl_append, h.conserved]
  rfl

/-- What was in the queue is handled by the jobs that follow its being taken. -/
theorem afterTaken_conserved (c : Cover) {signal : Signal} (hsignal : signal ≠ .closed) :
    (afterTaken signal.taken).foldl (Cover.job refuses) c = c.signal signal := by
  cases signal with
  | batch b =>
    have hjobs : afterTaken (Signal.batch b).taken =
        b.events.map (.handle b.key) ++ [.reset b.key, .recheck] := rfl
    rw [hjobs, List.foldl_append, List.foldl_map]
    rfl
  | failure e => rfl
  | closed => exact absurd rfl hsignal

/-- The loop is at one of its turns. -/
theorem Course.turn (hjob : turns job = true) (hrest : ∀ j ∈ rest, j.light = true)
    (hopen : Open w s) (hparked : w.executor.parked = []) : Course w s (job :: rest) := by
  have hcourse : Course w s ([] ++ job :: rest) :=
    .looping (fun _ hj => absurd hj List.not_mem_nil) hjob hrest hopen hparked
  exact hcourse

/-- After something was taken, the loop handles it and goes on. -/
theorem course_afterTaken {signal : Signal} (hsignal : signal ≠ .closed)
    (hrest : ∀ j ∈ rest, j.light = true) (hopen : Open w s) (hparked : w.executor.parked = []) :
    Course w s (afterTaken signal.taken ++ rest) := by
  have hloop : ∀ front : List Job, (∀ j ∈ front, j.event = true) →
      Course w s (front ++ .recheck :: rest) :=
    fun front hfront => .looping hfront rfl hrest hopen hparked
  cases signal with
  | batch b =>
    have hjobs : afterTaken (Signal.batch b).taken ++ rest =
        (b.events.map (.handle b.key) ++ [.reset b.key]) ++ .recheck :: rest := by
      simp [Signal.taken, afterTaken]
    rw [hjobs]
    refine hloop _ fun j hj => ?_
    rcases List.mem_append.mp hj with hj | hj
    · obtain ⟨event, -, rfl⟩ := List.mem_map.mp hj
      rfl
    · rw [List.mem_singleton.mp hj]
      rfl
  | failure e => exact hloop [.desk (.warn .backendError)] fun j hj => List.mem_singleton.mp hj ▸ rfl
  | closed => exact absurd rfl hsignal

/-- The loop goes on with its next turn. -/
theorem proceeds_turn (h : perform behaviour job w = some d) (hjob : turns job = true)
    (hw : Over w s t) (hopen : Open w s) (hparked : w.executor.parked = [])
    (hrest : ∀ j ∈ rest, j.light = true) :
    ∃ s', Proceeds refuses w s t (job :: rest) rest d s' t (d.next ++ rest) := by
  have hnext : ∀ {next : Job}, turns next = true →
      (Cover.of s w.ground.disk t).job refuses next = .of s w.ground.disk t →
      (Cover.of s w.ground.disk t).job refuses job = .of s w.ground.disk t →
      Proceeds refuses w s t (job :: rest) rest (.andThen w [next]) s t ([next] ++ rest) := by
    intro next hturns hnone hnone'
    have honward : Onward refuses w s t job (.andThen w [next]) s t :=
      .same hw (hnone.trans hnone'.symm)
    exact honward.proceeds rfl (.turn hturns hrest hopen hparked)
  have hsame : w.withService (.notifying s) = w := by
    rw [← hw.service]
    rfl
  cases perform_outcome h with
  | run | again => exact ⟨s, hnext rfl rfl rfl⟩
  | runStopped hstopped | loopEnded hstopped =>
    exact absurd (hopen.running.symm.trans hstopped) (by simp)
  | taken henter =>
    -- without waiting there is nothing to take as long as the service is open
    rw [hw.service] at henter
    have hnone : s.enter = none := if_neg (by rw [hopen.unclosed]; simp)
    exact absurd (hnone.symm.trans (Prod.mk.inj henter).1) (by simp)
  | waiting henter =>
    rw [hw.service] at henter
    obtain ⟨-, rfl⟩ := Prod.mk.inj henter
    rw [hsame]
    exact ⟨s, hnext rfl rfl rfl⟩
  | received hreceive =>
    rw [hw.service] at hreceive
    obtain ⟨s', rfl, hs'⟩ := Service.receive_notifying hreceive
    obtain ⟨signal, hqueue, rfl, hsame'⟩ := NotifyingService.receive_front hs'
    have hsignal : signal ≠ .closed := by
      rintro rfl
      exact hopen.unsignalled (hqueue ▸ List.mem_cons_self)
    have hopen' : Open (w.withService (.notifying s')) s' := by
      refine ⟨hopen.running, ?_, fun hmem => hopen.unsignalled ?_⟩
      · rw [hsame']
        exact hopen.unclosed
      · rw [hqueue]
        exact List.mem_cons_of_mem _ hmem
    have hcover : Cover.of s' w.ground.disk t = .of s w.ground.disk t := by
      rw [hsame']
      rfl
    refine ⟨s', ⟨rfl, hw.target⟩, rfl, rfl, rfl, Or.inl ⟨rfl, rfl⟩,
      course_afterTaken hsignal hrest hopen' hparked, ?_⟩
    -- what was first in the queue is now first in the thread
    show outcome refuses (afterTaken signal.taken ++ rest) s' w.ground.disk t = _
    unfold outcome
    rw [hcover, hqueue, List.foldl_append, Cover.jobs_of_light hrest, List.foldl_cons,
      List.foldl_cons, afterTaken_conserved _ hsignal, Cover.jobs_of_light hrest]
    rfl
  | _ => exact absurd hjob (by simp [turns])

/-- The loop is run, or parked, or refused and then everything is closed. -/
theorem proceeds_submit {caller : Caller} (h : Submitted w caller d) (hw : Over w s t)
    (hopen : Open w s) (hparked : w.executor.parked = []) (hrest : ∀ j ∈ rest, j.light = true) :
    ∃ main, Proceeds w.executor.manner.refuses w s t (.submit caller :: rest) rest d s t main := by
  have hlight : ∀ j ∈ .started caller none :: rest, j.light = true := by
    intro j hj
    rcases List.mem_cons.mp hj with rfl | hj
    · rfl
    · exact hrest j hj
  -- the loop runs in a thread of its own, waits to be unparked, or was refused
  cases h with
  | running executor hmanner hsame haccepts =>
    refine ⟨[.run], ⟨hw.service, hw.target⟩, rfl, rfl, hmanner, Or.inr ⟨rfl, rfl, hlight⟩,
      .turn rfl (by simp) ⟨hopen.running, hopen.unclosed, hopen.unsignalled⟩
        (hsame.trans hparked), ?_⟩
    unfold outcome
    rw [List.foldl_cons, List.foldl_cons, Cover.jobs_of_light hrest]
    simp only [Cover.job, haccepts]
    rfl
  | parked executor hmanner hadded haccepts =>
    have hwaits : executor.parked = [.run] := by
      rw [hadded, hparked]
      rfl
    refine ⟨.started caller none :: rest, ⟨hw.service, hw.target⟩, rfl, rfl, hmanner,
      Or.inl ⟨rfl, rfl⟩, .done hlight
        (Or.inr ⟨hwaits, hopen.running, hopen.unclosed, hopen.unsignalled⟩), ?_⟩
    unfold outcome
    rw [List.foldl_cons, List.foldl_cons]
    simp only [Cover.job, haccepts]
    rfl
  | refused e hrefuses =>
    refine ⟨.stop :: .started caller (some e) :: rest, hw, rfl, rfl, rfl, Or.inl ⟨rfl, rfl⟩,
      .leading rfl ?_ hopen hparked, ?_⟩
    · intro j hj
      rcases List.mem_cons.mp hj with rfl | hj
      · rfl
      · exact hrest j hj
    · unfold outcome
      rw [hrefuses]
      rfl

/-- A running watch goes on with its start, or comes to its end. -/
theorem proceeds_lead (h : perform behaviour job w = some d) (hjob : job.leads = true)
    (hw : Over w s t) (hopen : Open w s) (hparked : w.executor.parked = [])
    (hrest : ∀ j ∈ rest, j.light = true) :
    ∃ s' t' main, Proceeds w.executor.manner.refuses w s t (job :: rest) rest d s' t' main := by
  by_cases hsubmit : ∃ caller, job = .submit caller
  · obtain ⟨caller, rfl⟩ := hsubmit
    obtain rfl := Option.some.inj h
    exact ⟨s, t, proceeds_submit (submit_submitted w caller) hw hopen hparked hrest⟩
  by_cases hstop : job = .stop
  · subst hstop
    simp only [perform, hopen.running, Bool.false_eq_true, if_false] at h
    obtain rfl := Option.some.inj h
    refine ⟨s, t, _, ⟨hw.service, hw.target⟩, rfl, rfl, rfl, Or.inl ⟨rfl, rfl⟩,
      .closing hopen.unclosed (fun j hj => ?_) hparked, rfl⟩
    rcases List.mem_append.mp hj with hj | hj
    · simp only [List.mem_cons, List.not_mem_nil, or_false] at hj
      rcases hj with rfl | rfl <;> rfl
    · exact hrest j hj
  · obtain ⟨⟨s', t', honward⟩, ⟨first, more, hnext, hfirst, hmore⟩, hspawned⟩ :=
      perform_launch h hjob hw hopen.running (fun caller heq => hsubmit ⟨caller, heq⟩) hstop
    refine ⟨s', t', _, honward.proceeds hspawned ?_⟩
    rw [hnext]
    refine .leading hfirst (fun j hj => ?_) (hopen.onward honward) ?_
    · exact (List.mem_append.mp hj).elim (hmore j) (hrest j)
    · rw [honward.executor]
      exact hparked

/-- A step of closing is part of what closing does, and so are those that follow it. -/
theorem close_conserved {step : CloseStep} (h : ClosedUpTo s step) (disk : Disk) :
    ((s.closeStep step).2.toList.map Job.close).foldl (Cover.job refuses)
      (.of (s.closeStep step).1 disk t) = (Cover.of s disk t).close := by
  obtain ⟨backend, registry, queue, closed⟩ := s
  cases step with
  | mark =>
    obtain rfl : closed = false := h
    rfl
  | release => rfl
  | forget => rfl
  | signal =>
    obtain ⟨rfl, hclear⟩ : backend = none ∧ registry.clear = registry := h
    show Cover.of ⟨none, registry, queue ++ [.closed], closed⟩ disk t =
      .of ⟨none, registry.clear, queue, closed⟩ disk t
    rw [hclear]
    rfl

/-- What is closed before the step that follows a step of closing. -/
theorem closedUpTo_next {step next : CloseStep} (h : ClosedUpTo s step)
    (hnext : (s.closeStep step).2 = some next) : ClosedUpTo (s.closeStep step).1 next := by
  cases step with
  | mark =>
    have hopen : s.closed = false := h
    rw [NotifyingService.closeStep, hopen] at hnext
    obtain rfl := Option.some.inj hnext
    trivial
  | release =>
    obtain rfl := Option.some.inj hnext
    rfl
  | forget =>
    obtain rfl := Option.some.inj hnext
    exact ⟨h, rfl⟩
  | signal => exact absurd hnext (by simp [NotifyingService.closeStep])

/-- Closing goes on with its next step. -/
theorem proceeds_close {step : CloseStep} (h : perform behaviour (.close step) w = some d)
    (hclosed : ClosedUpTo s step) (hw : Over w s t) (hparked : w.executor.parked = [])
    (hrest : ∀ j ∈ rest, j.light = true) :
    ∃ s', Proceeds refuses w s t (.close step :: rest) rest d s' t (d.next ++ rest) := by
  have hstep : w.ground.service.closeStep step =
      (.notifying (s.closeStep step).1, (s.closeStep step).2) := by
    rw [hw.service]
    rfl
  simp only [perform, hstep] at h
  obtain rfl := Option.some.inj h
  refine ⟨(s.closeStep step).1, ⟨rfl, hw.target⟩, rfl, rfl, rfl, Or.inl ⟨rfl, rfl⟩, ?_, ?_⟩
  · cases hnext : (s.closeStep step).2 with
    | none => exact .done hrest (Or.inl hparked)
    | some next => exact .closing (closedUpTo_next hclosed hnext) hrest hparked
  · -- nothing but the signal of closing is added to the queue
    obtain ⟨more, hqueue, hmore⟩ :=
      (ServiceEffect.close step : ServiceEffect w s (.close step) _).queue (by simp)
    have hsilent : ∀ x ∈ more, ∀ b, x ≠ .batch b := fun x hx b => by simp [hmore x hx]
    unfold outcome
    rw [hqueue, List.foldl_append, signals_silent hsilent, List.foldl_append, List.foldl_cons]
    congr 2
    exact close_conserved hclosed w.ground.disk

/-- The thread takes a step on its course. -/
theorem Course.step (hspares : Spares behaviour) (h : perform behaviour job w = some d)
    (hcourse : Course w s (job :: rest)) (hw : Over w s t) (hstarted : w.started = true)
    (hoverride : w.strategy.override = .none)
    (hreset : ∀ key, (w.ground.service.reset w.ground.disk key).2 = w.ground.service) :
    ∃ s' t' main, Proceeds w.executor.manner.refuses w s t (job :: rest) rest d s' t' main := by
  generalize hjobs : job :: rest = jobs at hcourse
  cases hcourse with
  | @looping front rest' last hfront hlast hrest hopen hparked =>
    -- the loop takes its turn when the jobs of the batch before it are done
    cases front with
    | nil =>
      obtain ⟨rfl, rfl⟩ := List.cons.inj hjobs
      obtain ⟨s', hproceeds⟩ := proceeds_turn h hlast hw hopen hparked hrest
      exact ⟨s', t, _, hproceeds⟩
    | cons first front =>
      obtain ⟨rfl, rfl⟩ : job = first ∧ rest = front ++ last :: rest' := List.cons.inj hjobs
      obtain ⟨⟨s', t', honward⟩, hnext, hspawned⟩ := perform_event hspares h
        (hfront job List.mem_cons_self) hw hstarted hoverride hreset
      refine ⟨s', t', _, honward.proceeds hspawned ?_⟩
      have hregroup : d.next ++ front.append (last :: rest') = (d.next ++ front) ++ last :: rest' :=
        (List.append_assoc _ _ _).symm
      rw [hregroup]
      refine .looping (fun j hj => ?_) hlast hrest (hopen.onward honward) ?_
      · rcases List.mem_append.mp hj with hj | hj
        · exact hnext j hj
        · exact hfront j (List.mem_cons_of_mem _ hj)
      · rw [honward.executor]
        exact hparked
  | leading hlead hrest hopen hparked =>
    obtain ⟨rfl, rfl⟩ := List.cons.inj hjobs
    exact proceeds_lead h hlead hw hopen hparked hrest
  | closing hclosed hrest hparked =>
    obtain ⟨rfl, rfl⟩ := List.cons.inj hjobs
    obtain ⟨s', hproceeds⟩ := proceeds_close h hclosed hw hparked hrest
    exact ⟨s', t, _, hproceeds⟩
  | done hall hparked =>
    -- no job is left that matters, so the thread stays done
    obtain rfl := hjobs
    have hjob : job.light = true := hall job List.mem_cons_self
    have hdone := perform_light hspares h hjob hstarted hreset
    have honward : Onward w.executor.manner.refuses w s t job d s t := hdone.onward hw hjob
    refine ⟨s, t, _, honward.proceeds hdone.spawned (.done (fun j hj => ?_) ?_)⟩
    · rcases List.mem_append.mp hj with hj | hj
      · exact hdone.next j hj
      · exact hall j (List.mem_cons_of_mem _ hj)
    · rw [honward.executor]
      exact hparked.imp id fun ⟨hrun, hopen⟩ => ⟨hrun, hopen.onward honward⟩

/-! ### All threads -/

variable {c : Cover} {kinds : List EventKind} {p q : Running}

/-- All threads but `main` do nothing to the cover. -/
def Lone (threads : List (List Job)) (main : List Job) : Prop :=
  ∃ m : Nat, threads[m]? = some main ∧ ∀ (i : Nat) (jobs : List Job), i ≠ m →
    threads[i]? = some jobs → ∀ j ∈ jobs, j.light = true

variable {threads more : List (List Job)} {main : List Job}

/-- A thread that is started is the last one. -/
theorem getElem?_append_of {t : List Job} {i : Nat} (h : (threads ++ more)[i]? = some t) :
    threads[i]? = some t ∨ t ∈ more := by
  by_cases hold : i < threads.length
  · exact Or.inl ((List.getElem?_append_left hold).symm.trans h)
  · rw [List.getElem?_append_right (Nat.not_lt.mp hold)] at h
    exact Or.inr (List.mem_of_getElem? h)

/-- Threads are started that do nothing to the cover. -/
theorem Lone.append (h : Lone threads main) (hmore : ∀ t ∈ more, ∀ j ∈ t, j.light = true) :
    Lone (threads ++ more) main := by
  obtain ⟨m, hm, hothers⟩ := h
  have hlt : m < threads.length := (List.getElem?_eq_some_iff.mp hm).1
  refine ⟨m, (List.getElem?_append_left hlt).trans hm, fun i jobs him hi => ?_⟩
  rcases getElem?_append_of hi with hold | hnew
  · exact hothers i jobs him hold
  · exact hmore jobs hnew

/-- A thread takes over from one that has nothing more to do with the cover. -/
theorem Lone.takeOver (h : Lone threads main) (hlight : ∀ j ∈ main, j.light = true)
    (main' : List Job) : Lone (threads ++ [main']) main' := by
  obtain ⟨m, hm, hothers⟩ := h
  refine ⟨threads.length, List.getElem?_concat_length, fun i jobs hi hjobs => ?_⟩
  by_cases hold : i < threads.length
  · rw [List.getElem?_append_left hold] at hjobs
    by_cases him : i = m
    · subst him
      obtain rfl := Option.some.inj (hm.symm.trans hjobs)
      exact hlight
    · exact hothers i jobs him hjobs
  · have hlt : i < (threads ++ [main']).length := (List.getElem?_eq_some_iff.mp hjobs).1
    rw [List.length_append, List.length_singleton] at hlt
    exact absurd (by omega) hi

/-- All registered directories are there. -/
def intact (p : Running) : Bool :=
  match p.state.ground.service with
  | .notifying s => s.registry.byKey.all fun e => p.state.ground.disk.isDir e.2
  | .memory _ => true

/-- Where all registered directories are there, none is given up. -/
theorem reset_of_intact (h : intact p = true) (hp : Over p.state s t) (key : Key) :
    (p.state.ground.service.reset p.state.ground.disk key).2 = p.state.ground.service := by
  unfold intact at h
  rw [hp.service] at h ⊢
  show Service.notifying (s.reset p.state.ground.disk key).2 = _
  unfold NotifyingService.reset
  split
  · rfl
  · split
    · rfl
    · next dir hdir =>
      obtain ⟨front, back, hsplit, -⟩ := List.lookup_eq_some_iff.mp hdir
      have hmem : (key, dir) ∈ s.registry.byKey := by
        rw [hsplit]
        exact List.mem_append_right _ List.mem_cons_self
      rw [if_pos (List.all_eq_true.mp h _ hmem)]

/-- A watch that was started, and is about to cover `c`. -/
structure Manned (refuses : Bool) (c : Cover) (p : Running) : Prop where
  started : p.state.started = true
  override : p.state.strategy.override = .none
  manner : p.state.executor.manner.refuses = refuses
  course : ∃ main s t, Lone p.threads main ∧ Over p.state s t ∧ Course p.state s main ∧
    outcome refuses main s p.state.ground.disk t = c

/-- No step of any thread changes what the watch is about to cover. -/
theorem Manned.step {i : Nat} (hspares : Spares behaviour) (hp : Manned refuses c p)
    (hintact : intact p = true) (hstep : p.step (machine behaviour) i = some q) :
    Manned refuses c q := by
  obtain ⟨hstarted, hoverride, rfl, main, s, t, ⟨m, hm, hothers⟩, hover, hcourse, rfl⟩ := hp
  have hreset := reset_of_intact hintact hover
  obtain ⟨job, rest, d, hi, hd, rfl⟩ := Pool.step_eq_some hstep
  have hd : perform behaviour job p.state = some d := hd
  have hoverride' := (perform_sameSetup hd).override.trans hoverride
  by_cases him : i = m
  · -- the thread that the cover depends on
    subst him
    obtain rfl := Option.some.inj (hm.symm.trans hi)
    obtain ⟨s', t', main', hproceeds⟩ := hcourse.step hspares hd hover hstarted hoverride hreset
    have hnext : Lone (p.threads.set i (d.next ++ rest)) (d.next ++ rest) := by
      refine ⟨i, List.getElem?_set_self (List.getElem?_eq_some_iff.mp hi).1, fun k jobs hk hjobs => ?_⟩
      rw [List.getElem?_set_ne (Ne.symm hk)] at hjobs
      exact hothers k jobs hk hjobs
    refine ⟨hproceeds.started.trans hstarted, hoverride', congrArg _ hproceeds.manner, main', s',
      t', ?_, hproceeds.setup, hproceeds.course, ?_⟩
    · rcases hproceeds.continues with ⟨hspawned, rfl⟩ | ⟨hspawned, rfl, hlight⟩ <;> rw [hspawned]
      · exact hnext.append (by simp)
      · exact hnext.takeOver hlight _
    · show outcome _ main' s' d.state.ground.disk t' = _
      rw [hproceeds.disk]
      exact hproceeds.conserved
  · -- any other thread does nothing to it
    have hlight := hothers i _ him hi
    have hdone := perform_light hspares hd (hlight job List.mem_cons_self) hstarted hreset
    have hlight' : ∀ j ∈ d.next ++ rest, j.light = true := fun j hj =>
      (List.mem_append.mp hj).elim (hdone.next j) fun hj => hlight j (List.mem_cons_of_mem _ hj)
    have hlone : Lone (p.threads.set i (d.next ++ rest) ++ d.spawned) main := by
      rw [hdone.spawned, List.append_nil]
      refine ⟨m, (List.getElem?_set_ne him).trans hm, fun k jobs hk hjobs => ?_⟩
      by_cases hik : i = k
      · subst hik
        rw [List.getElem?_set_self (List.getElem?_eq_some_iff.mp hi).1] at hjobs
        obtain rfl := Option.some.inj hjobs
        exact hlight'
      · rw [List.getElem?_set_ne hik] at hjobs
        exact hothers k jobs hk hjobs
    obtain ⟨desk, hstate⟩ := hdone.state
    simp only [hstate]
    exact ⟨hstarted, hoverride, rfl, main, s, t, hlone, ⟨hover.service, hover.target⟩,
      hcourse.transfer rfl rfl rfl Iff.rfl rfl id, rfl⟩

/-- What is done without anyone asking for it. -/
def own : Outside → Bool
  | .unpark | .dispatch _ => true
  | _ => false

/-- What is done of its own accord does not change it, either. -/
theorem Manned.own {e : Outside} (hp : Manned refuses c p) (he : own e = true)
    (h : outside e p = some q) : Manned refuses c q := by
  obtain ⟨hstarted, hoverride, hmanner, main, s, t, hlone, hover, hcourse, hcover⟩ := hp
  cases e with
  | unpark =>
    obtain rfl := Option.some.inj h
    rcases hcourse.parked with hnone | ⟨hrun, hopen, hlight⟩
    · refine ⟨hstarted, hoverride, hmanner, main, s, t, hlone.append ?_,
        ⟨hover.service, hover.target⟩, hcourse.transfer rfl hnone.symm rfl Iff.rfl rfl id, hcover⟩
      intro jobs hjobs
      obtain ⟨job, hjob, -⟩ := List.mem_map.mp hjobs
      rw [hnone] at hjob
      exact absurd hjob List.not_mem_nil
    · -- the loop takes over
      refine ⟨hstarted, hoverride, hmanner, [.run], s, t, ?_, ⟨hover.service, hover.target⟩,
        .turn rfl (by simp) ⟨hopen.running, hopen.unclosed, hopen.unsignalled⟩ rfl, ?_⟩
      · show Lone (p.threads ++ p.state.executor.parked.map fun job => [job]) _
        rw [hrun]
        exact hlone.takeOver hlight _
      · rw [outcome_of_light hlight] at hcover
        exact hcover
  | dispatch n =>
    obtain ⟨r, -, rfl⟩ := Option.map_eq_some_iff.mp h
    refine ⟨hstarted, hoverride, hmanner, main, s, t, hlone.append ?_,
      ⟨hover.service, hover.target⟩, hcourse.transfer rfl rfl rfl Iff.rfl rfl id, hcover⟩
    intro jobs hjobs j hj
    rw [List.mem_singleton.mp hjobs] at hj
    rw [List.mem_singleton.mp hj]
    rfl
  | _ => exact absurd he (by simp [Notified.own])

end ChangeWatch.Notified
