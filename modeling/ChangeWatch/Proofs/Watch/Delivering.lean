import ChangeWatch.Proofs.Service.Translating
import ChangeWatch.Proofs.Watch.Delivering.Owing

/-!
# What is reported is told, in order

At most one job at a time takes from the queue, or leads to one that does
(`Job.queueBound`, `perform_queueBound`); and whatever is owed because of a batch is owed by
the thread that took it, in front of the job that takes the next one (`Guarded`).  So what
callbacks were told, with what is still owed by jobs and then by the queue, is all that was
ever due, in order: a move adds to it what the reports give that come with it, at the end,
and changes nothing else (`Orderly.move`).

When the loop waits and the queue is empty, nothing is owed (`Orderly.idle`).  From the moment a
watch is built, then, callbacks are told what its moves make due (`Sustained.told`).
-/

namespace ChangeWatch

/-- A job that takes from the queue or comes back to it, or is on the way there. -/
def Job.queueBound : Job → Bool
  | .startUnlessStopped _ | .registerRoot _ | .walk (.start _) .. | .submit _ | .run | .take
  | .receive | .recheck => true
  | _ => false

namespace Scope

open Watch
open Notified (Outside outside setting Supplied perform_serviceEffect outside_service signalsOf)

variable {γ : Type} {v : Scope γ} {behaviour : Behaviour Wish} {w w' : Watch} {job : Job}
  {d : Done Watch Job} {s : NotifyingService} {p q : Running}

/-! ### One loop -/

/-- What follows a job that is not bound for the queue is not either, unless the start is
claimed. -/
theorem follows_queueBound {j : Job} (h : Follows w job j) (hjob : job.queueBound = false)
    (haside : job.aside = true) : j.queueBound = false := by
  cases h with
  | claimed | stop => exact absurd haside (by simp [Job.aside])
  | taken | received => exact absurd hjob (by simp [Job.queueBound])
  | broken _ _ _ _ hj =>
    rcases List.mem_cons.mp hj with rfl | hj
    · rfl
    · rw [List.mem_singleton.mp hj]
      rfl
  | walk purpose =>
    cases purpose with
    | start caller => exact absurd hjob (by simp [Job.queueBound])
    | pickup event path => rfl
  | _ => first | rfl | exact absurd hjob (by simp [Job.queueBound])

/-- What is taken leads back to the queue once at most. -/
theorem countP_afterTaken (taken : Taken) : (afterTaken taken).countP Job.queueBound ≤ 1 := by
  cases taken with
  | batch b =>
    have hhandles : (b.events.map (Job.handle b.key)).countP Job.queueBound = 0 := by
      refine List.countP_eq_zero.mpr fun j hj => ?_
      obtain ⟨event, -, rfl⟩ := List.mem_map.mp hj
      simp [Job.queueBound]
    show (b.events.map (Job.handle b.key) ++
      [Job.reset b.key, Job.recheck]).countP Job.queueBound ≤ 1
    rw [List.countP_append, hhandles]
    exact Nat.le_refl 1
  | failure e => exact Nat.le_refl 1
  | closed => exact Nat.zero_le 1

theorem perform_queueBound_aside (h : perform behaviour job w = some d)
    (haside : job.aside = true) :
    d.next.countP Job.queueBound ≤ if job.queueBound then 1 else 0 := by
  cases hbound : job.queueBound with
  | false =>
    refine Nat.le_of_eq (List.countP_eq_zero.mpr fun j hj => ?_)
    rw [follows_queueBound ((perform_threadEffect h).next j hj) hbound haside]
    simp
  | true =>
    cases perform_outcome h with
    | run | again | waiting => exact Nat.le_refl 1
    | runStopped | loopEnded => exact Nat.zero_le 1
    | taken | received => exact countP_afterTaken _
    -- the others are part of a call of `start`, or drive nothing
    | inTime | late | fileRegistered | fileRefused | walkBegun | ran | parked | refused =>
      exact absurd haside (by simp [Job.aside, Job.opens])
    | walked purpose | walkBroken purpose | walkEnded purpose =>
      cases purpose with
      | start caller => exact absurd haside (by simp [Job.aside, Job.opens])
      | pickup event path => exact absurd hbound (by simp [Job.queueBound])
    | _ => exact absurd hbound (by simp [Job.queueBound])

/-- A job bound for the queue hands this on to one other, or to what is parked; only a
claim of the start begins it. -/
theorem perform_queueBound (h : perform behaviour job w = some d) :
    d.next.countP Job.queueBound + d.spawned.flatten.countP Job.queueBound +
        d.state.executor.parked.length + w.started.toNat ≤
      (if job.queueBound then 1 else 0) + w.executor.parked.length + d.state.started.toNat := by
  have heffect := Lifecycle.perform_lifecycleEffect h
  generalize Lifecycle.seen job w = told at heffect
  -- a registration goes on, submits the loop or fails, each by one job
  have hregistration : ∀ {caller : Caller} {told : List Lifecycle.Seen} {next : List Job},
      Lifecycle.Registration caller told next → next.countP Job.queueBound ≤ 1 := by
    intro caller told next hnext
    cases hnext with
    | goesOn => exact Nat.le_refl 1
    | ends => exact Nat.le_refl 1
    | fails e => exact Nat.zero_le 1
  -- what a job adds is one in its thread, one in a new thread or one that is parked
  cases heffect with
  | claims caller hfresh =>
    show 1 + 0 + w.executor.parked.length + w.started.toNat ≤
      0 + w.executor.parked.length + 1
    rw [hfresh, Bool.toNat_false]
    omega
  | @registers caller w' _ _ next hsame _ hnext | @walks caller _ _ w' _ _ next hsame _ hnext =>
    have hcount := hregistration hnext
    show next.countP Job.queueBound + 0 + w'.executor.parked.length + w.started.toNat ≤
      1 + w.executor.parked.length + w'.started.toNat
    rw [hsame.executor, hsame.started]
    omega
  | @runs caller executor hparked =>
    show 0 + 1 + executor.parked.length + w.started.toNat ≤
      1 + w.executor.parked.length + w.started.toNat
    rw [hparked]
  | @parks caller executor hparked =>
    show 0 + 0 + executor.parked.length + w.started.toNat ≤
      1 + w.executor.parked.length + w.started.toNat
    rw [hparked, List.length_append]
    simp only [List.length_singleton]
    omega
  | @refuses caller e executor hparked =>
    show 0 + 0 + executor.parked.length + w.started.toNat ≤
      1 + w.executor.parked.length + w.started.toNat
    rw [hparked]
    omega
  | closes step =>
    have hnone :
        (((w.ground.service.closeStep step).2.toList.map Job.close).countP Job.queueBound) =
        0 := by
      refine List.countP_eq_zero.mpr fun j hj => ?_
      obtain ⟨next, -, rfl⟩ := List.mem_map.mp hj
      simp [Job.queueBound]
    show ((w.ground.service.closeStep step).2.toList.map Job.close).countP Job.queueBound + 0 +
      w.executor.parked.length + w.started.toNat ≤ 0 + w.executor.parked.length + w.started.toNat
    rw [hnone]
  | isAside haside hsame hspawned _ =>
    have hcount := perform_queueBound_aside h haside
    rw [hspawned, hsame.executor, hsame.started]
    show _ + 0 + _ + _ ≤ _
    omega
  | _ => simp [Done.andThen, Done.just, Job.queueBound, Watch.note]

/-! ### Threads -/

variable (v) in
/-- In a thread, whatever owes something stands in front of a job bound for the queue. -/
def Guarded (w : Watch) : List Job → Prop
  | [] => True
  | j :: rest => (v.owed w j ≠ [] → rest.any Job.queueBound = true) ∧ Guarded w rest

/-- In front of a job bound for the queue anything may be owed. -/
theorem Guarded.before {rest : List Job} (h : v.Guarded w rest)
    (hbound : rest.any Job.queueBound = true) (jobs : List Job) : v.Guarded w (jobs ++ rest) := by
  induction jobs with
  | nil => exact h
  | cons j jobs ih =>
    refine ⟨fun _ => ?_, ih⟩
    show (jobs ++ rest).any Job.queueBound = true
    rw [List.any_append, hbound, Bool.or_true]

/-- Jobs that owe nothing may stand anywhere. -/
theorem Guarded.idly {rest : List Job} (h : v.Guarded w rest) {jobs : List Job}
    (hjobs : jobs.flatMap (v.owed w) = []) : v.Guarded w (jobs ++ rest) := by
  induction jobs with
  | nil => exact h
  | cons j jobs ih =>
    rw [List.flatMap_cons, List.append_eq_nil_iff] at hjobs
    exact ⟨fun howed => absurd hjobs.1 howed, ih hjobs.2⟩

/-- A thread that does not drive the loop owes nothing. -/
theorem Guarded.owed_eq_nil {thread : List Job} (h : v.Guarded w thread)
    (hbound : thread.countP Job.queueBound = 0) : thread.flatMap (v.owed w) = [] := by
  induction thread with
  | nil => rfl
  | cons j rest ih =>
    have hrest : rest.countP Job.queueBound = 0 := by
      rw [List.countP_cons] at hbound
      omega
    have hj : v.owed w j = [] := by
      by_contra howed
      have hany := h.1 howed
      rw [List.any_eq_true] at hany
      obtain ⟨j', hj', hbound'⟩ := hany
      exact absurd hbound' (List.countP_eq_zero.mp hrest j' hj')
    rw [List.flatMap_cons, hj, ih h.2 hrest]
    rfl

theorem Guarded.congr {thread : List Job} (h : v.Guarded w thread)
    (howed : ∀ j ∈ thread, v.owed w' j = v.owed w j) : v.Guarded w' thread := by
  induction thread with
  | nil => exact trivial
  | cons j rest ih =>
    refine ⟨fun hj => h.1 (howed j List.mem_cons_self ▸ hj), ?_⟩
    exact ih h.2 fun j' hj' => howed j' (List.mem_cons_of_mem _ hj')

/-! ### All that was ever due -/

variable (v) in
/-- What the callbacks were told, and what is still owed: by jobs, and then by the queue. -/
def account (p : Running) : List (Callback × EventKind × γ) :=
  v.told p.state ++ (p.jobs.flatMap (v.owed p.state) ++
    p.state.ground.service.signals.flatMap (v.owedSignal p.state))

variable (v) in
/-- What a watch knows, it knows for good, and what is due of an event stays the same. -/
def Steady (w w' : Watch) : Prop :=
  ∀ key event, v.knows w key event →
    v.knows w' key event ∧ v.dueEvent w' key event = v.dueEvent w key event

variable (v) in
/-- A watch at which what is followed is told in order. -/
structure Orderly (p : Running) : Prop where
  service : ∃ s, p.state.ground.service = .notifying s
  prompt : v.Prompt p.state
  single : p.jobs.countP Job.queueBound + p.state.executor.parked.length ≤ p.state.started.toNat
  parked : ∀ j ∈ p.state.executor.parked, j = .run
  guarded : ∀ t ∈ p.threads, v.Guarded p.state t
  fit : ∀ j ∈ p.jobs, v.Fit p.state j
  known : ∀ b, .batch b ∈ p.state.ground.service.signals →
    ∀ event ∈ b.events, v.knows p.state b.key event
  gathers : v.Gathers p.state.desk

/-- What a job owes stays the same, as long as the watch is set up as it was. -/
theorem Steady.owed (h : v.Steady w w') (hsetup : SameSetup w w') (hfit : v.Fit w job) :
    v.owed w' job = v.owed w job ∧ v.Fit w' job := by
  have hdue : ∀ kind path, v.due w' kind path = v.due w kind path := by
    intro kind path
    unfold due
    rw [hsetup.handlers]
  cases job with
  | handle key event => exact ⟨(h key event hfit).2, (h key event hfit).1⟩
  | walk purpose =>
    cases purpose with
    | start caller => exact ⟨rfl, hfit⟩
    | pickup event path => exact ⟨hdue _ _, hfit⟩
  | desk job => cases job <;> exact ⟨rfl, hfit⟩
  | pickUp | survey | dispatch => exact ⟨hdue _ _, hfit⟩
  | _ => exact ⟨rfl, hfit⟩

theorem Steady.owedSignal (h : v.Steady w w') {signal : Signal}
    (hknown : ∀ b, signal = .batch b → ∀ event ∈ b.events, v.knows w b.key event) :
    v.owedSignal w' signal = v.owedSignal w signal := by
  cases signal with
  | batch b =>
    unfold Scope.owedSignal
    dsimp only
    refine List.flatMap_congr ?_
    exact fun event hevent => (h b.key event (hknown b rfl event hevent)).2
  | _ => rfl

/-! ### A step of a thread -/

/-- What is taken stands for what it is about. -/
theorem receive_cases (hs : w.ground.service = .notifying s)
    (h : perform behaviour .receive w = some d) : ∃ signal s', s.queue = signal :: s'.queue ∧
      d = .andThen (w.withService (.notifying s')) (afterTaken signal.taken) := by
  cases perform_outcome h with
  | received hreceive =>
    rw [hs] at hreceive
    obtain ⟨s', rfl, hs'⟩ := Service.receive_notifying hreceive
    obtain ⟨signal, hqueue, rfl, -⟩ := NotifyingService.receive_front hs'
    exact ⟨signal, s', hqueue, rfl⟩

/-- What follows something taken owes what was due because of it, in front of the job that
comes back to the queue. -/
theorem taken_owed {signal : Signal}
    (hknown : ∀ b, signal = .batch b → ∀ event ∈ b.events, v.knows w b.key event)
    {rest : List Job} (hrest : v.Guarded w rest) :
    (afterTaken signal.taken).flatMap (v.owed w) = v.owedSignal w signal ∧
      (∀ j ∈ afterTaken signal.taken, v.Fit w j) ∧
      v.Guarded w (afterTaken signal.taken ++ rest) := by
  cases signal with
  | batch b =>
    have howed : (b.events.map (Job.handle b.key)).flatMap (v.owed w) =
        v.owedSignal w (.batch b) := by
      rw [List.flatMap_map]
      rfl
    refine ⟨?_, fun j hj => ?_, ?_⟩
    · show (b.events.map (Job.handle b.key) ++ [Job.reset b.key, Job.recheck]).flatMap _ = _
      rw [List.flatMap_append, howed]
      exact List.append_nil _
    · rcases List.mem_append.mp hj with hj | hj
      · obtain ⟨event, hevent, rfl⟩ := List.mem_map.mp hj
        exact hknown b rfl event hevent
      · rcases List.mem_cons.mp hj with rfl | hj
        · exact trivial
        · rw [List.mem_singleton.mp hj]
          exact trivial
    · -- the recheck comes last and is bound for the queue, so all may owe before it
      show v.Guarded w (b.events.map (Job.handle b.key) ++ [Job.reset b.key, Job.recheck] ++ rest)
      rw [List.append_assoc]
      have hback : v.Guarded w ([Job.reset b.key, Job.recheck] ++ rest) := hrest.idly rfl
      exact hback.before rfl _
  | failure e =>
    refine ⟨rfl, fun j hj => ?_, hrest.idly rfl⟩
    rcases List.mem_cons.mp hj with rfl | hj
    · exact trivial
    · rw [List.mem_singleton.mp hj]
      exact trivial
  | closed =>
    refine ⟨rfl, fun j hj => ?_, hrest.idly rfl⟩
    rw [List.mem_singleton.mp hj]
    exact trivial

variable (v) in
/-- What a job does to the account of what was told, what its thread owes and what the queue
owes: it balances as long as the thread has the loop to itself, and a thread without the loop
leaves it alone. -/
structure AccountEffect (w : Watch) (job : Job) (rest : List Job) (d : Done Watch Job) : Prop where
  fit : ∀ j ∈ d.next, v.Fit w j
  guarded : v.Guarded w (d.next ++ rest)
  known : ∀ b, .batch b ∈ d.state.ground.service.signals →
    .batch b ∈ w.ground.service.signals
  account : (job :: rest).countP Job.queueBound ≤ 1 →
    v.told d.state ++ ((d.next ++ rest).flatMap (v.owed w) ++
        d.state.ground.service.signals.flatMap (v.owedSignal w)) =
      v.told w ++ ((job :: rest).flatMap (v.owed w) ++
        w.ground.service.signals.flatMap (v.owedSignal w))
  idle : (job :: rest).countP Job.queueBound = 0 → v.told d.state = v.told w ∧
    (d.next ++ rest).flatMap (v.owed w) = [] ∧
    d.state.ground.service.signals.flatMap (v.owedSignal w) =
      w.ground.service.signals.flatMap (v.owedSignal w)

/-- What the loop takes was owed by the queue, and is owed by the thread of the loop after it. -/
theorem accountEffect_received {rest : List Job} (hs : w.ground.service = .notifying s)
    (hknown : ∀ b, .batch b ∈ w.ground.service.signals → ∀ event ∈ b.events, v.knows w b.key event)
    (h : perform behaviour .receive w = some d) (hguarded : v.Guarded w rest) :
    v.AccountEffect w .receive rest d := by
  have hsignals : w.ground.service.signals = s.queue := by
    rw [hs]
    rfl
  obtain ⟨signal, s', hqueue, rfl⟩ := receive_cases hs h
  have hmem : ∀ b, signal = .batch b → ∀ event ∈ b.events, v.knows w b.key event := by
    rintro b rfl
    refine hknown b ?_
    rw [hsignals, hqueue]
    exact List.mem_cons_self
  obtain ⟨howed, hfits, hguards⟩ := taken_owed hmem hguarded
  refine ⟨hfits, hguards, fun b hb => ?_, fun hcount => ?_, fun hcount => ?_⟩
  · rw [hsignals, hqueue]
    exact List.mem_cons_of_mem _ hb
  · -- nobody else comes to the queue, so the rest of the thread owes nothing
    have hrest : rest.flatMap (v.owed w) = [] := by
      refine hguarded.owed_eq_nil ?_
      rw [List.countP_cons_of_pos rfl] at hcount
      omega
    rw [hsignals, hqueue]
    show v.told w ++ ((afterTaken signal.taken ++ rest).flatMap (v.owed w) ++
      s'.queue.flatMap (v.owedSignal w)) = v.told w ++ (rest.flatMap (v.owed w) ++
        (v.owedSignal w signal ++ s'.queue.flatMap (v.owedSignal w)))
    rw [List.flatMap_append, howed, hrest, List.append_nil, List.nil_append]
  · rw [List.countP_cons_of_pos rfl] at hcount
    omega

/-- A job that takes nothing moves what it owes to what was told or to what follows it; the
queue grows by the signal of closing at most, because of which nothing is owed. -/
theorem OwedEffect.account {rest : List Job} {more : List Signal} (h : v.OwedEffect w job d)
    (hqueue : d.state.ground.service.signals = w.ground.service.signals ++ more)
    (hmore : ∀ x ∈ more, x = .closed) (hguarded : v.Guarded w (job :: rest)) :
    v.AccountEffect w job rest d := by
  obtain ⟨⟨new, htold, howed⟩, hfits⟩ := h
  have hqueued : d.state.ground.service.signals.flatMap (v.owedSignal w) =
      w.ground.service.signals.flatMap (v.owedSignal w) := by
    have hsilent : more.flatMap (v.owedSignal w) = [] := by
      refine List.flatMap_eq_nil_iff.mpr fun x hx => ?_
      rw [hmore x hx]
      rfl
    rw [hqueue, List.flatMap_append, hsilent, List.append_nil]
  refine ⟨hfits, ?_, fun b hb => ?_, fun _ => ?_, fun hcount => ?_⟩
  · -- who owes something has a job bound for the queue behind it, and who owes nothing hands
    -- on nothing
    by_cases hnone : v.owed w job = []
    · rw [hnone] at howed
      exact hguarded.2.idly (List.append_eq_nil_iff.mp howed.symm).2
    · exact hguarded.2.before (hguarded.1 hnone) _
  · rw [hqueue] at hb
    rcases List.mem_append.mp hb with hb | hb
    · exact hb
    · exact absurd (hmore _ hb) (by simp)
  · rw [hqueued, htold, List.flatMap_append, List.flatMap_cons, howed]
    simp only [List.append_assoc]
  · have hnone := hguarded.owed_eq_nil hcount
    rw [List.flatMap_cons, List.append_eq_nil_iff] at hnone
    rw [hnone.1] at howed
    obtain ⟨rfl, hnext⟩ := List.append_eq_nil_iff.mp howed.symm
    refine ⟨by rw [htold, List.append_nil], ?_, hqueued⟩
    rw [List.flatMap_append, hnext, hnone.2]
    rfl

theorem perform_accountEffect {rest : List Job} (hw : v.Prompt w)
    (hs : w.ground.service = .notifying s)
    (hknown : ∀ b, .batch b ∈ w.ground.service.signals → ∀ event ∈ b.events, v.knows w b.key event)
    (h : perform behaviour job w = some d) (hfit : v.Fit w job)
    (hguarded : v.Guarded w (job :: rest)) : v.AccountEffect w job rest d := by
  by_cases hjob : job = .receive
  · subst hjob
    exact accountEffect_received hs hknown h hguarded.2
  · obtain ⟨s', hground, heffect⟩ := perform_serviceEffect h hs
    obtain ⟨more, hqueue, hmore⟩ := heffect.queue hjob
    refine (perform_owedEffect hw hs h hfit hjob).account ?_ hmore hguarded
    rw [hground, hs]
    exact hqueue

/-! ### Moves -/

/-- As long as one thread is bound for the queue, the others owe nothing. -/
theorem Orderly.others (hp : v.Orderly p) {before behind : List (List Job)} {thread : List Job}
    (hthreads : p.threads = before ++ thread :: behind) :
    thread.countP Job.queueBound ≤ 1 ∧ (0 < thread.countP Job.queueBound →
      before.flatten.flatMap (v.owed p.state) = [] ∧
        behind.flatten.flatMap (v.owed p.state) = []) := by
  -- at most one job of all threads is bound for the queue
  have hcount : before.flatten.countP Job.queueBound + thread.countP Job.queueBound +
      behind.flatten.countP Job.queueBound ≤ 1 := by
    have hsingle := hp.single
    have hone := Bool.toNat_le p.state.started
    have hjobs : p.jobs = before.flatten ++ (thread ++ behind.flatten) := by
      unfold Pool.jobs
      rw [hthreads, List.flatten_append, List.flatten_cons]
    rw [hjobs, List.countP_append, List.countP_append] at hsingle
    omega
  -- a thread that has none owes nothing
  have hsilent : ∀ threads : List (List Job), (∀ t ∈ threads, v.Guarded p.state t) →
      threads.flatten.countP Job.queueBound = 0 →
        threads.flatten.flatMap (v.owed p.state) = [] := by
    intro threads hguarded hnone
    refine List.flatMap_eq_nil_iff.mpr fun j hj => ?_
    obtain ⟨t, ht, hjt⟩ := List.mem_flatten.mp hj
    have ht0 : t.countP Job.queueBound = 0 :=
      List.countP_eq_zero.mpr fun j' hj' => List.countP_eq_zero.mp hnone j'
        (List.mem_flatten.mpr ⟨t, ht, hj'⟩)
    exact List.flatMap_eq_nil_iff.mp ((hguarded t ht).owed_eq_nil ht0) j hjt
  refine ⟨by omega, fun hpos => ⟨hsilent before (fun t ht => hp.guarded t ?_) (by omega),
    hsilent behind (fun t ht => hp.guarded t ?_) (by omega)⟩⟩
  · rw [hthreads]
    exact List.mem_append_left _ ht
  · rw [hthreads]
    exact List.mem_append_right _ (List.mem_cons_of_mem _ ht)

/-- What is known of what waits does not change with the watch, as long as it is steady. -/
theorem account_congr (hsteady : v.Steady p.state q.state) (hsetup : SameSetup p.state q.state)
    (hfit : ∀ j ∈ q.jobs, v.Fit p.state j)
    (hknown : ∀ b, .batch b ∈ q.state.ground.service.signals →
      ∀ event ∈ b.events, v.knows p.state b.key event) :
    v.account q = v.told q.state ++ (q.jobs.flatMap (v.owed p.state) ++
      q.state.ground.service.signals.flatMap (v.owedSignal p.state)) := by
  have hjobs : q.jobs.flatMap (v.owed q.state) = q.jobs.flatMap (v.owed p.state) :=
    List.flatMap_congr fun j hj => (hsteady.owed hsetup (hfit j hj)).1
  have hqueue : q.state.ground.service.signals.flatMap (v.owedSignal q.state) =
      q.state.ground.service.signals.flatMap (v.owedSignal p.state) := by
    refine List.flatMap_congr fun x hx => hsteady.owedSignal ?_
    rintro b rfl
    exact hknown b hx
  unfold account
  rw [hjobs, hqueue]

section Step

variable {rest : List Job} {before behind : List (List Job)}

theorem Orderly.accountEffect (hp : v.Orderly p)
    (hthreads : p.threads = before ++ (job :: rest) :: behind)
    (hd : perform behaviour job p.state = some d) : v.AccountEffect p.state job rest d := by
  obtain ⟨s, hs⟩ := hp.service
  have hmem : job :: rest ∈ p.threads := by
    rw [hthreads]
    exact List.mem_append_right _ List.mem_cons_self
  exact perform_accountEffect hp.prompt hs hp.known hd
    (hp.fit job (Pool.mem_jobs.mpr ⟨_, hmem, List.mem_cons_self⟩)) (hp.guarded _ hmem)

/-- A thread that is started is a loop. -/
theorem eq_run_of_spawned (hd : perform behaviour job w = some d) :
    ∀ t ∈ d.spawned, t = [.run] := by
  intro t ht
  rcases (perform_threadEffect hd).spawned with hnone | ⟨hloop, -⟩
  · exact absurd (hnone ▸ ht) List.not_mem_nil
  · rw [hloop] at ht
    exact List.mem_singleton.mp ht

/-- Every thread is still in order after a step. -/
theorem Orderly.threads (hp : v.Orderly p)
    (hthreads : p.threads = before ++ (job :: rest) :: behind)
    (hd : perform behaviour job p.state = some d) :
    ∀ t ∈ before ++ (d.next ++ rest) :: behind ++ d.spawned,
      v.Guarded p.state t ∧ ∀ j ∈ t, v.Fit p.state j := by
  have heffect := hp.accountEffect hthreads hd
  have hold : ∀ t ∈ before ++ (job :: rest) :: behind,
      v.Guarded p.state t ∧ ∀ j ∈ t, v.Fit p.state j := by
    intro t ht
    rw [← hthreads] at ht
    exact ⟨hp.guarded t ht, fun j hj => hp.fit j (Pool.mem_jobs.mpr ⟨t, ht, hj⟩)⟩
  intro t ht
  rcases List.mem_append.mp ht with ht | ht
  · rcases List.mem_append.mp ht with ht | ht
    · exact hold t (List.mem_append_left _ ht)
    · rcases List.mem_cons.mp ht with rfl | ht
      · refine ⟨heffect.guarded, fun j hj => ?_⟩
        rcases List.mem_append.mp hj with hj | hj
        · exact heffect.fit j hj
        · have hthread := hold _ (List.mem_append_right _ List.mem_cons_self)
          exact hthread.2 j (List.mem_cons_of_mem _ hj)
      · exact hold t (List.mem_append_right _ (List.mem_cons_of_mem _ ht))
  · rw [eq_run_of_spawned hd t ht]
    exact ⟨⟨fun howed => absurd rfl howed, trivial⟩, fun j hj => List.mem_singleton.mp hj ▸ trivial⟩

/-- What is owed by one thread stands between what is owed by those before it and behind it. -/
theorem flatMap_threads {α : Type} (f : Job → List α) (thread : List Job) :
    (before ++ thread :: behind).flatten.flatMap f =
      before.flatten.flatMap f ++ (thread.flatMap f ++ behind.flatten.flatMap f) := by
  rw [List.flatten_append, List.flatten_cons, List.flatMap_append, List.flatMap_append]

/-- As long as the watch stays what it is, a step changes nothing of what was ever due. -/
theorem Orderly.step_account (hp : v.Orderly p)
    (hthreads : p.threads = before ++ (job :: rest) :: behind)
    (hd : perform behaviour job p.state = some d) :
    v.told d.state ++ ((before ++ (d.next ++ rest) :: behind ++ d.spawned).flatten.flatMap
        (v.owed p.state) ++ d.state.ground.service.signals.flatMap (v.owedSignal p.state)) =
      v.account p := by
  have heffect := hp.accountEffect hthreads hd
  have hloop : d.spawned.flatten.flatMap (v.owed p.state) = [] := by
    refine List.flatMap_eq_nil_iff.mpr fun j hj => ?_
    obtain ⟨t, ht, hjt⟩ := List.mem_flatten.mp hj
    rw [eq_run_of_spawned hd t ht] at hjt
    rw [List.mem_singleton.mp hjt]
    rfl
  obtain ⟨hone, hothers⟩ := hp.others hthreads
  unfold account Pool.jobs
  rw [hthreads, List.flatten_append, List.flatMap_append, hloop, List.append_nil, flatMap_threads,
    flatMap_threads]
  by_cases hbound : (job :: rest).countP Job.queueBound = 0
  · -- a thread beside the loop owes nothing, before and after
    obtain ⟨htold, hnext, hqueue⟩ := heffect.idle hbound
    have hmem : job :: rest ∈ p.threads := by
      rw [hthreads]
      exact List.mem_append_right _ List.mem_cons_self
    rw [htold, hnext, hqueue, (hp.guarded _ hmem).owed_eq_nil hbound]
  · obtain ⟨hbefore, hbehind⟩ := hothers (Nat.pos_of_ne_zero hbound)
    rw [hbefore, hbehind, List.nil_append, List.nil_append, List.append_nil, List.append_nil]
    exact heffect.account hone

/-- There is still one loop at most. -/
theorem Orderly.step_single (hp : v.Orderly p)
    (hthreads : p.threads = before ++ (job :: rest) :: behind)
    (hd : perform behaviour job p.state = some d) :
    (before ++ (d.next ++ rest) :: behind ++ d.spawned).flatten.countP Job.queueBound +
      d.state.executor.parked.length ≤ d.state.started.toNat := by
  have hcount := perform_queueBound hd
  have hsingle := hp.single
  unfold Pool.jobs at hsingle
  rw [hthreads] at hsingle
  simp only [List.flatten_append, List.flatten_cons, List.countP_append, List.countP_cons]
    at hsingle ⊢
  omega

end Step

/-- A step of a thread keeps all in order, and nothing is lost or added. -/
theorem Orderly.step {i : Nat} (hp : v.Orderly p) (hstep : p.step (machine behaviour) i = some q)
    (hsteady : v.Steady p.state q.state) : v.Orderly q ∧ v.account q = v.account p := by
  obtain ⟨s, hs⟩ := hp.service
  obtain ⟨job, rest, d, before, behind, hthreads, hd, rfl⟩ := Pool.step_split hstep
  have hjob : job ∈ p.jobs := by
    refine Pool.mem_jobs.mpr ⟨job :: rest, ?_, List.mem_cons_self⟩
    rw [hthreads]
    exact List.mem_append_right _ List.mem_cons_self
  have heffect := hp.accountEffect hthreads hd
  have hsetup := perform_sameSetup hd
  have hall := hp.threads hthreads hd
  have hfit : ∀ j ∈ Pool.jobs ⟨d.state, before ++ (d.next ++ rest) :: behind ++ d.spawned⟩,
      v.Fit p.state j := by
    intro j hj
    obtain ⟨t, ht, hjt⟩ := Pool.mem_jobs.mp hj
    exact (hall t ht).2 j hjt
  -- no batch comes by a step, so all that is queued was known before
  have hknown : ∀ b, .batch b ∈ d.state.ground.service.signals →
      ∀ event ∈ b.events, v.knows p.state b.key event :=
    fun b hb => hp.known b (heffect.known b hb)
  refine ⟨⟨?_, hp.prompt.sameSetup hsetup, hp.step_single hthreads hd, fun j hj => ?_,
    fun t ht => ?_, fun j hj => (hsteady.owed hsetup (hfit j hj)).2,
    fun b hb event hevent => (hsteady b.key event (hknown b hb event hevent)).1,
    perform_gathers hd (hp.fit job hjob) hp.gathers⟩, ?_⟩
  · obtain ⟨s', hground, -⟩ := perform_serviceEffect hd hs
    exact ⟨s', by rw [hground]⟩
  · rcases (Lifecycle.perform_lifecycleEffect hd).earns.parked j hj with hj | ⟨hrun, -, -⟩
    · exact hp.parked j hj
    · exact hrun
  · obtain ⟨hguarded, hfits⟩ := hall t ht
    exact hguarded.congr fun j hj => (hsteady.owed hsetup (hfits j hj)).1
  · -- the account is the one before, by what the job does to it
    rw [account_congr hsteady hsetup hfit hknown]
    exact hp.step_account hthreads hd

variable (v) in
/-- What comes from outside: jobs on threads of their own that owe nothing, and that drive
nothing, save for loops that were parked. -/
structure Joins (p : Running) (more : List Job) (q : Running) : Prop where
  threads : q.threads = p.threads ++ more.map fun j => [j]
  single : more.countP Job.queueBound + q.state.executor.parked.length =
    p.state.executor.parked.length
  parked : ∀ j ∈ q.state.executor.parked, j = .run
  idle : ∀ j ∈ more, v.owed p.state j = [] ∧ v.Fit p.state j
  setup : SameSetup p.state q.state
  started : q.state.started = p.state.started
  gathers : v.Gathers q.state.desk
  told : v.told q.state = v.told p.state

theorem outside_joins {e : Outside} (hp : v.Orderly p) (h : outside e p = some q) :
    ∃ more, v.Joins p more q := by
  have hone : ∀ {j : Job}, j.queueBound = false → List.countP Job.queueBound [j] +
      p.state.executor.parked.length = p.state.executor.parked.length := by
    intro j hj
    rw [List.countP_cons_of_neg (by rw [hj]; simp)]
    exact Nat.zero_add _
  cases e with
  | start | stop =>
    obtain rfl := Option.some.inj h
    exact ⟨[_], rfl, hone rfl, hp.parked, fun j hj => List.mem_singleton.mp hj ▸ ⟨rfl, trivial⟩,
      .refl _, rfl, hp.gathers, rfl⟩
  | unpark =>
    obtain rfl := Option.some.inj h
    refine ⟨p.state.executor.parked, rfl, ?_, fun j hj => absurd hj List.not_mem_nil,
      fun j hj => ?_, ⟨.refl _, rfl, rfl, rfl⟩, rfl, hp.gathers, rfl⟩
    · exact List.countP_eq_length.mpr fun j hj => by rw [hp.parked j hj]; rfl
    · rw [hp.parked j hj]
      exact ⟨rfl, trivial⟩
  | dispatch n =>
    obtain ⟨r, htake, rfl⟩ := Option.map_eq_some_iff.mp h
    obtain ⟨g, x, hg, hx, rfl⟩ := Stopping.takeUp?_eq_some htake
    refine ⟨[_], rfl, hone rfl, hp.parked, fun j hj => ?_, ⟨.refl _, rfl, rfl, rfl⟩, rfl,
      fun g' hg' y hy => ?_, rfl⟩
    · -- what is taken up was gathered, so it is nothing that is followed
      rw [List.mem_singleton.mp hj]
      exact ⟨rfl, hp.gathers g hg x (List.mem_of_getElem? hx)⟩
    · obtain rfl := Option.some.inj hg'
      exact hp.gathers g hg y (List.mem_of_mem_eraseIdx hy)
  | change | report | complain =>
    unfold Notified.outside at h
    simp only [Outside.told, Lifecycle.outside] at h
    split at h
    · exact absurd h (by simp)
    · obtain rfl := Option.some.inj h
      exact ⟨[], (List.append_nil _).symm, Nat.zero_add _, hp.parked, by simp,
        ⟨.refl _, rfl, rfl, rfl⟩, rfl, hp.gathers, rfl⟩

/-- What is owed because of batches is due because of their entries. -/
theorem owed_batches (w : Watch) (batches : List Batch) :
    (batches.map Signal.batch).flatMap (v.owedSignal w) =
      (batches.flatMap Batch.entries).flatMap fun entry => v.dueEvent w entry.1 entry.2 := by
  rw [List.flatMap_map, List.flatMap_assoc]
  refine List.flatMap_congr fun b _ => ?_
  unfold Batch.entries
  rw [List.flatMap_map]
  rfl

variable (v) in
/-- What is due because of what comes from outside: what its reports are translated to. -/
def newsOf (w : Watch) (e : Outside) : List (Callback × EventKind × γ) :=
  match w.ground.service with
  | .notifying s =>
    (signalsOf s (e.diskAfter w.ground) (e.reports w.ground)).flatMap (v.owedSignal w)
  | .memory _ => []

variable (v) in
/-- What is due because of a move. -/
def news : Move Outside → Running → List (Callback × EventKind × γ)
  | .job _, _ => []
  | .outside e, p => v.newsOf p.state e

variable (v) in
/-- Whatever a report is translated to, enough is known of it. -/
def Informed (w : Watch) : Prop :=
  ∀ s, w.ground.service = .notifying s → ∀ disk report, ∀ b ∈ s.registry.translate disk report,
    ∀ event ∈ b.events, v.knows w b.key event

/-- Of all batches in the queue enough is known, also of those that just came. -/
theorem Orderly.supplied_known {e : Outside} {s' : NotifyingService} {complaints : List Signal}
    (hp : v.Orderly p) (hs : p.state.ground.service = .notifying s)
    (hsupplied : Supplied e p.state.ground s s' complaints) (hinformed : v.Informed p.state) :
    ∀ b, .batch b ∈ s'.queue → ∀ event ∈ b.events, v.knows p.state b.key event := by
  intro b hb
  rw [hsupplied.queue] at hb
  rcases List.mem_append.mp hb with hb | hb
  · refine hp.known b ?_
    rw [hs]
    exact hb
  · rcases List.mem_append.mp hb with hb | hb
    · obtain ⟨report, -, hb⟩ := List.mem_flatMap.mp hb
      obtain ⟨b', hb', heq⟩ := List.mem_map.mp hb
      obtain rfl := Signal.batch.inj heq
      exact hinformed s hs _ report b' hb'
    · obtain ⟨e, he⟩ := hsupplied.failures _ hb
      exact absurd he (by simp)

/-- What the queue owes grows by the news alone: because of a complaint nothing is owed. -/
theorem owedSignal_supplied {e : Outside} {s' : NotifyingService} {complaints : List Signal}
    (hs : w.ground.service = .notifying s) (hsupplied : Supplied e w.ground s s' complaints) :
    s'.queue.flatMap (v.owedSignal w) =
      w.ground.service.signals.flatMap (v.owedSignal w) ++ v.newsOf w e := by
  have hnews : v.newsOf w e =
      (signalsOf s (e.diskAfter w.ground) (e.reports w.ground)).flatMap (v.owedSignal w) := by
    unfold newsOf
    rw [hs]
  have hsilent : complaints.flatMap (v.owedSignal w) = [] := by
    refine List.flatMap_eq_nil_iff.mpr fun x hx => ?_
    obtain ⟨e, rfl⟩ := hsupplied.failures x hx
    rfl
  rw [hsupplied.queue, List.flatMap_append, List.flatMap_append, hsilent, List.append_nil, hnews,
    hs]
  rfl

/-- What comes from outside keeps all in order, and adds what it reports to what was ever due. -/
theorem Orderly.outside {e : Outside} (hp : v.Orderly p) (h : Notified.outside e p = some q)
    (hinformed : v.Informed p.state) (hsteady : v.Steady p.state q.state) :
    v.Orderly q ∧ v.account q = v.account p ++ v.newsOf p.state e := by
  obtain ⟨s, hs⟩ := hp.service
  obtain ⟨more, hjoins⟩ := outside_joins hp h
  obtain ⟨s', complaints, hground, hsupplied⟩ := outside_service h hs
  have hservice : q.state.ground.service = .notifying s' := by rw [hground]
  have hsignals : q.state.ground.service.signals = s'.queue := by
    rw [hservice]
    rfl
  -- new threads come behind the old ones, with jobs that owe nothing
  have hjobs : q.jobs = p.jobs ++ more := by
    unfold Pool.jobs
    rw [hjoins.threads, List.flatten_append, ← List.flatMap_def, List.flatMap_singleton']
  have hfit : ∀ j ∈ q.jobs, v.Fit p.state j := by
    intro j hj
    rw [hjobs] at hj
    rcases List.mem_append.mp hj with hj | hj
    · exact hp.fit j hj
    · exact (hjoins.idle j hj).2
  have hknown : ∀ b, .batch b ∈ q.state.ground.service.signals →
      ∀ event ∈ b.events, v.knows p.state b.key event := by
    rw [hsignals]
    exact hp.supplied_known hs hsupplied hinformed
  -- what was owed stays owed, as the setup is kept and nothing known is lost (`hsteady`)
  refine ⟨⟨⟨s', hservice⟩, hp.prompt.sameSetup hjoins.setup, ?_, hjoins.parked, fun t ht => ?_,
    fun j hj => (hsteady.owed hjoins.setup (hfit j hj)).2,
    fun b hb event hevent => (hsteady b.key event (hknown b hb event hevent)).1,
    hjoins.gathers⟩, ?_⟩
  · have hsingle := hp.single
    have hcount := hjoins.single
    rw [hjobs, List.countP_append, hjoins.started]
    omega
  · rw [hjoins.threads] at ht
    rcases List.mem_append.mp ht with ht | ht
    · refine (hp.guarded t ht).congr fun j hj => ?_
      exact (hsteady.owed hjoins.setup (hp.fit j (Pool.mem_jobs.mpr ⟨t, ht, hj⟩))).1
    · obtain ⟨j, hj, rfl⟩ := List.mem_map.mp ht
      obtain ⟨howed, hfits⟩ := hjoins.idle j hj
      refine ⟨fun hne => absurd ?_ hne, trivial⟩
      rw [(hsteady.owed hjoins.setup hfits).1, howed]
  · have hidle : more.flatMap (v.owed p.state) = [] :=
      List.flatMap_eq_nil_iff.mpr fun j hj => (hjoins.idle j hj).1
    rw [account_congr hsteady hjoins.setup hfit hknown, hjoins.told, hjobs, hsignals,
      owedSignal_supplied hs hsupplied, List.flatMap_append, hidle, List.append_nil]
    unfold account
    simp only [List.append_assoc]

/-- A move keeps all in order, and adds what is due because of it to what was ever due. -/
theorem Orderly.move {a : Move Outside} (hp : v.Orderly p)
    (hmove : (setting behaviour).move a p = some q) (hinformed : v.Informed p.state)
    (hsteady : v.Steady p.state q.state) :
    v.Orderly q ∧ v.account q = v.account p ++ v.news a p := by
  cases a with
  | job i =>
    obtain ⟨hq, haccount⟩ := hp.step hmove hsteady
    exact ⟨hq, by rw [haccount]; exact (List.append_nil _).symm⟩
  | outside e => exact hp.outside hmove hinformed hsteady

/-! ### One event -/

/-- A thread that hands an event to the callback of its kind tells it in two steps, none of which
has to wait. -/
theorem Prompt.tells_dispatch (behaviour : Behaviour Wish) (hw : v.Prompt p.state)
    {event : RawEvent}
    (htracks : v.tracks event.kind = true) {path : Path} {i : Nat} {rest : List Job}
    (hi : p.threads[i]? = some (.dispatch event path [] :: rest)) : ∃ n ≤ 2, ∃ q,
      (setting behaviour).run? (List.replicate n (.job i)) p = some q ∧
      v.told q.state = v.told p.state ++ v.due p.state event.kind path := by
  have hdue : v.due p.state event.kind path =
      (p.state.handlers.get event.kind).toList.map fun c => (c, event.kind, v.view path) :=
    if_pos htracks
  rw [hdue]
  have hdispatch : perform behaviour (.dispatch event path []) p.state =
      some (.andThen p.state (p.state.handOverAll event path [])) := rfl
  obtain ⟨p₁, hp₁, hstate₁, hi₁⟩ := Pool.step_of (m := machine behaviour) hi hdispatch
  -- without a callback one step is enough; with one, a second step calls it
  cases hhandler : p.state.handlers.get event.kind with
  | none =>
    refine ⟨1, by decide, p₁, Setting.run?_cons.mpr ⟨p₁, hp₁, rfl⟩, ?_⟩
    rw [hstate₁]
    exact (List.append_nil _).symm
  | some callback =>
    -- a kind that is followed is not gathered
    have hnow : p.state.gathers event.kind = false := by
      refine Bool.eq_false_iff.mpr fun hgathers => ?_
      exact absurd ((hw.gathers hgathers).symm.trans htracks) (by simp)
    generalize hx : Context.observe p.state.ground.disk event.kind path = x
    have hcall : p.state.handOverAll event path [] =
        [.desk (.call callback x .callbackPanicked)] := by
      simp [handOverAll, handOver, hhandler, hnow, hx]
    have hi₂ : p₁.threads[i]? = some (.desk (.call callback x .callbackPanicked) :: rest) := by
      rw [hi₁, hcall]
      rfl
    obtain ⟨d, hd, htold⟩ := tells_call (v := v) behaviour p₁.state callback x .callbackPanicked
    obtain ⟨q, hq, hstate, -⟩ := Pool.step_of (m := machine behaviour) hi₂ hd
    refine ⟨2, by decide, q,
      Setting.run?_cons.mpr ⟨p₁, hp₁, Setting.run?_cons.mpr ⟨q, hq, rfl⟩⟩, ?_⟩
    rw [hstate, htold, hstate₁, ← hx]
    show v.told p.state ++ (if v.tracks event.kind then [_] else []) = _
    rw [if_pos htracks]
    rfl

/-- A thread that handles an event that is followed tells what is due of it in four steps at most,
and none of them has to wait. -/
theorem Prompt.tells_event (behaviour : Behaviour Wish) (hw : v.Prompt p.state)
    {key : Key} {event : RawEvent}
    (htracks : v.tracks event.kind = true) {i : Nat} {rest : List Job}
    (hi : p.threads[i]? = some (.handle key event :: rest)) : ∃ n ≤ 4, ∃ q,
      (setting behaviour).run? (List.replicate n (.job i)) p = some q ∧
      v.told q.state = v.told p.state ++ v.dueEvent p.state key event := by
  have hresolve : p.state.strategy.resolve p.state.handled key event =
      .ofOption (p.state.strategy.target.resolve key event) := by
    unfold Strategy.resolve
    rw [hw.override]
    rfl
  have hhandle : perform behaviour (.handle key event) p.state =
      some (.andThen { p.state with handled := p.state.handled + 1 }
        (afterResolve p.state.handled key event
          (.ofOption (p.state.strategy.target.resolve key event)))) := by
    simp only [perform, hresolve]
  obtain ⟨p₁, hp₁, hstate₁, hi₁⟩ := Pool.step_of (m := machine behaviour) hi hhandle
  have hw₁ : v.Prompt p₁.state := by
    rw [hstate₁]
    exact ⟨hw.override, hw.undelayed, hw.created⟩
  unfold dueEvent
  cases hpath : p.state.strategy.target.resolve key event with
  | none =>
    refine ⟨1, by decide, p₁, Setting.run?_cons.mpr ⟨p₁, hp₁, rfl⟩, ?_⟩
    rw [hstate₁]
    exact (List.append_nil _).symm
  | some path =>
    rw [hpath] at hi₁
    have hdue : (some path).toList.flatMap (v.due p.state event.kind) =
        v.due p₁.state event.kind path := by
      rw [hstate₁]
      exact List.append_nil _
    have htold₁ : v.told p₁.state = v.told p.state := by
      rw [hstate₁]
      rfl
    rw [hdue, ← htold₁]
    by_cases hcreate : event.kind = .create
    · -- only in a tree something is registered first
      obtain ⟨t, ht⟩ := hw₁.created (hcreate ▸ htracks)
      have hpickUp : perform behaviour (.pickUp p.state.handled key event path) p₁.state =
          some (.andThen p₁.state [.dispatch event path []]) := by
        simp only [perform, pickUp, hw₁.override, Override.none, ht]
      have hnext : p₁.threads[i]? = some (.pickUp p.state.handled key event path :: rest) := by
        rw [hi₁]
        simp [Resolution.ofOption, afterResolve, hcreate, Done.andThen]
      obtain ⟨p₂, hp₂, hstate₂, hi₂⟩ := Pool.step_of (m := machine behaviour) hnext hpickUp
      have hsame : p₂.state = p₁.state := hstate₂
      rw [← hsame] at hw₁ ⊢
      obtain ⟨n, hn, q, hq, htold⟩ := hw₁.tells_dispatch behaviour htracks hi₂
      exact ⟨n + 2, by omega, q,
        Setting.run?_cons.mpr ⟨p₁, hp₁, Setting.run?_cons.mpr ⟨p₂, hp₂, hq⟩⟩, htold⟩
    · have hnext : p₁.threads[i]? = some (.dispatch event path [] :: rest) := by
        rw [hi₁]
        simp [Resolution.ofOption, afterResolve, hcreate, Done.andThen]
      obtain ⟨n, hn, q, hq, htold⟩ := hw₁.tells_dispatch behaviour htracks hnext
      exact ⟨n + 1, by omega, q, Setting.run?_cons.mpr ⟨p₁, hp₁, hq⟩, htold⟩

/-! ### Beginning and end -/

/-- A loop that waits at an empty queue has told all that was ever due. -/
theorem Orderly.idle (hp : v.Orderly p) (hwaits : [.receive] ∈ p.threads)
    (hempty : p.state.ground.service.signals = []) : v.account p = v.told p.state := by
  obtain ⟨before, behind, hthreads⟩ := List.append_of_mem hwaits
  obtain ⟨hbefore, hbehind⟩ := (hp.others hthreads).2 Nat.zero_lt_one
  unfold account Pool.jobs
  rw [hthreads, flatMap_threads, hbefore, hbehind, hempty]
  exact List.append_nil _

/-- A watch that was just built has told nothing and owes nothing. -/
theorem orderly_new {strategy : Strategy} {handlers : Handlers} {options : Watch.Options}
    {disk : Disk} (hnew : Watch.new strategy handlers options disk = .ok w)
    (hs : w.ground.service = .notifying s) (hqueue : s.queue = []) (hprompt : v.Prompt w) :
    v.Orderly (Running.ofWatch w) ∧ v.account (Running.ofWatch w) = [] := by
  have hfresh := fresh_of_new hnew
  have hsignals : w.ground.service.signals = [] := by
    rw [hs]
    exact hqueue
  have htold : v.told w = [] := by
    unfold Watch.new at hnew
    split at hnew
    · exact absurd hnew (by simp)
    · obtain rfl := Except.ok.inj hnew
      rfl
  refine ⟨⟨⟨s, hs⟩, hprompt, ?_, ?_, fun t ht => absurd ht List.not_mem_nil,
    fun j hj => absurd hj List.not_mem_nil, fun b hb => ?_, fun g hg x hx => ?_⟩, ?_⟩
  · show 0 + w.executor.parked.length ≤ _
    rw [hfresh.parked_eq]
    exact Nat.zero_le _
  · show ∀ j ∈ w.executor.parked, j = .run
    rw [hfresh.parked_eq]
    exact fun j hj => absurd hj List.not_mem_nil
  · have hmem : Signal.batch b ∈ w.ground.service.signals := hb
    rw [hsignals] at hmem
    exact absurd hmem List.not_mem_nil
  · obtain rfl := eq_of_debouncerFor (hfresh.debouncer_eq ▸ hg)
    exact absurd hx List.not_mem_nil
  · show v.told w ++ ([] ++ w.ground.service.signals.flatMap (v.owedSignal w)) = []
    rw [htold, hsignals]
    rfl

/-! ### All runs -/

/-- A property of states that every move of some sort keeps, and with it what the events that wait
stand for; while it holds, enough is known of every report, and this is due because of a move. -/
structure Sustained (v : Scope γ) (behaviour : Behaviour Wish) (allowed : Move Outside → Prop)
    (I : Running → Prop) (due : Move Outside → Running → List (Callback × EventKind × γ)) :
    Prop where
  move : ∀ p a q, allowed a → I p → (setting behaviour).move a p = some q →
    I q ∧ v.Steady p.state q.state
  informed : ∀ p, I p → v.Informed p.state
  news : ∀ p a, allowed a → I p → v.news a p = due a p

section Sustained

variable {allowed : Move Outside → Prop} {I : Running → Prop}
  {due : Move Outside → Running → List (Callback × EventKind × γ)} {moves : List (Move Outside)}

/-- In every run all stays in order, and what was ever due is what its moves made due. -/
theorem Sustained.run (h : v.Sustained behaviour allowed I due) (hmoves : ∀ a ∈ moves, allowed a)
    (hI : I p) (hp : v.Orderly p) (hrun : (setting behaviour).run? moves p = some q) :
    I q ∧ v.Orderly q ∧ v.account q = v.account p ++ (setting behaviour).trail due moves p := by
  have hstart : I p ∧ v.Orderly p ∧ v.account p = v.account p ++ [] :=
    ⟨hI, hp, (List.append_nil _).symm⟩
  rw [← List.nil_append ((setting behaviour).trail due moves p)]
  refine Setting.preserved_trail
    (I := fun made q => I q ∧ v.Orderly q ∧ v.account q = v.account p ++ made) ?_ hstart hrun
  rintro made p' a ha q' ⟨hI', hp', haccount⟩ hmove
  obtain ⟨hIq, hsteady⟩ := h.move p' a q' (hmoves a ha) hI' hmove
  obtain ⟨hq, hgrown⟩ := hp'.move hmove (h.informed p' hI') hsteady
  refine ⟨hIq, hq, ?_⟩
  rw [hgrown, haccount, h.news p' a (hmoves a ha) hI', List.append_assoc]

/-- From the moment a watch is built, callbacks are told what moves make due, in order: all but
the end of it, and all of it when the loop waits at an empty queue. -/
theorem Sustained.told (h : v.Sustained behaviour allowed I due)
    (hmoves : ∀ a ∈ moves, allowed a) {strategy : Strategy}
    {handlers : Handlers} {options : Watch.Options} {disk : Disk}
    (hnew : Watch.new strategy handlers options disk = .ok w)
    (hs : w.ground.service = .notifying s) (hqueue : s.queue = []) (hprompt : v.Prompt w)
    (hI : I (Running.ofWatch w))
    (hrun : (setting behaviour).run? moves (Running.ofWatch w) = some q) :
    I q ∧ v.Orderly q ∧ ∃ rest,
      v.told q.state ++ rest = (setting behaviour).trail due moves (Running.ofWatch w) ∧
      ([.receive] ∈ q.threads → q.state.ground.service.signals = [] → rest = []) := by
  obtain ⟨hbegin, hnothing⟩ := orderly_new (v := v) hnew hs hqueue hprompt
  obtain ⟨hIq, hq, haccount⟩ := h.run hmoves hI hbegin hrun
  rw [hnothing, List.nil_append] at haccount
  refine ⟨hIq, hq, _, haccount, fun hwaits hempty => ?_⟩
  have hidle := hq.idle hwaits hempty
  exact List.append_cancel_left (hidle.trans (List.append_nil _).symm)

end Sustained

end Scope

end ChangeWatch
