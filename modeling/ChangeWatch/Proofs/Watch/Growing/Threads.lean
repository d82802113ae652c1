import ChangeWatch.Proofs.Watch.Growing.Jobs
import ChangeWatch.Proofs.Work.Setting
import ChangeWatch.Watch.Running

/-!
# The threads of a watch that is started while its tree grows

A watch is started on one thread, which walks the tree and then gives the loop to
the executor; from then on the loop runs on a second thread.  Meanwhile anything
may be added to the disk, and the service queues an event for it if its directory
is registered (`setting`).

At every step what is to be done is carried on, from the start (`Starting`,
`start_step`) to the loop (`Looping`, `loop_step`), unless there is no loop any more
to do it: a callback stopped the watch, or the executor did not run the loop
(`Ended`).
-/

namespace ChangeWatch.Growing

open Watch

/-! ### Additions -/

/-- An entry that is added to a directory. -/
structure Addition where
  dir : Location
  name : Bytes
  entry : Entry
  deriving DecidableEq, Repr

namespace Addition

/-- Where it is added. -/
def place (a : Addition) : Location :=
  a.dir ++ [a.name]

/-- It is a file or a directory, no link. -/
def isPlain (a : Addition) : Bool :=
  match a.entry with
  | .link _ => false
  | _ => true

/-- It may be added: there is the directory, and the name is proper and free. -/
def fits (a : Addition) (disk : Disk) : Bool :=
  IsName a.name && a.isPlain && disk.entry? a.dir = some .dir && disk.entry? a.place = none

/-- The service hears of it if its directory is registered. -/
def heard (a : Addition) : Service → Service
  | .memory s =>
    match s.keyOf? a.dir.toPath with
    | some key => .memory (s.put (.batch ⟨key, [⟨.create, some ⟨a.name⟩⟩]⟩))
    | none => .memory s
  | .notifying s => .notifying s

/-- The ground after it was added. -/
def apply (a : Addition) (g : Ground) : Ground :=
  ⟨a.heard g.service, g.disk.put a.place a.entry⟩

end Addition

/-- An entry is added, if it may be. -/
def outside (a : Addition) (p : Running) : Option Running :=
  if a.fits p.state.ground.disk then some (p.modify fun w => w.withGround (a.apply w.ground))
  else none

/-- A watch on whose start and loop threads work while its tree grows. -/
def setting (behaviour : Behaviour Wish) : Setting Watch Job Addition :=
  ⟨machine behaviour, outside⟩

/-! ### Stages -/

/-- A job by which the watch is being started. -/
def launches : Job → Bool
  | .startUnlessStopped _ | .registerRoot _ | .walk (.start _) .. | .submit _ => true
  | _ => false

/-- A job by which a batch is handled. -/
def within (job : Job) : Bool :=
  match job with
  | .handle .. | .reset _ => true
  | _ => job.inner

/-- What the thread of the loop has still to do. -/
inductive LoopThread : List Job → Prop
  | fresh : LoopThread [.run]
  | asking : LoopThread [.take]
  | waiting : LoopThread [.receive]
  | busy {jobs : List Job} : (∀ j ∈ jobs, within j = true) → LoopThread (jobs ++ [.recheck])

/-- The watch is being started, on the only thread there is. -/
inductive Starting (root : Location) (w : Watch) : List (List Job) → Prop
  | opening : w.started = false → Starting root w [[.start .owner]]
  | launching {job : Job} : w.started = true → launches job = true → Fit root w.ground job →
      Starting root w [[job]]

/-- The start is answered on one thread, and the loop runs on the other. -/
structure Looping (root : Location) (w : Watch) (threads : List (List Job)) : Prop where
  started : w.started = true
  threads : ∃ owner loop, threads = [owner, loop] ∧
    (∀ j ∈ owner, ∃ caller error, j = .started caller error) ∧ LoopThread loop ∧
      ∀ j ∈ loop, Fit root w.ground j

/-- There is no loop any more, or it comes to its end without taking anything. -/
structure Ended (p : Running) : Prop where
  started : p.state.started = true
  jobs : ∀ j ∈ p.jobs, within j = true ∨ (j = .recheck ∧ p.state.stopped = true)

variable {root : Location} {maxDepth : Nat} {callback : Callback} {w w' : Watch} {job : Job}
  {d : Done Watch Job} {behaviour : Behaviour Wish} {p q : Running} {i : Nat}

/-- A job within a batch is followed by such jobs alone, and starts no thread. -/
theorem perform_within (hjob : within job = true) (hstarted : w.started = true)
    (h : perform behaviour job w = some d) : (∀ j ∈ d.next, within j = true) ∧ d.spawned = [] := by
  have hinner : ∀ {j : Job}, j.inner = true → within j = true := by
    intro j hj
    cases j <;> first | rfl | exact hj
  cases perform_outcome h with
  | handled key event =>
    refine ⟨fun j hj => ?_, rfl⟩
    cases follows_afterResolve key event _ j hj <;> rfl
  | reset => exact ⟨fun _ hj => absurd hj List.not_mem_nil, rfl⟩
  | _ =>
    obtain ⟨hnext, hspawned⟩ := perform_inner h hjob hstarted
    exact ⟨fun j hj => hinner (hnext j hj), hspawned⟩

/-- What has ended stays so. -/
theorem ended_step (hp : Ended p) (h : p.step (machine behaviour) i = some q) : Ended q := by
  obtain ⟨job, d, hperform, hjobs⟩ := Pool.jobs_of_step h
  obtain ⟨hstarted, hstopped⟩ := perform_flags hperform
  have hnext : (∀ j ∈ d.next, within j = true) ∧ d.spawned = [] := by
    rcases hp.jobs job hjobs.before with hwithin | ⟨rfl, hstop⟩
    · exact perform_within hwithin hp.started hperform
    · have hquit : perform behaviour .recheck p.state = some (.andThen p.state []) := by
        simp only [perform, hstop, if_true]
      obtain rfl := Option.some.inj (hquit.symm.trans hperform)
      exact ⟨fun _ hj => absurd hj List.not_mem_nil, rfl⟩
  refine ⟨hjobs.state ▸ hstarted hp.started, ?_⟩
  intro j hj
  rcases hjobs.known j hj with hj | hj | ⟨t, ht, -⟩
  · exact Or.inl (hnext.1 j hj)
  · rcases hp.jobs j hj with hwithin | ⟨heq, hstop⟩
    · exact Or.inl hwithin
    · exact Or.inr ⟨heq, hjobs.state ▸ hstopped hstop⟩
  · rw [hnext.2] at ht
    exact absurd ht List.not_mem_nil

/-! ### Starting -/

/-- A step of a thread carries on, and this is what it comes to. -/
def GrowthStep (root : Location) (maxDepth : Nat) (callback : Callback) (p q : Running)
    (job : Job) :
    Prop :=
  ∃ d, Pool.JobStep p q job d ∧ GrowthEffect root maxDepth callback p.state job d

/-- The start is claimed. -/
theorem growth_start (hw : Watching root maxDepth callback w) :
    GrowthEffect root maxDepth callback w (.start .owner)
      (.andThen { w with started := true } [.startUnlessStopped .owner]) := by
  refine ⟨⟨hw.tree, hw.override, hw.handler, hw.running, hw.batches, hw.queue⟩, .refl _, rfl, rfl,
    fun _ h => h, fun j hj => Or.inl hj, ?_, ?_, fun _ _ _ _ hp => absurd hp id,
    fun _ _ _ _ hk => Or.inl hk⟩
  · intro j hj
    rw [List.mem_singleton.mp hj]
    trivial
  · exact fun dir _ hh => Or.inr ⟨_, List.mem_singleton_self _, hh.2⟩

/-- Giving the loop to the executor concerns the executor alone. -/
theorem growth_submit (hw : Watching root maxDepth callback w) (hstarted : w.started = true)
    (caller : Caller) (executor : Executor Job) (spawned : List (List Job)) :
    GrowthEffect root maxDepth callback w (.submit caller)
      ⟨{ w with executor }, [.started caller none], spawned⟩ := by
  have hbeside : Beside w { w with executor } := ⟨rfl, rfl, rfl, rfl, rfl, fun _ h => h⟩
  refine ⟨hbeside.watching hw, .refl _, rfl, hstarted, fun _ h => h, fun j hj => Or.inl hj, ?_,
    fun _ _ hh => absurd hh id, fun _ _ _ _ hp => absurd hp id, fun _ _ _ _ hk => Or.inl hk⟩
  intro j hj
  rw [List.mem_singleton.mp hj]
  trivial

/-- A job of the start leads to another such job, up to the last. -/
theorem perform_launches (hw : Watching root maxDepth callback w) (hjob : launches job = true)
    (hfit : Fit root w.ground job) (hsubmit : ∀ caller, job ≠ .submit caller)
    (h : perform behaviour job w = some d) :
    ∃ w' j, d = .andThen w' [j] ∧ launches j = true ∧
      w'.desk.journal.notes = w.desk.journal.notes := by
  obtain ⟨t, htarget, -⟩ := hw.tree
  cases perform_outcome h with
  | inTime | walkBegun => exact ⟨w, _, rfl, rfl, rfl⟩
  | late _ hstopped => exact absurd (hw.running.symm.trans hstopped) (by simp)
  | fileRegistered _ _ hfile | fileRefused _ _ hfile =>
    exact absurd (htarget.symm.trans hfile) (by simp)
  | ran caller | parked caller | refused caller => exact absurd rfl (hsubmit caller)
  | walked purpose =>
    cases purpose with
    | pickup event path => exact absurd hjob (by simp [launches])
    | start caller => exact ⟨_, _, rfl, rfl, rfl⟩
  | walkBroken _ errand _ _ t k htarget hadvance hbroken =>
    -- the service refuses nothing
    have hwalked :=
      walked_of_advance hw (hfit.aimed errand List.mem_cons_self) htarget hadvance
    exact absurd (hwalked.failure.symm.trans hbroken) (by simp)
  | walkEnded purpose =>
    cases purpose with
    | pickup event path => exact absurd hjob (by simp [launches])
    | start caller => exact ⟨_, _, rfl, rfl, rfl⟩
  | _ => exact absurd hjob (by simp [launches])

/-- The loop is run on a thread of its own, or not at all. -/
theorem submit_cases (w : Watch) (caller : Caller) :
    ∃ executor, w.submit caller = ⟨{ w with executor }, [.started caller none], [[.run]]⟩ ∨
      ∃ next, w.submit caller = .andThen { w with executor } next ∧
        ∀ j ∈ next, within j = true := by
  unfold submit
  split
  · next executor _ => exact ⟨executor, Or.inl rfl⟩
  · next executor _ => exact ⟨executor, Or.inr ⟨_, rfl, by simp [within, Job.inner]⟩⟩
  · next executor _ => exact ⟨executor, Or.inr ⟨_, rfl, by simp [startFailed, within, Job.inner]⟩⟩

/-- A start is carried on until the loop runs, if the executor runs it. -/
theorem start_step (hw : Watching root maxDepth callback p.state)
    (hp : Starting root p.state p.threads)
    (hsilent : .started .owner none ∉ p.state.desk.journal.notes)
    (h : p.step (machine behaviour) i = some q) :
    Ended q ∨ ∃ job, GrowthStep root maxDepth callback p q job ∧
      ((Starting root q.state q.threads ∧ .started .owner none ∉ q.state.desk.journal.notes) ∨
        Looping root q.state q.threads) := by
  obtain ⟨w, threads⟩ := p
  obtain ⟨job, rest, d, hi, hd, rfl⟩ := Pool.step_eq_some h
  have hperform : perform behaviour job w = some d := hd
  have hjobs := Pool.jobs_of_set (d := d) (s := w) hi
  have honly : ∀ {first : Job}, threads = [[first]] → i = 0 ∧ job = first ∧ rest = [] := by
    rintro first rfl
    cases i with
    | zero =>
      obtain ⟨rfl, rfl⟩ := List.cons.inj (Option.some.inj hi)
      exact ⟨rfl, rfl, rfl⟩
    | succ i => exact absurd hi (by simp)
  -- the thread of the start has one job at a time
  cases hp with
  | opening hnot =>
    obtain ⟨rfl, rfl, rfl⟩ := honly rfl
    have hnot : w.started = false := hnot
    simp only [perform, hnot, Bool.false_eq_true, if_false] at hperform
    obtain rfl := Option.some.inj hperform
    have hstart : Starting root { w with started := true } [[.startUnlessStopped .owner]] :=
      .launching rfl rfl trivial
    exact Or.inr ⟨_, ⟨_, hjobs, growth_start hw⟩, Or.inl ⟨hstart, hsilent⟩⟩
  | @launching first hstarted hlaunches hfit =>
    obtain ⟨rfl, rfl, rfl⟩ := honly rfl
    have hstarted : w.started = true := hstarted
    have hstop : job ≠ .stop := by
      rintro rfl
      exact absurd hlaunches (by simp [launches])
    by_cases hsubmit : ∃ caller, job = .submit caller
    · obtain ⟨caller, rfl⟩ := hsubmit
      obtain rfl := Option.some.inj hperform
      obtain ⟨executor, hdone | ⟨next, hdone, hnext⟩⟩ := submit_cases w caller
      · rw [hdone] at hjobs ⊢
        have hloop : Looping root { w with executor } [[.started caller none], [.run]] := by
          refine ⟨hstarted, _, _, rfl, ?_, .fresh, ?_⟩
          · intro j hj
            exact ⟨caller, none, List.mem_singleton.mp hj⟩
          · intro j hj
            rw [List.mem_singleton.mp hj]
            trivial
        exact Or.inr ⟨_, ⟨_, hjobs, growth_submit hw hstarted caller executor _⟩, Or.inr hloop⟩
      · -- the executor does not run the loop
        rw [hdone]
        refine Or.inl ⟨hstarted, ?_⟩
        intro j hj
        have hmem : j ∈ ([next ++ []] ++ ([] : List (List Job))).flatten := hj
        rw [List.append_nil, List.append_nil, List.flatten_singleton] at hmem
        exact Or.inl (hnext j hmem)
    · have hsubmit : ∀ caller, job ≠ .submit caller := fun caller heq => hsubmit ⟨caller, heq⟩
      have heffect := perform_growthEffect hw hstarted hfit hstop hsubmit hperform
      obtain ⟨w', j, rfl, hj, hnotes⟩ := perform_launches hw hlaunches hfit hsubmit hperform
      have hstart : Starting root w' [[j]] :=
        .launching heffect.started hj (heffect.fit j (List.mem_singleton_self _))
      have hsilent' : .started .owner none ∉ w'.desk.journal.notes := by
        rw [hnotes]
        exact hsilent
      exact Or.inr ⟨_, ⟨_, hjobs, heffect⟩, Or.inl ⟨hstart, hsilent'⟩⟩

/-! ### Looping -/

theorem launches_of_within (h : within job = true) : launches job = false := by
  cases job with
  | walk purpose agenda registered =>
    cases purpose with
    | start caller => exact absurd h (by simp [within, Job.inner])
    | pickup event path => rfl
  | _ => first | rfl | exact absurd h (by simp [within, Job.inner])

/-- What follows a job of the loop is again what a loop has to do. -/
theorem looping_next {owner rest : List Job} (heffect : GrowthEffect root maxDepth callback w job d)
    (hspawned : d.spawned = [])
    (howner : ∀ j ∈ owner, ∃ caller error, j = .started caller error)
    (hfit : ∀ j ∈ rest, Fit root w.ground j) (hloop : LoopThread (d.next ++ rest)) :
    Looping root d.state ([owner, job :: rest].set 1 (d.next ++ rest) ++ d.spawned) := by
  rw [hspawned]
  refine ⟨heffect.started, owner, d.next ++ rest, rfl, howner, hloop, ?_⟩
  intro j hj
  rcases List.mem_append.mp hj with hj | hj
  · exact heffect.fit j hj
  · exact heffect.onward.fit (hfit j hj)

/-- A job of a batch is carried on, unless it stops the watch. -/
theorem batch_step {owner jobs : List Job} (hw : Watching root maxDepth callback w)
    (hstarted : w.started = true) (howner : ∀ j ∈ owner, ∃ caller error, j = .started caller error)
    (hwithin : ∀ j ∈ job :: jobs, within j = true)
    (hfit : ∀ j ∈ job :: (jobs ++ [.recheck]), Fit root w.ground j)
    (hperform : perform behaviour job w = some d) :
    Ended ⟨d.state, [owner, job :: (jobs ++ [.recheck])].set 1 (d.next ++ (jobs ++ [.recheck])) ++
        d.spawned⟩ ∨
      (GrowthEffect root maxDepth callback w job d ∧
        Looping root d.state ([owner, job :: (jobs ++ [.recheck])].set 1
          (d.next ++ (jobs ++ [.recheck])) ++ d.spawned)) := by
  have hjob : within job = true := hwithin job List.mem_cons_self
  obtain ⟨hnext, hspawned⟩ := perform_within hjob hstarted hperform
  have hall : ∀ j ∈ d.next ++ jobs, within j = true := by
    intro j hj
    rcases List.mem_append.mp hj with hj | hj
    · exact hnext j hj
    · exact hwithin j (List.mem_cons_of_mem _ hj)
  by_cases hstop : job = .stop
  · -- what is left of the batch is handled, but nothing more is taken
    left
    subst hstop
    simp only [perform, hw.running, Bool.false_eq_true, if_false] at hperform
    obtain rfl := Option.some.inj hperform
    refine ⟨hstarted, ?_⟩
    intro j hj
    obtain ⟨t, ht, hjt⟩ := Pool.mem_jobs.mp hj
    rcases List.mem_append.mp ht with ht | ht
    · rcases List.mem_cons.mp ht with rfl | ht
      · obtain ⟨caller, error, rfl⟩ := howner j hjt
        exact Or.inl rfl
      · rw [List.mem_singleton.mp ht] at hjt
        rw [← List.append_assoc] at hjt
        rcases List.mem_append.mp hjt with hjt | hjt
        · exact Or.inl (hall j hjt)
        · exact Or.inr ⟨List.mem_singleton.mp hjt, rfl⟩
    · exact absurd ht List.not_mem_nil
  · right
    have hsubmit : ∀ caller, job ≠ .submit caller := by
      rintro caller rfl
      exact absurd hjob (by simp [within, Job.inner])
    have heffect :=
      perform_growthEffect hw hstarted (hfit job List.mem_cons_self) hstop hsubmit hperform
    refine ⟨heffect, looping_next heffect hspawned howner
      (fun j hj => hfit j (List.mem_cons_of_mem _ hj)) ?_⟩
    rw [← List.append_assoc]
    exact .busy hall

/-- The loop looks at the flag, which is not set, and goes on to take. -/
theorem growth_check (hw : Watching root maxDepth callback w) (hstarted : w.started = true)
    (hjob : job = .run ∨ job = .recheck) (h : perform behaviour job w = some d) :
    GrowthEffect root maxDepth callback w job d ∧ d.next = [.take] ∧ d.spawned = [] := by
  have hfit : Fit root w.ground job := by rcases hjob with rfl | rfl <;> trivial
  refine ⟨perform_growthEffect hw hstarted hfit (by rcases hjob with rfl | rfl <;> simp)
    (by rcases hjob with rfl | rfl <;> simp) h, ?_⟩
  rcases hjob with rfl | rfl <;>
  · simp only [perform, hw.running, Bool.false_eq_true, if_false] at h
    obtain rfl := Option.some.inj h
    exact ⟨rfl, rfl⟩

/-- A batch that was taken is what a loop is busy with. -/
theorem loopThread_afterTaken (b : Batch) : LoopThread (afterTaken (.batch b)) := by
  have hbatch : LoopThread ((b.events.map (.handle b.key) ++ [.reset b.key]) ++ [.recheck]) := by
    refine .busy fun j hj => ?_
    rcases List.mem_append.mp hj with hj | hj
    · obtain ⟨e, -, rfl⟩ := List.mem_map.mp hj
      rfl
    · rw [List.mem_singleton.mp hj]
      rfl
  rwa [List.append_assoc] at hbatch

/-- The thread of the loop takes a step. -/
theorem loopThread_step {owner rest : List Job} (hw : Watching root maxDepth callback w)
    (hstarted : w.started = true) (howner : ∀ j ∈ owner, ∃ caller error, j = .started caller error)
    (hloop : LoopThread (job :: rest)) (hfit : ∀ j ∈ job :: rest, Fit root w.ground j)
    (hperform : perform behaviour job w = some d) :
    Ended ⟨d.state, [owner, job :: rest].set 1 (d.next ++ rest) ++ d.spawned⟩ ∨
      (GrowthEffect root maxDepth callback w job d ∧ launches job = false ∧
        Looping root d.state ([owner, job :: rest].set 1 (d.next ++ rest) ++ d.spawned)) := by
  have hrest : ∀ j ∈ rest, Fit root w.ground j := fun j hj => hfit j (List.mem_cons_of_mem _ hj)
  generalize hthread : job :: rest = loop at hloop
  cases hloop with
  | fresh =>
    obtain ⟨rfl, rfl⟩ := List.cons.inj hthread
    obtain ⟨heffect, hnext, hspawned⟩ := growth_check hw hstarted (Or.inl rfl) hperform
    refine Or.inr ⟨heffect, rfl, looping_next heffect hspawned howner hrest ?_⟩
    rw [hnext]
    exact .asking
  | asking =>
    obtain ⟨rfl, rfl⟩ := List.cons.inj hthread
    obtain ⟨heffect, hnext, hspawned⟩ := growth_take hw hstarted hperform
    refine Or.inr ⟨heffect, rfl, looping_next heffect hspawned howner hrest ?_⟩
    rw [hnext]
    exact .waiting
  | waiting =>
    obtain ⟨rfl, rfl⟩ := List.cons.inj hthread
    obtain ⟨heffect, ⟨b, hnext⟩, hspawned⟩ := growth_receive hw hstarted hperform
    refine Or.inr ⟨heffect, rfl, looping_next heffect hspawned howner hrest ?_⟩
    rw [hnext, List.append_nil]
    exact loopThread_afterTaken b
  | @busy jobs hwithin =>
    cases jobs with
    | nil =>
      -- the batch is done
      obtain ⟨rfl, rfl⟩ := List.cons.inj hthread
      obtain ⟨heffect, hnext, hspawned⟩ := growth_check hw hstarted (Or.inr rfl) hperform
      refine Or.inr ⟨heffect, rfl, looping_next heffect hspawned howner hrest ?_⟩
      rw [hnext]
      exact .asking
    | cons first jobs =>
      obtain ⟨rfl, rfl⟩ := List.cons.inj hthread
      exact (batch_step hw hstarted howner hwithin hfit hperform).imp_right
        fun ⟨heffect, hlooping⟩ =>
          ⟨heffect, launches_of_within (hwithin _ List.mem_cons_self), hlooping⟩

/-- Every step of a watch whose loop runs is carried on, unless a callback stops it. -/
theorem loop_step (hw : Watching root maxDepth callback p.state)
    (hp : Looping root p.state p.threads) (h : p.step (machine behaviour) i = some q) :
    Ended q ∨ ∃ job, GrowthStep root maxDepth callback p q job ∧ launches job = false ∧
      Looping root q.state q.threads := by
  obtain ⟨w, threads⟩ := p
  obtain ⟨job, rest, d, hi, hd, rfl⟩ := Pool.step_eq_some h
  have hperform : perform behaviour job w = some d := hd
  have hjobs := Pool.jobs_of_set (d := d) (s := w) hi
  obtain ⟨hstarted, owner, loop, hthreads, howner, hloop, hfit⟩ := hp
  have hstarted : w.started = true := hstarted
  obtain rfl : threads = [owner, loop] := hthreads
  match i, hi, hjobs with
  | 0, hi, hjobs =>
    -- the owner of the watch is given the answer to the start
    obtain rfl : owner = job :: rest := Option.some.inj hi
    obtain ⟨caller, error, rfl⟩ := howner job List.mem_cons_self
    have hanswer : Fit root w.ground (.started caller error) := trivial
    have heffect := perform_growthEffect hw hstarted hanswer Job.noConfusion
      (fun _ => Job.noConfusion) hperform
    obtain rfl := Option.some.inj hperform
    refine Or.inr ⟨_, ⟨_, hjobs, heffect⟩, rfl, hstarted, rest, loop, rfl, ?_, hloop, ?_⟩
    · exact fun j hj => howner j (List.mem_cons_of_mem _ hj)
    · exact fun j hj => heffect.onward.fit (hfit j hj)
  | 1, hi, hjobs =>
    -- the loop moves
    obtain rfl : loop = job :: rest := Option.some.inj hi
    exact (loopThread_step hw hstarted howner hloop hfit hperform).imp_right
      fun ⟨heffect, hlaunches, hlooping⟩ => ⟨_, ⟨_, hjobs, heffect⟩, hlaunches, hlooping⟩
  | i + 2, hi, _ => exact absurd hi (by simp)

end ChangeWatch.Growing
