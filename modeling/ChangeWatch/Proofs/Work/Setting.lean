import ChangeWatch.Work.Pool

/-!
# Runs of a pool, move by move

A `Setting` is a machine together with what may be done to its pool from
outside.  A run is a list of `Move`s, each either the next job of a thread or
something from outside, in any order whatever; `Setting.run?` is the pool after
them, and `none` if one of them cannot be made.  To say something of all
interleavings is to say it of all runs.

What a step does to the threads is stated once, by position
(`Pool.step_eq_some`), by membership (`Pool.jobs_of_step`) and by number
(`Pool.countP_of_set`): the job is gone, what follows it stands in its place, and
everything else stays.  What every job preserves holds after a call
(`Pool.call_preserved`), and what every move preserves after every run
(`Setting.preserved`).  `Setting.trail` keeps what is
told of the moves of a run, and `Setting.log` what is to be noted of the jobs that it does.
-/

namespace ChangeWatch

variable {σ ι ε : Type}

/-! ### One step -/

namespace Pool

/-- All jobs that are still to be done. -/
def jobs (p : Pool σ ι) : List ι :=
  p.threads.flatten

theorem mem_jobs {p : Pool σ ι} {job : ι} : job ∈ p.jobs ↔ ∃ t ∈ p.threads, job ∈ t :=
  List.mem_flatten

theorem jobs_spawn (p : Pool σ ι) (jobs : List ι) : (p.spawn jobs).jobs = p.jobs ++ jobs := by
  show (p.threads ++ [jobs]).flatten = p.threads.flatten ++ jobs
  rw [List.flatten_append, List.flatten_singleton]

theorem mem_jobs_spawn {p : Pool σ ι} {jobs : List ι} {job : ι} :
    job ∈ (p.spawn jobs).jobs ↔ job ∈ p.jobs ∨ job ∈ jobs := by
  rw [jobs_spawn, List.mem_append]

/-- A thread that is started leaves all others where they are. -/
theorem getElem?_spawn {p : Pool σ ι} {jobs t : List ι} {i : Nat} (h : p.threads[i]? = some t) :
    (p.spawn jobs).threads[i]? = some t := by
  obtain ⟨hlt, -⟩ := List.getElem?_eq_some_iff.mp h
  exact (List.getElem?_append_left hlt).trans h

/-- A thread was there before, or is the one that is started. -/
theorem of_getElem?_spawn {p : Pool σ ι} {jobs t : List ι} {i : Nat}
    (h : (p.spawn jobs).threads[i]? = some t) : p.threads[i]? = some t ∨ t = jobs := by
  have hget : (p.threads ++ [jobs])[i]? = some t := h
  by_cases hold : i < p.threads.length
  · exact Or.inl ((List.getElem?_append_left hold).symm.trans hget)
  · rw [List.getElem?_append_right (Nat.not_lt.mp hold)] at hget
    exact Or.inr (List.mem_singleton.mp (List.mem_of_getElem? hget))

/-- What it means that a thread can make a step. -/
theorem step_eq_some {m : Machine σ ι} {i : Nat} {p q : Pool σ ι} (h : p.step m i = some q) :
    ∃ job rest d, p.threads[i]? = some (job :: rest) ∧ m.perform job p.state = some d ∧
      q = ⟨d.state, p.threads.set i (d.next ++ rest) ++ d.spawned⟩ := by
  unfold step at h
  split at h
  · next job rest hi =>
    obtain ⟨d, hd, rfl⟩ := Option.map_eq_some_iff.mp h
    exact ⟨job, rest, d, hi, hd, rfl⟩
  · exact absurd h (by simp)

/-- A step is made by one thread in the middle of the others. -/
theorem step_split {m : Machine σ ι} {i : Nat} {p q : Pool σ ι} (h : p.step m i = some q) :
    ∃ job rest d before behind, p.threads = before ++ (job :: rest) :: behind ∧
      m.perform job p.state = some d ∧
      q = ⟨d.state, before ++ (d.next ++ rest) :: behind ++ d.spawned⟩ := by
  obtain ⟨job, rest, d, hi, hd, rfl⟩ := step_eq_some h
  obtain ⟨hlt, hget⟩ := List.getElem?_eq_some_iff.mp hi
  obtain ⟨before, behind, hthreads, -, hset⟩ :=
    @List.exists_of_set _ i (d.next ++ rest) p.threads hlt
  rw [hget] at hthreads
  exact ⟨job, rest, d, before, behind, hthreads, hd, by rw [hset]⟩

/-- The thread that makes a step goes on with what follows its job. -/
theorem getElem?_set_append {threads spawned : List (List ι)} {i : Nat} {t t' : List ι}
    (h : threads[i]? = some t) : (threads.set i t' ++ spawned)[i]? = some t' := by
  obtain ⟨hlt, -⟩ := List.getElem?_eq_some_iff.mp h
  rw [List.getElem?_append_left (by rwa [List.length_set]), List.getElem?_set_self hlt]

/-- All other threads stay where they are. -/
theorem getElem?_set_append_ne {threads spawned : List (List ι)} {i j : Nat} {t t' : List ι}
    (h : threads[j]? = some t) (hne : i ≠ j) : (threads.set i t' ++ spawned)[j]? = some t := by
  obtain ⟨hlt, -⟩ := List.getElem?_eq_some_iff.mp h
  rw [List.getElem?_append_left (by rwa [List.length_set]), List.getElem?_set_ne hne, h]

/-- A thread that can make a step goes on with what follows its job. -/
theorem step_of {m : Machine σ ι} {p : Pool σ ι} {i : Nat} {job : ι} {rest : List ι} {d : Done σ ι}
    (hi : p.threads[i]? = some (job :: rest)) (hd : m.perform job p.state = some d) :
    ∃ q, p.step m i = some q ∧ q.state = d.state ∧ q.threads[i]? = some (d.next ++ rest) := by
  refine ⟨⟨d.state, p.threads.set i (d.next ++ rest) ++ d.spawned⟩, ?_, rfl,
    getElem?_set_append hi⟩
  unfold step
  rw [hi]
  dsimp only
  rw [hd]
  rfl

/-- What a step does to the jobs that are still to be done. -/
structure JobStep (p q : Pool σ ι) (job : ι) (d : Done σ ι) : Prop where
  state : q.state = d.state
  before : job ∈ p.jobs
  kept : ∀ j ∈ p.jobs, j = job ∨ j ∈ q.jobs
  added : ∀ j ∈ d.next, j ∈ q.jobs
  known : ∀ j ∈ q.jobs, j ∈ d.next ∨ j ∈ p.jobs ∨ ∃ t ∈ d.spawned, j ∈ t

/-- A step takes one job away and puts what follows it in its place. -/
theorem jobs_of_set {threads : List (List ι)} {i : Nat} {job : ι} {rest : List ι} {d : Done σ ι}
    {s : σ} (hi : threads[i]? = some (job :: rest)) :
    JobStep ⟨s, threads⟩ ⟨d.state, threads.set i (d.next ++ rest) ++ d.spawned⟩ job d := by
  have hlt : i < threads.length := (List.getElem?_eq_some_iff.mp hi).1
  have hmem : job :: rest ∈ threads := List.mem_of_getElem? hi
  have hnew : d.next ++ rest ∈ threads.set i (d.next ++ rest) ++ d.spawned :=
    List.mem_of_getElem? (getElem?_set_append hi)
  refine ⟨rfl, mem_jobs.mpr ⟨_, hmem, List.mem_cons_self⟩, ?_, ?_, ?_⟩
  · intro j hj
    obtain ⟨t, ht, hjt⟩ := mem_jobs.mp hj
    obtain ⟨k, hk⟩ := List.getElem?_of_mem ht
    -- a job of the thread itself is the first one or stays; all others are untouched
    by_cases hik : i = k
    · subst hik
      rw [hi] at hk
      obtain rfl := Option.some.inj hk
      rcases List.mem_cons.mp hjt with rfl | hrest
      · exact Or.inl rfl
      · exact Or.inr (mem_jobs.mpr ⟨_, hnew, List.mem_append_right _ hrest⟩)
    · have hkept : t ∈ threads.set i (d.next ++ rest) ++ d.spawned :=
        List.mem_of_getElem? (getElem?_set_append_ne hk hik)
      exact Or.inr (mem_jobs.mpr ⟨t, hkept, hjt⟩)
  · intro j hj
    exact mem_jobs.mpr ⟨_, hnew, List.mem_append_left _ hj⟩
  · intro j hj
    obtain ⟨t, ht, hjt⟩ := mem_jobs.mp hj
    rcases List.mem_append.mp ht with ht | ht
    · rcases List.mem_or_eq_of_mem_set ht with ht | rfl
      · exact Or.inr (Or.inl (mem_jobs.mpr ⟨t, ht, hjt⟩))
      · rcases List.mem_append.mp hjt with hjt | hjt
        · exact Or.inl hjt
        · exact Or.inr (Or.inl (mem_jobs.mpr ⟨_, hmem, List.mem_cons_of_mem _ hjt⟩))
    · exact Or.inr (Or.inr ⟨t, ht, hjt⟩)

/-- How a step changes the number of jobs of a sort: one job is gone, and what follows
it is there. -/
theorem countP_of_set {threads : List (List ι)} {i : Nat} {job : ι} {rest : List ι}
    {d : Done σ ι} {s : σ} (f : ι → Bool) (hi : threads[i]? = some (job :: rest)) :
    (jobs ⟨d.state, threads.set i (d.next ++ rest) ++ d.spawned⟩).countP f +
        (if f job then 1 else 0) =
      (jobs ⟨s, threads⟩).countP f + d.next.countP f + d.spawned.flatten.countP f := by
  obtain ⟨hlt, hget⟩ := List.getElem?_eq_some_iff.mp hi
  obtain ⟨before, later, hthreads, -, hset⟩ := @List.exists_of_set _ i (d.next ++ rest) threads hlt
  rw [hget] at hthreads
  rw [hset]
  show List.countP f (before ++ (d.next ++ rest) :: later ++ d.spawned).flatten + _ =
    List.countP f threads.flatten + _ + _
  rw [hthreads]
  simp only [List.flatten_append, List.flatten_cons, List.countP_append, List.countP_cons]
  omega

/-- What a step of a thread does to the jobs that are still to be done. -/
theorem jobs_of_step {m : Machine σ ι} {i : Nat} {p q : Pool σ ι} (h : p.step m i = some q) :
    ∃ job d, m.perform job p.state = some d ∧ JobStep p q job d := by
  obtain ⟨job, rest, d, hi, hd, rfl⟩ := step_eq_some h
  exact ⟨job, d, hd, jobs_of_set hi⟩

/-! ### Calls -/

section Calls

variable {m : Machine σ ι} {I : σ → Prop} {p q : Pool σ ι}
  (hkept : ∀ job s d, m.perform job s = some d → I s → I d.state)

include hkept

/-- What every job preserves is preserved by a step of any thread. -/
theorem step_preserved {i : Nat} (h : p.step m i = some q) (hp : I p.state) : I q.state := by
  obtain ⟨job, rest, d, -, hd, rfl⟩ := step_eq_some h
  exact hkept job p.state d hd hp

theorem settle_preserved (fuel : Nat) (hp : I p.state) : I (settle m fuel p).state := by
  induction fuel generalizing p with
  | zero => exact hp
  | succ fuel ih =>
    rw [settle]
    split
    · next q hturn =>
      obtain ⟨i, -, hstep⟩ := List.exists_of_findSome?_eq_some hturn
      exact ih (step_preserved hkept hstep hp)
    · exact hp

end Calls

end Pool

/-! ### Runs -/

/-- One thing that happens to a pool: a thread does its next job, or something is
done from outside. -/
inductive Move (ε : Type) where
  | job (thread : Nat)
  | outside (e : ε)
  deriving DecidableEq, Repr

/-- A machine, and what may be done to its pool from outside; `none` for what
cannot be done. -/
structure Setting (σ ι ε : Type) where
  machine : Machine σ ι
  outside : ε → Pool σ ι → Option (Pool σ ι)

namespace Setting

variable {s : Setting σ ι ε}

/-- The pool after one move, if it can be made. -/
def move (s : Setting σ ι ε) : Move ε → Pool σ ι → Option (Pool σ ι)
  | .job i, p => p.step s.machine i
  | .outside e, p => s.outside e p

/-- The pool after several moves, if all of them can be made. -/
def run? (s : Setting σ ι ε) : List (Move ε) → Pool σ ι → Option (Pool σ ι)
  | [], p => some p
  | a :: rest, p => (s.move a p).bind (s.run? rest)

theorem run?_cons {a : Move ε} {rest : List (Move ε)} {p q : Pool σ ι} :
    s.run? (a :: rest) p = some q ↔ ∃ r, s.move a p = some r ∧ s.run? rest r = some q :=
  Option.bind_eq_some_iff

/-- What every move preserves holds after every run. -/
theorem preserved {I : Pool σ ι → Prop}
    (hmove : ∀ p a q, I p → s.move a p = some q → I q) :
    ∀ {moves : List (Move ε)} {p q : Pool σ ι}, I p → s.run? moves p = some q → I q := by
  intro moves
  induction moves with
  | nil =>
    intro p q hp h
    obtain rfl := Option.some.inj h
    exact hp
  | cons a rest ih =>
    intro p q hp h
    obtain ⟨r, hr, hq⟩ := run?_cons.mp h
    exact ih (hmove p a r hp hr) hq

/-! ### Trails and logs -/

variable {α : Type}

/-- What is told of the moves of a run, in order. -/
def trail (s : Setting σ ι ε) (f : Move ε → Pool σ ι → List α) :
    List (Move ε) → Pool σ ι → List α
  | [], _ => []
  | a :: rest, p => f a p ++ (s.move a p).elim [] (s.trail f rest)

theorem trail_cons {f : Move ε → Pool σ ι → List α} {a : Move ε} {rest : List (Move ε)}
    {p q : Pool σ ι} (h : s.move a p = some q) :
    s.trail f (a :: rest) p = f a p ++ s.trail f rest q := by
  rw [trail, h]
  rfl

/-- What every move of a run preserves, given what was told before it, holds after it. -/
theorem preserved_trail {f : Move ε → Pool σ ι → List α} {I : List α → Pool σ ι → Prop} :
    ∀ {moves : List (Move ε)} {told : List α} {p q : Pool σ ι},
      (∀ told p, ∀ a ∈ moves, ∀ q, I told p → s.move a p = some q → I (told ++ f a p) q) →
      I told p → s.run? moves p = some q → I (told ++ s.trail f moves p) q := by
  intro moves
  induction moves with
  | nil =>
    intro told p q _ hp h
    obtain rfl := Option.some.inj h
    rw [trail, List.append_nil]
    exact hp
  | cons a rest ih =>
    intro told p q hmove hp h
    obtain ⟨r, hr, hq⟩ := run?_cons.mp h
    rw [trail_cons hr, ← List.append_assoc]
    refine ih (fun told p b hb => hmove told p b (List.mem_cons_of_mem _ hb)) ?_ hq
    exact hmove told p a List.mem_cons_self r hp hr

/-- A list of one entry is split at it alone. -/
theorem eq_of_singleton {x y : α} {before behind : List α} (h : [y] = before ++ x :: behind) :
    before = [] ∧ x = y ∧ behind = [] := by
  have hlength := congrArg List.length h
  simp only [List.length_append, List.length_cons, List.length_nil] at hlength
  obtain rfl : before = [] := List.length_eq_zero_iff.mp (by omega)
  obtain ⟨rfl, rfl⟩ := List.cons.inj h
  exact ⟨rfl, rfl, rfl⟩

/-- A place in a log that went on is a place in what was noted since, or one in the log as
it was. -/
theorem split_append {log told front back : List α} {x : α}
    (h : log ++ told = front ++ x :: back) :
    (∃ more, front = log ++ more ∧ told = more ++ x :: back) ∨
      ∃ more, log = front ++ x :: more ∧ back = more ++ told := by
  rcases List.append_eq_append_iff.mp h with ⟨more, rfl, htold⟩ | ⟨more, hlog, hback⟩
  · exact Or.inl ⟨more, rfl, htold⟩
  · cases more with
    | nil =>
      rw [List.append_nil] at hlog
      exact Or.inl ⟨[], by rw [hlog, List.append_nil], hback.symm⟩
    | cons y more =>
      obtain ⟨rfl, rfl⟩ := List.cons.inj hback
      exact Or.inr ⟨more, hlog, rfl⟩

/-- What is noted of a move: for a job, what is to be noted of it, its thread and
the state in which it is done. -/
def noted (note : Nat → ι → σ → List α) : Move ε → Pool σ ι → List α
  | .job i, p =>
    match p.threads[i]? with
    | some (job :: _) => note i job p.state
    | _ => []
  | .outside _, _ => []

theorem noted_job {note : Nat → ι → σ → List α} {p : Pool σ ι} {i : Nat} {job : ι}
    {rest : List ι} (h : p.threads[i]? = some (job :: rest)) :
    noted note (.job i : Move ε) p = note i job p.state := by
  simp only [noted, h]

theorem noted_outside (note : Nat → ι → σ → List α) (e : ε) (p : Pool σ ι) :
    noted note (.outside e) p = [] :=
  rfl

/-- What is noted of a run. -/
def log (s : Setting σ ι ε) (note : Nat → ι → σ → List α) : List (Move ε) → Pool σ ι → List α
  | [], _ => []
  | a :: rest, p => noted note a p ++ (s.move a p).elim [] (s.log note rest)

theorem log_cons {note : Nat → ι → σ → List α} {a : Move ε} {rest : List (Move ε)}
    {p q : Pool σ ι} (h : s.move a p = some q) :
    s.log note (a :: rest) p = noted note a p ++ s.log note rest q := by
  rw [log, h]
  rfl

/-- A log is the trail of what is noted. -/
theorem log_eq_trail (note : Nat → ι → σ → List α) :
    ∀ (moves : List (Move ε)) (p : Pool σ ι),
      s.log note moves p = s.trail (noted note) moves p := by
  intro moves
  induction moves with
  | nil => exact fun _ => rfl
  | cons a rest ih =>
    intro p
    rw [log, trail]
    cases s.move a p with
    | none => rfl
    | some q => exact congrArg _ (ih q)

/-- What every move preserves, given what was noted before it, holds after every
run. -/
theorem preserved_log {note : Nat → ι → σ → List α} {I : List α → Pool σ ι → Prop}
    (hmove : ∀ log p a q, I log p → s.move a p = some q → I (log ++ noted note a p) q)
    {moves : List (Move ε)} {log : List α} {p q : Pool σ ι} (hp : I log p)
    (hrun : s.run? moves p = some q) : I (log ++ s.log note moves p) q := by
  rw [log_eq_trail]
  exact preserved_trail (fun log p a _ => hmove log p a) hp hrun

/-- Whatever is noted in a run is noted at some move of it. -/
theorem log_split {note : Nat → ι → σ → List α} {x : α} {back : List α} {q : Pool σ ι} :
    ∀ {moves : List (Move ε)} {front : List α} {p : Pool σ ι}, s.run? moves p = some q →
      s.log note moves p = front ++ x :: back →
      ∃ earlier a later r r' before behind, s.run? earlier p = some r ∧
        s.move a r = some r' ∧ s.run? later r' = some q ∧
        noted note a r = before ++ x :: behind ∧ front = s.log note earlier p ++ before ∧
        back = behind ++ s.log note later r' := by
  intro moves
  induction moves with
  | nil =>
    intro front p _ hlog
    exact absurd hlog.symm (by simp [Setting.log])
  | cons a rest ih =>
    intro front p hrun hlog
    obtain ⟨r, hr, hq⟩ := run?_cons.mp hrun
    rw [log_cons hr] at hlog
    rcases List.append_eq_append_iff.mp hlog with ⟨more, rfl, hrest⟩ | ⟨more, hnoted, hrest⟩
    · -- it is noted later
      obtain ⟨earlier, b, later, t, t', before, behind, ht, ht', hlater, hnoted, rfl, rfl⟩ :=
        ih hq hrest
      refine ⟨a :: earlier, b, later, t, t', before, behind, run?_cons.mpr ⟨r, hr, ht⟩, ht',
        hlater, hnoted, ?_, rfl⟩
      rw [log_cons hr, List.append_assoc]
    · cases more with
      | nil =>
        have hlater : s.log note rest r = [] ++ x :: back := hrest.symm
        obtain ⟨earlier, b, later, t, t', before, behind, ht, ht', hrun', hnoted', hfront, rfl⟩ :=
          ih hq hlater
        refine ⟨a :: earlier, b, later, t, t', before, behind, run?_cons.mpr ⟨r, hr, ht⟩, ht',
          hrun', hnoted', ?_, rfl⟩
        rw [log_cons hr, List.append_assoc, ← hfront, List.append_nil, hnoted, List.append_nil]
      | cons y behind =>
        obtain ⟨rfl, rfl⟩ := List.cons.inj hrest
        exact ⟨[], a, rest, p, r, front, behind, rfl, hr, hq, hnoted, rfl, rfl⟩

end Setting

end ChangeWatch
