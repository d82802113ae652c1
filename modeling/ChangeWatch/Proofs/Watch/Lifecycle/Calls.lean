import ChangeWatch.Proofs.Watch.Lifecycle.Deeds

/-!
# How a call of `start` that fails is answered

Once a call is refused, or its registration or submission has failed, its answer
is settled, but other threads may take any number of steps before it is given.  A
`Fate` is what holds of such a thread until then: a move of another thread leaves
it (`Move.leaves`), and a step of its own leads on in it or gives the answer.  So
the call is either not answered yet or answered as it must be (`Fate.run`).

There are two fates: a call that comes late has no more than two steps before it
and never waits (`late_fate`, `late_answers`), and a call that failed stops the
watch first (`failing_fate`).
-/

namespace ChangeWatch.Lifecycle

open Watch

variable {behaviour : Behaviour Wish} {w : Watch} {job : Job} {d : Done Watch Job} {i : Nat}
  {e : WatchError} {p q : Running} {t rest : List Job} {told : List Seen}
  {moves : List (Move Outside)}

/-! ### One thread -/

/-- What is seen of one thread. -/
def onThread (i : Nat) (log : List (Nat × Seen)) : List Seen :=
  (log.filter fun entry => entry.1 = i).map (·.2)

def Seen.isAnswer : Seen → Bool
  | .answered _ => true
  | _ => false

/-- No answer was given, and nothing was registered. -/
def Unanswered (told : List Seen) : Prop :=
  ∀ x ∈ told, x.isAnswer = false ∧ x ≠ .registering

/-- The first answer is this error, and nothing was registered before it. -/
def AnsweredWith (e : WatchError) (told : List Seen) : Prop :=
  ∃ before behind, told = before ++ .answered (some e) :: behind ∧ Unanswered before

theorem Unanswered.nil : Unanswered [] := fun _ h => absurd h List.not_mem_nil

theorem Unanswered.append {a b : List Seen} (ha : Unanswered a) (hb : Unanswered b) :
    Unanswered (a ++ b) := by
  intro x hx
  rcases List.mem_append.mp hx with hx | hx
  · exact ha x hx
  · exact hb x hx

theorem AnsweredWith.after {a b : List Seen} (hb : AnsweredWith e b) (ha : Unanswered a) :
    AnsweredWith e (a ++ b) := by
  obtain ⟨before, behind, rfl, hbefore⟩ := hb
  exact ⟨a ++ before, behind, (List.append_assoc _ _ _).symm, ha.append hbefore⟩

theorem onThread_append (i : Nat) (a b : List (Nat × Seen)) :
    onThread i (a ++ b) = onThread i a ++ onThread i b := by
  unfold onThread
  rw [List.filter_append, List.map_append]

theorem onThread_map (i : Nat) (told : List Seen) : onThread i (told.map (i, ·)) = told := by
  have hall : (told.map (i, ·)).filter (fun entry => entry.1 = i) = told.map (i, ·) := by
    refine List.filter_eq_self.mpr fun entry hentry => ?_
    obtain ⟨x, -, rfl⟩ := List.mem_map.mp hentry
    exact decide_eq_true rfl
  unfold onThread
  rw [hall, List.map_map]
  exact List.map_id _

/-- What is seen of a thread when it makes a step. -/
theorem onThread_noted (hi : p.threads[i]? = some (job :: rest)) :
    onThread i (Setting.noted note (.job i : Move Outside) p) = seen job p.state := by
  rw [Setting.noted_job hi, note, onThread_map]

/-- What is seen of a thread during a run is what is seen of it by the first move, and after. -/
theorem onThread_log_cons {a : Move Outside} {r : Running}
    (hr : (setting behaviour).move a p = some r) :
    onThread i (log behaviour (a :: moves) p) =
      onThread i (Setting.noted note a p) ++ onThread i (log behaviour moves r) := by
  rw [← onThread_append]
  exact congrArg (onThread i) (Setting.log_cons hr)

/-- What is noted of a move is noted of the job that it does. -/
theorem of_mem_noted {a : Move Outside} {x : Nat × Seen}
    (h : x ∈ Setting.noted note a p) : ∃ job rest, a = .job x.1 ∧
      p.threads[x.1]? = some (job :: rest) ∧ Setting.noted note a p = note x.1 job p.state := by
  cases a with
  | outside e => exact absurd h List.not_mem_nil
  | job j =>
    simp only [Setting.noted] at h ⊢
    split at h
    · next job rest hj =>
      obtain ⟨y, -, rfl⟩ := List.mem_map.mp h
      exact ⟨job, rest, rfl, hj, rfl⟩
    · exact absurd h List.not_mem_nil

/-! ### What moves leave -/

/-- Once set, the flag stays set. -/
theorem move_stopped {a : Move Outside} (hmove : (setting behaviour).move a p = some q)
    (hp : p.state.stopped = true) : q.state.stopped = true := by
  cases a with
  | job j =>
    obtain ⟨job, d, hd, hstep⟩ := Pool.jobs_of_step hmove
    rw [hstep.state]
    exact (perform_flags hd).2 hp
  | outside e =>
    cases e with
    | dispatch n =>
      obtain ⟨r, -, rfl⟩ := Option.map_eq_some_iff.mp hmove
      exact hp
    | ground g =>
      simp only [Setting.move, setting, outside] at hmove
      split at hmove
      · exact absurd hmove (by simp)
      · obtain rfl := Option.some.inj hmove
        exact hp
    | _ =>
      obtain rfl := Option.some.inj hmove
      exact hp

theorem run_stopped (hrun : (setting behaviour).run? moves p = some q)
    (hp : p.state.stopped = true) :
    q.state.stopped = true :=
  Setting.preserved (I := fun r => r.state.stopped = true)
    (fun _ _ _ hr hmove => move_stopped hmove hr) hp hrun

/-- A move that is not its own leaves a thread as it is, and nothing is seen of
it. -/
theorem move_leaves {a : Move Outside} (hmove : (setting behaviour).move a p = some q)
    (hi : p.threads[i]? = some t) (hne : a ≠ .job i) :
    q.threads[i]? = some t ∧ onThread i (Setting.noted note a p) = [] := by
  -- only a step of the thread is seen as its own
  have hseen : onThread i (Setting.noted note a p) = [] := by
    unfold onThread
    rw [List.map_eq_nil_iff, List.filter_eq_nil_iff]
    intro x hx
    obtain ⟨job, rest, rfl, -, -⟩ := of_mem_noted hx
    intro heq
    exact hne (congrArg Move.job (of_decide_eq_true heq))
  refine ⟨?_, hseen⟩
  -- another thread replaces its own jobs, and what comes is put behind all threads
  cases a with
  | job j =>
    obtain ⟨job, rest, d, hj, -, rfl⟩ := Pool.step_eq_some hmove
    exact Pool.getElem?_set_append_ne hi fun heq => hne (congrArg Move.job heq)
  | outside e =>
    cases e with
    | unpark =>
      obtain rfl := Option.some.inj hmove
      obtain ⟨hlt, -⟩ := List.getElem?_eq_some_iff.mp hi
      exact (List.getElem?_append_left hlt).trans hi
    | dispatch n =>
      obtain ⟨r, -, rfl⟩ := Option.map_eq_some_iff.mp hmove
      exact Pool.getElem?_spawn hi
    | ground g =>
      simp only [Setting.move, setting, outside] at hmove
      split at hmove
      · exact absurd hmove (by simp)
      · obtain rfl := Option.some.inj hmove
        exact hi
    | _ =>
      obtain rfl := Option.some.inj hmove
      exact Pool.getElem?_spawn hi

/-- As long as a thread makes no step, it stays as it is, and nothing is seen of it. -/
theorem run_leaves (hrun : (setting behaviour).run? moves p = some q) (hi : p.threads[i]? = some t)
    (hothers : .job i ∉ moves) :
    q.threads[i]? = some t ∧ onThread i (log behaviour moves p) = [] := by
  induction moves generalizing p with
  | nil =>
    obtain rfl := Option.some.inj hrun
    exact ⟨hi, rfl⟩
  | cons a moves ih =>
    obtain ⟨r, hr, hrest⟩ := Setting.run?_cons.mp hrun
    rw [List.mem_cons, not_or] at hothers
    obtain ⟨hne, hothers⟩ := hothers
    obtain ⟨hkept, hnone⟩ := move_leaves hr hi (Ne.symm hne)
    obtain ⟨hend, hlater⟩ := ih hrest hkept hothers
    exact ⟨hend, by rw [onThread_log_cons hr, hnone, hlater, List.nil_append]⟩

/-! ### Fates -/

/-- What a thread keeps to until it answers a call with an error, given whether the
watch is stopped. -/
structure Fate (behaviour : Behaviour Wish) (e : WatchError) (F : Bool → List Job → Prop) :
    Prop where
  stopped : ∀ t, F false t → F true t
  step : ∀ (w : Watch) (job : Job) (rest : List Job) (d : Done Watch Job),
    F w.stopped (job :: rest) → perform behaviour job w = some d →
      (∃ caller, job = .started caller (some e)) ∧ w.stopped = true ∨
        F d.state.stopped (d.next ++ rest) ∧ Unanswered (seen job w)

/-- A call that has met its fate is answered with the error, and the watch is stopped
by then, or it is not answered yet and its fate is the same. -/
theorem Fate.run {F : Bool → List Job → Prop} (hF : Fate behaviour e F) :
    ∀ {p q : Running} {t : List Job}, p.threads[i]? = some t → F p.state.stopped t →
      (setting behaviour).run? moves p = some q →
      (Unanswered (onThread i (log behaviour moves p)) ∧
        ∃ t', q.threads[i]? = some t' ∧ F q.state.stopped t') ∨
      (AnsweredWith e (onThread i (log behaviour moves p)) ∧ q.state.stopped = true) := by
  induction moves with
  | nil =>
    intro p q t hi ht hrun
    obtain rfl := Option.some.inj hrun
    exact Or.inl ⟨.nil, t, hi, ht⟩
  | cons a moves ih =>
    intro p q t hi ht hrun
    obtain ⟨r, hr, hrest⟩ := Setting.run?_cons.mp hrun
    rw [onThread_log_cons hr]
    by_cases hown : a = .job i
    · subst hown
      obtain ⟨job, rest, d, hthread, hd, rfl⟩ := Pool.step_eq_some hr
      obtain rfl := Option.some.inj (hi.symm.trans hthread)
      rw [onThread_noted hi]
      rcases hF.step _ job rest d ht hd with ⟨⟨caller, rfl⟩, hstopped⟩ | ⟨hnext, hseen⟩
      · -- the answer is given
        exact Or.inr ⟨⟨[], _, rfl, .nil⟩, run_stopped hrun hstopped⟩
      · rcases ih (Pool.getElem?_set_append hi) hnext hrest with ⟨hlater, hend⟩ | ⟨hlater, hend⟩
        · exact Or.inl ⟨hseen.append hlater, hend⟩
        · exact Or.inr ⟨hlater.after hseen, hend⟩
    · obtain ⟨hkept, hnone⟩ := move_leaves hr hi hown
      have ht' : F r.state.stopped t := by
        cases hs : p.state.stopped with
        | true => rwa [move_stopped hr hs, ← hs]
        | false =>
          rw [hs] at ht
          cases r.state.stopped with
          | true => exact hF.stopped t ht
          | false => exact ht
      rw [hnone, List.nil_append]
      exact ih hkept ht' hrest

/-! ### A call that comes late -/

/-- A thread on which a call of `start` is refused, now that the watch is stopped. -/
def Late (e : WatchError) (stopped : Bool) (t : List Job) : Prop :=
  stopped = true ∧ ((∃ caller rest, t = .started caller (some e) :: rest) ∨
    (e = .alreadyStopped ∧ ∃ caller rest, t = .startUnlessStopped caller :: rest))

theorem late_fate (behaviour : Behaviour Wish) (e : WatchError) :
    Fate behaviour e (Late e) := by
  refine ⟨fun t ht => absurd ht.1 (by simp), ?_⟩
  rintro w job rest d ⟨hstopped, ⟨caller, rest', heq⟩ | ⟨rfl, caller, rest', heq⟩⟩ hd
  · obtain ⟨rfl, -⟩ := List.cons.inj heq
    exact Or.inl ⟨⟨caller, rfl⟩, hstopped⟩
  · obtain ⟨rfl, -⟩ := List.cons.inj heq
    simp only [perform, hstopped, if_true] at hd
    obtain rfl := Option.some.inj hd
    exact Or.inr ⟨⟨hstopped, Or.inl ⟨caller, rest, rfl⟩⟩, .nil⟩

/-- A step that gives the answer. -/
theorem started_answers (behaviour : Behaviour Wish) {caller : Caller}
    (hi : p.threads[i]? = some (.started caller (some e) :: rest)) :
    ∃ q, (setting behaviour).move (.job i) p = some q ∧
      AnsweredWith e (onThread i (Setting.noted note (.job i : Move Outside) p)) := by
  obtain ⟨q, hq, -, -⟩ := Pool.step_of (m := machine behaviour) hi rfl
  exact ⟨q, hq, [], [], onThread_noted hi, .nil⟩

/-- A call that comes late is answered after two steps of its own at most, and none of
them has to wait. -/
theorem late_answers (hi : p.threads[i]? = some t) (ht : Late e p.state.stopped t) :
    ∃ n ≤ 2, ∃ q, (setting behaviour).run? (List.replicate n (.job i)) p = some q ∧
      AnsweredWith e (onThread i (log behaviour (List.replicate n (.job i)) p)) := by
  obtain ⟨hstopped, ⟨caller, rest, rfl⟩ | ⟨rfl, caller, rest, rfl⟩⟩ := ht
  · obtain ⟨q, hq, hanswer⟩ := started_answers behaviour hi
    refine ⟨1, by decide, q, Setting.run?_cons.mpr ⟨q, hq, rfl⟩, ?_⟩
    show AnsweredWith _ (onThread i ((setting behaviour).log note [.job i] p))
    rw [Setting.log_cons hq, Setting.log, List.append_nil]
    exact hanswer
  · have hperform : perform behaviour (.startUnlessStopped caller) p.state =
        some (.andThen p.state [.started caller (some .alreadyStopped)]) := by
      simp only [perform, hstopped, if_true]
    obtain ⟨r, hr, -, hir⟩ := Pool.step_of (m := machine behaviour) hi hperform
    obtain ⟨q, hq, hanswer⟩ := started_answers behaviour hir
    refine ⟨2, by decide, q, Setting.run?_cons.mpr ⟨r, hr, Setting.run?_cons.mpr ⟨q, hq, rfl⟩⟩, ?_⟩
    have hfirst : (setting behaviour).move (.job i) p = some r := hr
    show AnsweredWith _ (onThread i ((setting behaviour).log note [.job i, .job i] p))
    rw [Setting.log_cons hfirst, Setting.log_cons hq, Setting.log, List.append_nil,
      onThread_append, onThread_noted hi]
    exact hanswer

/-- A call of `start`; made when the watch is stopped it comes late. -/
theorem LifecycleEffect.called (h : LifecycleEffect w job told d) (hcalled : .called ∈ told) :
    told = [.called] ∧ (w.stopped = true → ∃ e : WatchError, e.errorClass = .illegalState ∧
      Late e d.state.stopped (d.next ++ rest)) := by
  cases h with
  | claims caller hfresh =>
    exact ⟨rfl, fun hs => ⟨.alreadyStopped, rfl, hs, Or.inr ⟨rfl, caller, rest, rfl⟩⟩⟩
  | repeats caller hstarted =>
    exact ⟨rfl, fun hs => ⟨.alreadyStarted, rfl, hs, Or.inl ⟨caller, rest, rfl⟩⟩⟩
  | registers hsame hglimpses hregistration =>
    have hnone := not_mem_glimpses (x := .called) rfl hglimpses
    cases hregistration <;> exact absurd hcalled (by simp [hnone])
  | walks hsame hglimpses hregistration =>
    have hnone := not_mem_glimpses (x := .called) rfl hglimpses
    cases hregistration <;> exact absurd hcalled (by simp [hnone])
  | closes step => split at hcalled <;> exact absurd hcalled (by simp)
  | isAside haside hsame hspawned hnext => split at hcalled <;> exact absurd hcalled (by simp)
  | _ => exact absurd hcalled (by simp)

/-! ### A call that fails -/

/-- A thread on which a call of `start` stops the watch, or has stopped it, before it
answers. -/
def Failing (e : WatchError) (stopped : Bool) (t : List Job) : Prop :=
  ∃ before caller rest, t = before ++ .started caller (some e) :: rest ∧
    (∀ j ∈ before, j = .stop ∨ j.stops = true) ∧ (stopped = true ∨ .stop ∈ before)

theorem failing_of_failed (caller : Caller) (e : WatchError) (stopped : Bool) (rest : List Job) :
    Failing e stopped (startFailed caller e ++ rest) :=
  ⟨[.stop], caller, rest, rfl, by simp, Or.inr (List.mem_singleton_self _)⟩

theorem failing_fate (behaviour : Behaviour Wish) (e : WatchError) :
    Fate behaviour e (Failing e) := by
  constructor
  · rintro t ⟨before, caller, rest, rfl, hbefore, -⟩
    exact ⟨before, caller, rest, rfl, hbefore, Or.inl rfl⟩
  · rintro w job rest d ⟨before, caller, rest', heq, hbefore, hflag⟩ hd
    cases before with
    | nil =>
      obtain ⟨rfl, -⟩ := List.cons.inj heq
      rcases hflag with hflag | hmem
      · exact Or.inl ⟨⟨caller, rfl⟩, hflag⟩
      · exact absurd hmem List.not_mem_nil
    | cons j before =>
      obtain ⟨rfl, rfl⟩ := List.cons.inj heq
      right
      have hlater : ∀ j ∈ before, j = .stop ∨ j.stops = true :=
        fun j hj => hbefore j (List.mem_cons_of_mem _ hj)
      rcases hbefore job List.mem_cons_self with rfl | hstops
      · -- whether it is the first call of `stop` or not, the flag is set after it
        obtain ⟨hstopped, hnext⟩ : d.state.stopped = true ∧ ∀ j ∈ d.next, j.stops = true := by
          cases perform_lifecycleEffect hd with
          | stops hrunning => exact ⟨rfl, by simp [Done.andThen, Job.stops]⟩
          | stopsAgain hstopped => exact ⟨hstopped, by simp [Done.just]⟩
        refine ⟨⟨d.next ++ before, caller, rest', (List.append_assoc _ _ _).symm, ?_,
          Or.inl hstopped⟩, by simp [Unanswered, seen, Seen.isAnswer]⟩
        intro j hj
        rcases List.mem_append.mp hj with hj | hj
        · exact Or.inr (hnext j hj)
        · exact hlater j hj
      · obtain ⟨hnext, -, hstopped, -⟩ := Stopping.perform_stops hd hstops
        refine ⟨⟨d.next ++ before, caller, rest', (List.append_assoc _ _ _).symm, ?_, ?_⟩, ?_⟩
        · intro j hj
          rcases List.mem_append.mp hj with hj | hj
          · exact Or.inr (hnext j hj)
          · exact hlater j hj
        · rcases hflag with hflag | hmem
          · exact Or.inl (hstopped.trans hflag)
          · rcases List.mem_cons.mp hmem with rfl | hmem
            · exact absurd hstops (by simp [Job.stops])
            · exact Or.inr (List.mem_append_right _ hmem)
        · cases job with
          | close step => cases step <;> simp [Unanswered, seen, Seen.isAnswer]
          | closed => exact .nil
          | desk job => exact .nil
          | _ => exact absurd hstops (by simp [Job.stops])

/-- A registration that fails is broken off, and the call with it. -/
theorem Registration.fails_last {caller : Caller} {next : List Job} {before behind : List Seen}
    {x : Seen} (h : Registration caller told next) (htold : told = before ++ x :: behind)
    (hx : x = .registered (some e) ∨ x = .submitted (some e)) :
    behind = [] ∧ next = startFailed caller e := by
  cases h with
  | goesOn agenda registered => exact absurd htold (by simp)
  | ends =>
    obtain ⟨-, rfl, -⟩ := Setting.eq_of_singleton htold
    exact absurd hx (by simp)
  | fails e' =>
    obtain ⟨-, rfl, hbehind⟩ := Setting.eq_of_singleton htold
    obtain rfl : e' = e := by simpa using hx
    exact ⟨hbehind, rfl⟩

/-- What is no glimpse comes after all glimpses. -/
theorem split_after_glimpses {glimpses before behind : List Seen} {x : Seen}
    (h : glimpses ++ told = before ++ x :: behind) (hx : x.isGlimpse = false)
    (hglimpses : ∀ x ∈ glimpses, x.isGlimpse = true) :
    ∃ before', told = before' ++ x :: behind := by
  rcases List.append_eq_append_iff.mp h with ⟨more, -, htold⟩ | ⟨more, hsplit, hrest⟩
  · exact ⟨more, htold⟩
  · cases more with
    | nil => exact ⟨[], hrest.symm⟩
    | cons y more =>
      obtain ⟨rfl, -⟩ := List.cons.inj hrest
      have hmem : x ∈ glimpses := by
        rw [hsplit]
        exact List.mem_append_right _ List.mem_cons_self
      exact absurd hmem (not_mem_glimpses hx hglimpses)

/-- What is seen last of a job that fails, and what follows it. -/
theorem LifecycleEffect.fails_last {x : Seen} {before behind : List Seen}
    (h : LifecycleEffect w job told d)
    (htold : told = before ++ x :: behind)
    (hx : x = .registered (some e) ∨ x = .submitted (some e)) :
    behind = [] ∧ ∃ caller, d.next = startFailed caller e := by
  have hmem : x ∈ told := htold ▸ List.mem_append_right _ List.mem_cons_self
  have hplain : x.isGlimpse = false := by rcases hx with rfl | rfl <;> rfl
  -- a registration and a submission can fail; glimpses come before the failure
  cases h with
  | @registers caller w' glimpses told next hsame hglimpses hregistration =>
    cases before with
    | nil =>
      obtain ⟨rfl, -⟩ := List.cons.inj htold
      exact absurd hx (by simp)
    | cons y before =>
      obtain ⟨-, htold⟩ := List.cons.inj htold
      obtain ⟨before', htold⟩ := split_after_glimpses htold hplain hglimpses
      obtain ⟨hbehind, hnext⟩ := hregistration.fails_last htold hx
      exact ⟨hbehind, caller, hnext⟩
  | @walks caller agenda registered w' glimpses told next hsame hglimpses hregistration =>
    obtain ⟨before', htold⟩ := split_after_glimpses htold hplain hglimpses
    obtain ⟨hbehind, hnext⟩ := hregistration.fails_last htold hx
    exact ⟨hbehind, caller, hnext⟩
  | refuses caller e' hparked =>
    obtain ⟨-, rfl, hbehind⟩ := Setting.eq_of_singleton htold
    obtain rfl : e' = e := by simpa using hx
    exact ⟨hbehind, caller, rfl⟩
  | closes step =>
    split at hmem
    · rcases hx with rfl | rfl <;> exact absurd hmem (by simp)
    · exact absurd hmem List.not_mem_nil
  | isAside haside hsame hspawned hnext =>
    split at hmem
    · rcases hx with rfl | rfl <;> exact absurd hmem (by simp)
    · exact absurd hmem List.not_mem_nil
  | _ => rcases hx with rfl | rfl <;> exact absurd hmem (by simp)

/-! ### At the moment at which something is seen -/

/-- The moment of a run from `p₀` to `p` at which `x` is seen of the thread `i`: the
pools before and after the job at which it is seen, and the run before and after. -/
structure Moment (behaviour : Behaviour Wish) (p₀ p : Running) (front back : List (Nat × Seen))
    (i : Nat) (x : Seen) where
  earlier : List (Move Outside)
  later : List (Move Outside)
  here : Running
  after : Running
  job : Job
  rest : List Job
  done : Done Watch Job
  before : List Seen
  behind : List Seen
  run_earlier : (setting behaviour).run? earlier p₀ = some here
  move : (setting behaviour).move (.job i) here = some after
  run_later : (setting behaviour).run? later after = some p
  performed : perform behaviour job here.state = some done
  job_mem : job ∈ here.jobs
  state : after.state = done.state
  thread : after.threads[i]? = some (done.next ++ rest)
  seen_eq : seen job here.state = before ++ x :: behind
  front_eq : front = log behaviour earlier p₀ ++ before.map (i, ·)
  back_eq : back = behind.map (i, ·) ++ log behaviour later after

namespace Moment

variable {p₀ : Running} {front back : List (Nat × Seen)} {i : Nat} {x : Seen}

theorem lifecycleEffect (m : Moment behaviour p₀ p front back i x) :
    LifecycleEffect m.here.state m.job (seen m.job m.here.state) m.done :=
  perform_lifecycleEffect m.performed

theorem mem_seen (m : Moment behaviour p₀ p front back i x) : x ∈ seen m.job m.here.state := by
  rw [m.seen_eq]
  exact List.mem_append_right _ List.mem_cons_self

/-- What is seen of the thread later. -/
theorem onThread_back (m : Moment behaviour p₀ p front back i x) :
    onThread i back = m.behind ++ onThread i (log behaviour m.later m.after) := by
  have hbehind : onThread i (m.behind.map (i, ·)) = m.behind := onThread_map i m.behind
  calc onThread i back
      = onThread i (m.behind.map (i, ·) ++ log behaviour m.later m.after) :=
        congrArg (onThread i) m.back_eq
    _ = m.behind ++ onThread i (log behaviour m.later m.after) := by
        rw [onThread_append, hbehind]

/-- A job that fails settles what its call is answered with. -/
theorem fails {caller : Caller} {e : WatchError} (m : Moment behaviour p₀ p front back i x)
    (hnext : m.done.next = startFailed caller e) (hbehind : Unanswered m.behind) :
    Unanswered (onThread i back) ∨
      AnsweredWith e (onThread i back) ∧ p.state.stopped = true := by
  have hfailing : Failing e m.after.state.stopped (m.done.next ++ m.rest) := by
    rw [hnext]
    exact failing_of_failed caller e _ m.rest
  rw [m.onThread_back]
  rcases (failing_fate behaviour e).run m.thread hfailing m.run_later with
    ⟨hopen, -⟩ | ⟨hanswer, hstopped⟩
  · exact Or.inl (hbehind.append hopen)
  · exact Or.inr ⟨hanswer.after hbehind, hstopped⟩

end Moment

/-- Whatever is seen in a run is seen at some moment of it. -/
theorem moment_of_log {p₀ : Running} {front back : List (Nat × Seen)} {i : Nat} {x : Seen}
    (hrun : (setting behaviour).run? moves p₀ = some p)
    (hlog : log behaviour moves p₀ = front ++ (i, x) :: back) :
    Nonempty (Moment behaviour p₀ p front back i x) := by
  obtain ⟨earlier, a, later, r, r', before, behind, hr, hmove, hlater, hnoted, hfront, hback⟩ :=
    Setting.log_split hrun hlog
  have hmem : (i, x) ∈ Setting.noted note a r :=
    hnoted ▸ List.mem_append_right _ List.mem_cons_self
  obtain ⟨job, rest, rfl, hi, heq⟩ := of_mem_noted hmem
  obtain ⟨job', rest', d, hi', hd, rfl⟩ := Pool.step_eq_some hmove
  obtain ⟨rfl, rfl⟩ := List.cons.inj (Option.some.inj (hi.symm.trans hi'))
  rw [heq] at hnoted
  obtain ⟨told, later', hseen, rfl, hlast⟩ := List.map_eq_append_iff.mp hnoted
  obtain ⟨y, told', rfl, hy, rfl⟩ := List.map_eq_cons_iff.mp hlast
  obtain rfl : y = x := (Prod.mk.inj hy).2
  exact ⟨earlier, later, r, _, job, rest, d, told, told', hr, hmove, hlater, hd,
    Pool.mem_jobs.mpr ⟨_, List.mem_of_getElem? hi, List.mem_cons_self⟩, rfl,
    Pool.getElem?_set_append hi, hseen, hfront, hback⟩

end ChangeWatch.Lifecycle
