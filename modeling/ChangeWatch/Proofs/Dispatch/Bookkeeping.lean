import ChangeWatch.Proofs.Dispatch.Bookkeeping.Jobs
import Mathlib.Data.List.Perm.Basic

/-!
# The bookkeeping of a debouncer

Between two steps the keys that are pending are those of the tasks that were accepted and have
not begun; what was accepted has begun, waits, or was dropped by a shutdown; and after that the
scheduler is given nothing (`Balanced`).  So it is in every sequence of offers, of tasks that are
taken up and of shutdowns (`books_are_kept`).

Two invariants lead there.  The first is about the debouncer and the thread at work: a pending
key belongs to a task that waits, or the next job of the thread has it in hand (`Steady`).  The
second compares them with the ledger of what the scheduler was given (`Kept`).
-/

namespace ChangeWatch.Desk.Bookkeeping

variable {ρ : Type} {offered : Context → ρ → Option Dispatch} {behaviour : Behaviour ρ}
  {jobs rest next : List (Job ρ)} {job : Job ρ} {g g' : Debouncer} {d : Dispatch}
  {told : List Posting}

/-! ### In whose hands a key is -/

/-- The tasks that wait. -/
def tasks (g : Debouncer) : List Dispatch :=
  g.scheduler.waiting.map (·.task)

/-- What is so of a debouncer and of the thread that works on it, at every moment: a key that is
pending belongs to a task that waits, or the next job of the thread has it in hand. -/
structure Steady (g : Debouncer) (jobs : List (Job ρ)) : Prop where
  behind : ∀ job ∈ jobs.tail, quiet job = true
  locked : g.locked = true → .unlock ∈ jobs
  single : g.pending.Nodup
  held : g.pending.Perm ((tasks g).map (·.key) ++ jobs.flatMap holds)
  together : g.scheduler.shutDown = g.shutDown
  empty : g.shutDown = true → g.scheduler.waiting = []

theorem tasks_queued (g : Debouncer) (d : Dispatch) : tasks (g.queued d) = tasks g ++ [d] :=
  List.map_append

/-- A key that is freed was pending once. -/
theorem released {keys : List String} {key : String} (hsingle : g.pending.Nodup)
    (hheld : g.pending.Perm (keys ++ [key])) :
    (g.release key).pending.Nodup ∧ (g.release key).pending.Perm keys := by
  have hkeys : key ∉ keys := by
    have hnodup : (keys ++ [key]).Nodup := hheld.nodup_iff.mp hsingle
    exact fun hmem => (List.nodup_append.mp hnodup).2.2 key hmem key List.mem_cons_self rfl
  have hkept : keys.filter (· ≠ key) = keys := by
    refine List.filter_eq_self.mpr fun name hname => decide_eq_true ?_
    rintro rfl
    exact hkeys hname
  have hfiltered : (keys ++ [key]).filter (· ≠ key) = keys := by
    rw [List.filter_append, hkept, List.filter_cons_of_neg (by simp), List.filter_nil,
      List.append_nil]
  refine ⟨hsingle.filter _, ?_⟩
  show (g.pending.filter (· ≠ key)).Perm keys
  exact hfiltered ▸ hheld.filter (· ≠ key)

theorem nothing_of_demanded (d? : Option Dispatch) :
    holds (demanded d? : Job ρ) = [] ∧ takes (demanded d? : Job ρ) = [] ∧
      runs (demanded d? : Job ρ) = [] ∧ promises (demanded d? : Job ρ) = [] := by
  cases d? <;> exact ⟨rfl, rfl, rfl, rfl⟩

theorem nothing_of_idle (h : job.idle = true) : holds job = [] ∧ takes job = [] := by
  cases job with
  | offer | commit | begin | shutdown => exact absurd h (by simp [Job.idle])
  | _ => exact ⟨rfl, rfl⟩

theorem Served.behind (h : Served offered g job g' next told) :
    ∀ follower ∈ next.tail, quiet follower = true := by
  cases h with
  | seizes => simp [quiet]
  | refuses d caller warning => cases warning <;> simp [afterCommit, quiet]
  | idles _ _ hrests =>
    exact fun follower hmem => (quiet_of_rests (hrests follower (List.mem_of_mem_tail hmem))).1
  | _ => simp

/-- The lock is taken by a job that is followed by an unlock. -/
theorem Served.locked (h : Served offered g job g' next told) (hlocked : g'.locked = true) :
    .unlock ∈ next ∨ (g.locked = true ∧ job ≠ .unlock) := by
  cases h with
  | seizes => simp
  | unlocks => exact absurd hlocked (by simp [Debouncer.unlock])
  | idles _ hother _ => exact Or.inr ⟨hlocked, hother⟩
  | _ => exact Or.inr ⟨hlocked, by simp⟩

theorem Served.held (h : Served offered g job g' next told) (hsingle : g.pending.Nodup)
    (hheld : g.pending.Perm ((tasks g).map (·.key) ++ holds job)) :
    g'.pending.Nodup ∧ g'.pending.Perm ((tasks g').map (·.key) ++ next.flatMap holds) := by
  -- a key is held by a job until its task is queued, and released when the task is refused
  -- or begun
  cases h with
  | opens d caller hfree =>
    refine ⟨?_, (List.append_nil (List.map _ (tasks g)) ▸ hheld).append_right [d.key]⟩
    show (g.pending ++ [d.key]).Nodup
    rw [← List.concat_eq_append]
    exact hsingle.concat hfree
  | queues d caller =>
    refine ⟨hsingle, ?_⟩
    show g.pending.Perm ((tasks (g.queued d)).map (·.key) ++ [])
    rw [tasks_queued, List.append_nil, List.map_append]
    exact hheld
  | refuses d caller warning =>
    obtain ⟨hsingle', hheld'⟩ := released hsingle hheld
    refine ⟨hsingle', ?_⟩
    have hnext : (afterCommit d caller (.declined warning) : List (Job ρ)).flatMap holds = [] := by
      cases warning <;> rfl
    rw [hnext, List.append_nil]
    exact hheld'
  | declines d caller =>
    obtain ⟨hsingle', hheld'⟩ := released hsingle hheld
    exact ⟨hsingle', (List.append_nil _).symm ▸ hheld'⟩
  | begins d =>
    obtain ⟨hsingle', hheld'⟩ := released hsingle hheld
    exact ⟨hsingle', (List.append_nil _).symm ▸ hheld'⟩
  | closes => exact ⟨List.nodup_nil, .refl _⟩
  | asks r context =>
    refine ⟨hsingle, ?_⟩
    rw [List.flatMap_singleton, (nothing_of_demanded _).1]
    exact hheld
  | idles hidle _ hrests =>
    rw [(nothing_of_idle hidle).1] at hheld
    rw [(nothing_of_resting hrests).1.1]
    exact ⟨hsingle, hheld⟩
  | _ => exact ⟨hsingle, hheld⟩

/-- The scheduler is shut down with the debouncer, and then nothing waits. -/
theorem Served.shutting (h : Served offered g job g' next told)
    (htogether : g.scheduler.shutDown = g.shutDown)
    (hempty : g.shutDown = true → g.scheduler.waiting = []) :
    g'.scheduler.shutDown = g'.shutDown ∧ (g'.shutDown = true → g'.scheduler.waiting = []) := by
  cases h with
  | queues d caller hdown =>
    exact ⟨htogether, fun hshut => absurd (hdown.symm.trans hshut) (by simp)⟩
  | closes => exact ⟨rfl, fun _ => rfl⟩
  | _ => exact ⟨htogether, hempty⟩

/-- Every job keeps it so. -/
theorem Served.steady (h : Served offered g job g' next told) (hg : Steady g (job :: rest)) :
    Steady g' (next ++ rest) := by
  obtain ⟨hholds, -, -⟩ := nothing_of_quiet hg.behind
  have hheld : g.pending.Perm ((tasks g).map (·.key) ++ holds job) := by
    have hall := hg.held
    rw [List.flatMap_cons, show rest.flatMap holds = [] from hholds, List.append_nil] at hall
    exact hall
  obtain ⟨hsingle', hheld'⟩ := h.held hg.single hheld
  obtain ⟨htogether', hempty'⟩ := h.shutting hg.together hg.empty
  refine ⟨?_, ?_, hsingle', ?_, htogether', hempty'⟩
  · intro follower hmem
    cases next with
    | nil => exact hg.behind follower (List.mem_of_mem_tail hmem)
    | cons first more =>
      rcases List.mem_append.mp hmem with hmem | hmem
      · exact h.behind follower hmem
      · exact hg.behind follower hmem
  · intro hlocked
    rcases h.locked hlocked with hmem | ⟨hbefore, hother⟩
    · exact List.mem_append_left _ hmem
    · rcases List.mem_cons.mp (hg.locked hbefore) with heq | hmem
      · exact absurd heq.symm hother
      · exact List.mem_append_right _ hmem
  · rw [List.flatMap_append, show rest.flatMap holds = [] from hholds, List.append_nil]
    exact hheld'

/-! ### The books -/

/-- What was entered of a job: the tasks that wait or are taken up next, the callback that is run
next, and the answer that is given next. -/
structure Entered (books books' : Ledger) (g' : Debouncer) (next : List (Job ρ)) : Prop where
  outstanding : books'.outstanding.Perm (tasks g' ++ next.flatMap takes)
  closed : books'.closed = g'.shutDown
  begun : books'.begun.map (fun d => (d.callback, d.context)) =
    books.begun.map (fun d => (d.callback, d.context)) ++ next.flatMap runs
  accepted : books'.accepted.map (·.key) = books.accepted.map (·.key) ++ next.flatMap promises

variable {books : Ledger}

/-- Nothing need be entered of a job that leads to nothing. -/
theorem entered_nothing (hout : books.outstanding.Perm (tasks g'))
    (hclosed : books.closed = g'.shutDown) (htakes : next.flatMap takes = [])
    (hruns : next.flatMap runs = []) (hpromises : next.flatMap promises = []) :
    Entered books books g' next := by
  refine ⟨?_, hclosed, ?_, ?_⟩
  · rw [htakes, List.append_nil]
    exact hout
  · rw [hruns, List.append_nil]
  · rw [hpromises, List.append_nil]

/-- A task that is about to be given to the scheduler is the only one of its key. -/
theorem free_of_held (hsingle : g.pending.Nodup)
    (hheld : g.pending.Perm ((tasks g).map (·.key) ++ [d.key]))
    (hout : books.outstanding.Perm (tasks g)) (hopen : books.closed = false) :
    books.Free d.key := by
  refine ⟨hopen, fun o ho hkey => ?_⟩
  have hnodup : ((tasks g).map (·.key) ++ [d.key]).Nodup := hheld.nodup_iff.mp hsingle
  have hmem : o.key ∈ (tasks g).map (·.key) := List.mem_map_of_mem (hout.mem_iff.mp ho)
  exact (List.nodup_append.mp hnodup).2.2 o.key hmem d.key List.mem_cons_self hkey

/-- The entries of a job may come, and what it leads to is entered. -/
theorem Served.posted (h : Served offered g job g' next told)
    (hsingle : g.pending.Nodup) (hheld : g.pending.Perm ((tasks g).map (·.key) ++ holds job))
    (hout : books.outstanding.Perm (tasks g ++ takes job)) (hclosed : books.closed = g.shutDown) :
    ∃ books', books.postAll told = some books' ∧ Entered books books' g' next := by
  have hwaiting : takes job = [] → books.outstanding.Perm (tasks g) := by
    intro hnone
    rw [hnone, List.append_nil] at hout
    exact hout
  -- each way is an entry of its own: two accept, one refuses, one begins and one shuts
  cases h with
  | queues d caller hdown =>
    have hfree := free_of_held hsingle hheld (hwaiting rfl) (hclosed.trans hdown)
    refine ⟨_, (books.postAll_singleton _).trans (Ledger.post_accepted.mpr ⟨hfree, rfl⟩), ?_,
      hclosed, (List.append_nil _).symm, List.map_append⟩
    show (books.outstanding ++ [d]).Perm (tasks (g.queued d) ++ [])
    rw [tasks_queued, List.append_nil]
    exact (hwaiting rfl).append_right [d]
  | seizes d caller hdown =>
    have hfree := free_of_held hsingle hheld (hwaiting rfl) (hclosed.trans hdown)
    exact ⟨_, (books.postAll_singleton _).trans (Ledger.post_accepted.mpr ⟨hfree, rfl⟩),
      (hwaiting rfl).append_right [d], hclosed, (List.append_nil _).symm, List.map_append⟩
  | refuses d caller warning hdown =>
    have hfree := free_of_held hsingle hheld (hwaiting rfl) (hclosed.trans hdown)
    refine ⟨books, (books.postAll_singleton _).trans (Ledger.post_refused.mpr ⟨hfree, rfl⟩), ?_⟩
    cases warning <;> exact entered_nothing (hwaiting rfl) hclosed rfl rfl rfl
  | begins d =>
    have hmem : d ∈ books.outstanding :=
      hout.mem_iff.mpr (List.mem_append_right _ List.mem_cons_self)
    refine ⟨_, (books.postAll_singleton _).trans (Ledger.post_begun.mpr ⟨hmem, rfl⟩), ?_, hclosed,
      List.map_append, (List.append_nil _).symm⟩
    show (books.outstanding.erase d).Perm (tasks g ++ [])
    -- what begins is taken off what is outstanding
    have hlast : (tasks g ++ [d]).Perm (d :: tasks g) := List.perm_append_singleton d _
    have herased := (hout.trans hlast).erase d
    rw [List.erase_cons_head] at herased
    rw [List.append_nil]
    exact herased
  | closes hdown =>
    have hopen := hclosed.trans hdown
    exact ⟨_, (books.postAll_singleton _).trans (Ledger.post_shut.mpr ⟨hopen, rfl⟩), .refl _, rfl,
      (List.append_nil _).symm, (List.append_nil _).symm⟩
  | asks r context =>
    obtain ⟨-, htakes, hruns, hpromises⟩ := nothing_of_demanded (ρ := ρ) (offered context r)
    refine ⟨books, rfl, entered_nothing (hwaiting rfl) hclosed ?_ ?_ ?_⟩
    · exact (List.flatMap_singleton _ _).trans htakes
    · exact (List.flatMap_singleton _ _).trans hruns
    · exact (List.flatMap_singleton _ _).trans hpromises
  | idles hidle _ hrests =>
    obtain ⟨⟨-, htakes, hruns⟩, hpromises⟩ := nothing_of_resting hrests
    have hnone := (nothing_of_idle hidle).2
    exact ⟨books, rfl, entered_nothing (hwaiting hnone) hclosed htakes hruns hpromises⟩
  | _ => exact ⟨books, rfl, entered_nothing (hwaiting rfl) hclosed rfl rfl rfl⟩

/-- What is so of a desk, of the jobs that are left and of what was entered, at every moment. -/
structure Kept (log : List Posting) (s : Desk) (jobs : List (Job ρ)) (g : Debouncer)
    (books : Ledger) : Prop where
  debouncer : s.debouncer = some g
  posted : Ledger.blank.postAll log = some books
  steady : Steady g jobs
  outstanding : books.outstanding.Perm (tasks g ++ jobs.flatMap takes)
  closed : books.closed = g.shutDown
  /-- What ran, or is about to, is what has begun. -/
  ran : s.journal.ran ++ jobs.flatMap runs = books.begun.map fun d => (d.callback, d.context)
  /-- What was answered with true, or is about to be, is what was accepted. -/
  granted : (s.journal.granted ++ jobs.flatMap promises).Perm (books.accepted.map (·.key))

variable {log : List Posting} {desk : Desk} {p q : Pool Desk (Job ρ)}

/-- Every job keeps it so. -/
theorem Kept.perform {done : Done Desk (Job ρ)} (h : Kept log desk (job :: rest) g books)
    (hdone : (serving offered behaviour).perform job desk = some done) :
    done.spawned = [] ∧
      ∃ g' books', Kept (log ++ postings g job) done.state (done.next ++ rest) g' books' := by
  obtain ⟨hspawned, hran, hgranted, g', hg', hserved⟩ := perform_served hdone h.debouncer
  obtain ⟨hholds, htakes, hruns⟩ := nothing_of_quiet h.steady.behind
  change rest.flatMap holds = [] at hholds
  change rest.flatMap takes = [] at htakes
  change rest.flatMap runs = [] at hruns
  have hheld := h.steady.held
  have hout := h.outstanding
  have hran' := h.ran
  have hgranted' := h.granted
  rw [List.flatMap_cons, hholds, List.append_nil] at hheld
  rw [List.flatMap_cons, htakes, List.append_nil] at hout
  rw [List.flatMap_cons, hruns, List.append_nil, ← hran] at hran'
  rw [List.flatMap_cons, ← List.append_assoc, ← hgranted] at hgranted'
  obtain ⟨books', hposted, hentered⟩ := hserved.posted h.steady.single hheld hout h.closed
  refine ⟨hspawned, g', books', hg', ?posted, hserved.steady h.steady, ?outstanding,
    hentered.closed, ?ran, ?granted⟩
  case posted =>
    rw [Ledger.postAll_append, h.posted]
    exact hposted
  case outstanding =>
    rw [List.flatMap_append, htakes, List.append_nil]
    exact hentered.outstanding
  case ran => rw [List.flatMap_append, hruns, List.append_nil, hentered.begun, ← hran']
  case granted =>
    rw [List.flatMap_append, hentered.accepted]
    -- what is promised now comes before what was promised earlier
    have hswap : (done.next.flatMap promises ++ rest.flatMap promises).Perm
        (rest.flatMap promises ++ done.next.flatMap promises) := List.perm_append_comm
    refine (hswap.append_left _).trans ?_
    rw [← List.append_assoc]
    exact hgranted'.append_right _

/-- What is so of the whole pool: one thread is at work, or none. -/
def Orderly (log : List Posting) (p : Pool Desk (Job ρ)) : Prop :=
  p.threads.length ≤ 1 ∧ ∃ g books, Kept log p.state p.jobs g books

/-- The only thread that there is makes a step. -/
theorem step_of_alone {i : Nat} {m : Machine Desk (Job ρ)} (hp : p.threads.length ≤ 1)
    (hstep : p.step m i = some q) :
    ∃ job rest done, p.threads[i]? = some (job :: rest) ∧ p.jobs = job :: rest ∧
      m.perform job p.state = some done ∧
      q = ⟨done.state, (done.next ++ rest) :: done.spawned⟩ := by
  obtain ⟨job, rest, done, hi, hdone, rfl⟩ := Pool.step_eq_some hstep
  obtain ⟨hlt, hget⟩ := List.getElem?_eq_some_iff.mp hi
  obtain ⟨thread, hthread⟩ := List.length_eq_one_iff.mp (show p.threads.length = 1 by omega)
  obtain rfl : i = 0 := by omega
  have hwhole : p.threads = [job :: rest] := by
    rw [hthread] at hi ⊢
    exact congrArg (fun thread => [thread]) (Option.some.inj hi)
  refine ⟨job, rest, done, hi, ?_, hdone, ?_⟩
  · unfold Pool.jobs
    rw [hwhole, List.flatten_singleton]
  · rw [hwhole]
    rfl

theorem Orderly.step {i : Nat} (hp : Orderly log p)
    (hstep : p.step (serving offered behaviour) i = some q) :
    Orderly (log ++ Setting.noted entries (.job i : Move Occasion) p) q := by
  obtain ⟨halone, g, books, hkept⟩ := hp
  obtain ⟨job, rest, done, hi, hjobs, hdone, rfl⟩ := step_of_alone halone hstep
  rw [hjobs] at hkept
  obtain ⟨hspawned, g', books', hkept'⟩ := hkept.perform hdone
  have hnoted : Setting.noted entries (.job i : Move Occasion) p = postings g job := by
    rw [Setting.noted_job hi, entries, hkept.debouncer]
    rfl
  rw [hspawned, hnoted]
  refine ⟨Nat.le_refl 1, g', books', ?_⟩
  show Kept _ done.state [done.next ++ rest].flatten g' books'
  rw [List.flatten_singleton]
  exact hkept'

/-! ### What comes from outside -/

/-- The debouncer after one of the tasks that wait was taken up. -/
def taken (g : Debouncer) (n : Nat) (w : Waiting Dispatch) : Debouncer :=
  { g with
    scheduler := { g.scheduler with
      now := max g.scheduler.now w.due
      waiting := g.scheduler.waiting.eraseIdx n } }

theorem tasks_taken {n : Nat} {w : Waiting Dispatch} (hw : g.scheduler.waiting[n]? = some w) :
    (tasks g).Perm (tasks (taken g n w) ++ [w.task]) := by
  obtain ⟨hlt, hget⟩ := List.getElem?_eq_some_iff.mp hw
  have hperm : g.scheduler.waiting.Perm (g.scheduler.waiting.eraseIdx n ++ [w]) := by
    rw [← hget]
    exact (List.getElem_cons_eraseIdx_perm hlt).symm.trans (List.perm_append_singleton _ _).symm
  have hmapped := hperm.map (·.task)
  rw [List.map_append] at hmapped
  exact hmapped

/-- A job that has nothing in hand may be the first of a thread. -/
theorem Kept.begin (h : Kept log desk ([] : List (Job ρ)) g books)
    (hjob : holds job = [] ∧ takes job = [] ∧ runs job = [] ∧ promises job = []) :
    Kept log desk [job] g books := by
  obtain ⟨hholds, htakes, hruns, hpromises⟩ := hjob
  refine ⟨h.debouncer, h.posted,
    ⟨by simp, ?_, h.steady.single, ?_, h.steady.together, h.steady.empty⟩, ?_, h.closed, ?_, ?_⟩
  · exact fun hlocked => absurd (h.steady.locked hlocked) List.not_mem_nil
  · rw [List.flatMap_singleton, hholds]
    exact h.steady.held
  · rw [List.flatMap_singleton, htakes]
    exact h.outstanding
  · rw [List.flatMap_singleton, hruns]
    exact h.ran
  · rw [List.flatMap_singleton, hpromises]
    exact h.granted

/-- A task that is taken up is in hand then, and waits no more. -/
theorem Kept.take {n : Nat} {w : Waiting Dispatch} (h : Kept log desk ([] : List (Job ρ)) g books)
    (hw : g.scheduler.waiting[n]? = some w) :
    Kept log { desk with debouncer := some (taken g n w) } [(.begin w.task : Job ρ)]
      (taken g n w) books := by
  have htasks := tasks_taken hw
  refine ⟨rfl, h.posted, ⟨by simp, ?_, h.steady.single, ?_, h.steady.together, ?_⟩, ?_, h.closed,
    h.ran, h.granted⟩
  · exact fun hlocked => absurd (h.steady.locked hlocked) List.not_mem_nil
  · have hkeys := htasks.map (·.key)
    rw [List.map_append] at hkeys
    have hheld := h.steady.held
    rw [List.flatMap_nil, List.append_nil] at hheld
    exact hheld.trans hkeys
  · intro hdown
    rw [h.steady.empty hdown] at hw
    exact absurd hw (by simp)
  · have hout := h.outstanding
    rw [List.flatMap_nil, List.append_nil] at hout
    exact hout.trans htasks

theorem Kept.policy {jobs : List (Job ρ)} (h : Kept log desk jobs g books) (policy : Policy) :
    Kept log (withPolicy policy desk) jobs
      { g with scheduler := { g.scheduler with policy } } books := by
  refine ⟨?_, h.posted, ⟨h.steady.behind, h.steady.locked, h.steady.single, h.steady.held,
    h.steady.together, h.steady.empty⟩, h.outstanding, h.closed, h.ran, h.granted⟩
  show desk.debouncer.map _ = _
  rw [h.debouncer]
  rfl

theorem Orderly.occur {e : Occasion} (hp : Orderly log p) (h : occur e p = some q) :
    Orderly log q := by
  obtain ⟨halone, g, books, hkept⟩ := hp
  have hthread : ∀ {desk : Desk} {job : Job ρ} {g : Debouncer}, Kept log desk [job] g books →
      Orderly log ⟨desk, [[job]]⟩ := fun hkept => ⟨Nat.le_refl 1, _, books, hkept⟩
  cases e with
  | offer d =>
    obtain ⟨hidle, hthere⟩ := Option.ite_none_right_eq_some.mp h
    obtain rfl := Option.some.inj hthere
    rw [List.isEmpty_iff.mp hidle] at hkept
    exact hthread (hkept.begin ⟨rfl, rfl, rfl, rfl⟩)
  | fire n =>
    obtain ⟨hidle, htake⟩ := Option.ite_none_right_eq_some.mp h
    obtain ⟨r, hr, rfl⟩ := Option.map_eq_some_iff.mp htake
    obtain ⟨g₁, w, hg₁, hw, rfl⟩ := Stopping.takeUp?_eq_some hr
    obtain rfl := Option.some.inj (hkept.debouncer.symm.trans hg₁)
    rw [List.isEmpty_iff.mp hidle] at hkept
    exact hthread (hkept.take hw)
  | shutdown =>
    obtain ⟨hidle, hthere⟩ := Option.ite_none_right_eq_some.mp h
    obtain rfl := Option.some.inj hthere
    rw [List.isEmpty_iff.mp hidle] at hkept
    exact hthread (hkept.begin ⟨rfl, rfl, rfl, rfl⟩)
  | policy policy =>
    obtain ⟨-, hthere⟩ := Option.ite_none_right_eq_some.mp h
    obtain rfl := Option.some.inj hthere
    exact ⟨halone, _, books, hkept.policy policy⟩

theorem orderly_fresh (delay : Duration) (policy : Policy) :
    Orderly [] (fresh delay policy : Pool Desk (Job ρ)) := by
  refine ⟨Nat.zero_le _, .new delay policy, .blank, ?_⟩
  show Kept [] (fresh delay policy : Pool Desk (Job ρ)).state [] _ _
  exact ⟨rfl, rfl, ⟨by simp, by simp [Debouncer.new], List.nodup_nil, .refl _, rfl, fun _ => rfl⟩,
    .refl _, rfl, rfl, .refl _⟩

theorem run_orderly {delay : Duration} {policy : Policy} {moves : List (Move Occasion)}
    (hrun : (setting offered behaviour).run? moves (fresh delay policy) = some p) :
    Orderly ((setting offered behaviour).log entries moves (fresh delay policy)) p := by
  have hmove : ∀ log p a q, Orderly log p → (setting offered behaviour).move a p = some q →
      Orderly (log ++ Setting.noted entries a p) q := by
    intro log p a q hp hmove
    cases a with
    | job i => exact hp.step hmove
    | outside e =>
      rw [Setting.noted_outside, List.append_nil]
      exact hp.occur hmove
  exact Setting.preserved_log hmove (orderly_fresh delay policy) hrun

/-- Every offer that a thread makes now is answered in one of these ways. -/
def AnswersOffers (offered : Context → ρ → Option Dispatch) (behaviour : Behaviour ρ) (s : Desk)
    (g : Debouncer) : Prop :=
  ∀ (d : Dispatch) (caller : Caller) (rest : List (Job ρ)),
    ((g.scheduler.schedule g.delay d).1 = .immediate →
      (behaviour s.journal.notes.length d.callback d.context).requests = []) →
    ∃ done journal' g' notes, Advances (serving offered behaviour) (.offer d caller :: rest) s done
      rest ⟨some g', journal'⟩ ∧
      journal'.notes = s.journal.notes ++ notes ∧ Answered g d caller g' notes

/-- Every task that waits can be taken up: it waits no more then, its key is freed, and its
callback runs once. -/
def TakesUp (offered : Context → ρ → Option Dispatch) (behaviour : Behaviour ρ)
    (p : Pool Desk (Job ρ)) (g : Debouncer) : Prop :=
  ∀ n w, p.jobs = [] → g.scheduler.waiting[n]? = some w →
    ∃ q, (setting offered behaviour).move (.outside (.fire n)) p = some q ∧
      q.threads = [[.begin w.task]] ∧
      Advances (serving offered behaviour) [.begin w.task] q.state
        [.begin w.task, .call w.task.callback w.task.context .modifyPanicked]
        (aftermath (behaviour p.state.journal.notes.length w.task.callback w.task.context)
          w.task.context .modifyPanicked)
        ⟨some ((taken g n w).release w.task.key),
          p.state.journal.note (.ran w.task.callback w.task.context)⟩

theorem takesUp_of (hg : p.state.debouncer = some g) : TakesUp offered behaviour p g := by
  intro n w hjobs hw
  have htake : Stopping.takeUp? p.state n =
      some (w.task, { p.state with debouncer := some (taken g n w) }) := by
    unfold Stopping.takeUp?
    rw [hg]
    show (g.scheduler.waiting[n]?.bind _) = _
    rw [hw]
    rfl
  refine ⟨⟨{ p.state with debouncer := some (taken g n w) }, [[.begin w.task]]⟩, ?_, rfl, ?_⟩
  · show (if p.jobs.isEmpty then _ else none) = _
    rw [if_pos (List.isEmpty_iff.mpr hjobs), htake]
    rfl
  · have hbegin := @advances_begin ρ [] offered behaviour (taken g n w) w.task p.state.journal
    rw [List.append_nil] at hbegin
    exact hbegin

/-! ### Between two steps -/

/-- The books are balanced. -/
structure Balanced (log : List Posting) (p : Pool Desk (Job ρ)) (g : Debouncer)
    (books : Ledger) : Prop where
  debouncer : p.state.debouncer = some g
  unlocked : g.locked = false
  /-- Every entry may come where it came. -/
  posted : Ledger.blank.postAll log = some books
  /-- The tasks that were accepted and have not begun are those that wait. -/
  waiting : books.outstanding.Perm (tasks g)
  distinct : (books.outstanding.map (·.key)).Nodup
  pending : ∀ key, g.isPending key = true ↔ ∃ d ∈ books.outstanding, d.key = key
  count : p.state.pendingCount = books.outstanding.length
  /-- A task that was accepted has begun, waits, or was dropped. -/
  accounted : books.accepted.Perm (books.begun ++ books.outstanding ++ books.dropped)
  /-- The callbacks that ran are those of the tasks that have begun. -/
  ran : p.state.journal.ran = books.begun.map fun d => (d.callback, d.context)
  /-- The offers answered with true are those of the tasks that were accepted. -/
  granted : p.state.journal.granted.Perm (books.accepted.map (·.key))
  total : p.state.journal.granted.length =
    p.state.journal.ran.length + g.scheduler.waiting.length + books.dropped.length
  shut : g.shutDown = true ↔ .shut ∈ log
  closed : g.shutDown = true → g.pending = [] ∧ g.scheduler.waiting = []
  /-- The scheduler is given nothing after it was shut down. -/
  silent : ∀ front back, log = front ++ .shut :: back → back = []

theorem Kept.balanced (h : Kept log p.state p.jobs g books) (hrest : Resting p) :
    Balanced log p g books := by
  -- jobs at rest hold nothing, so what was shared between them and the desk is the desk's
  obtain ⟨⟨hholds, htakes, hruns⟩, hpromises⟩ := nothing_of_resting hrest
  have hheld := h.steady.held
  have hwaiting := h.outstanding
  have hran := h.ran
  have hgranted := h.granted
  rw [hholds, List.append_nil] at hheld
  rw [htakes, List.append_nil] at hwaiting
  rw [hruns, List.append_nil] at hran
  rw [hpromises, List.append_nil] at hgranted
  have hpending : g.pending.Perm (books.outstanding.map (·.key)) :=
    hheld.trans (hwaiting.map _).symm
  have hsound := Ledger.sound_blank.postAll h.posted
  refine ⟨h.debouncer, ?unlocked, h.posted, hwaiting, hpending.nodup_iff.mp h.steady.single,
    ?pending, ?count, hsound.accounted, hran, hgranted, ?total, ?shut, ?closed,
    fun front back => Ledger.shut_is_last Ledger.sound_blank h.posted⟩
  case unlocked =>
    cases hlocked : g.locked with
    | false => rfl
    | true => exact absurd (hrest _ (h.steady.locked hlocked)) (by simp [rests])
  case pending =>
    intro key
    show decide (key ∈ g.pending) = true ↔ _
    rw [decide_eq_true_iff, hpending.mem_iff, List.mem_map]
  case count =>
    show p.state.debouncer.elim 0 _ = _
    rw [h.debouncer]
    exact hpending.length_eq.trans (List.length_map _)
  case total =>
    have haccounted := hsound.accounted.length_eq
    have hwaits := hwaiting.length_eq
    rw [List.length_append, List.length_append] at haccounted
    rw [tasks, List.length_map] at hwaits
    rw [hgranted.length_eq, hran, List.length_map, List.length_map]
    omega
  case shut =>
    rw [← h.closed, Ledger.closed_iff h.posted]
    simp [Ledger.blank]
  case closed =>
    intro hdown
    have hempty := h.steady.empty hdown
    rw [tasks, hempty] at hheld
    exact ⟨hheld.eq_nil, hempty⟩

/-- In every sequence of offers, of tasks that are taken up and of shutdowns, with what callbacks
ask for, and whatever the scheduler does with each task: between two steps the books are balanced,
every offer is answered, and every task that waits can be taken up. -/
theorem books_are_kept {delay : Duration} {policy : Policy} {moves : List (Move Occasion)}
    (hrun : (setting offered behaviour).run? moves (fresh delay policy) = some p)
    (hrest : Resting p) :
    ∃ g books, Balanced ((setting offered behaviour).log entries moves (fresh delay policy)) p g
        books ∧
      AnswersOffers offered behaviour p.state g ∧ TakesUp offered behaviour p g := by
  obtain ⟨-, g, books, hkept⟩ := run_orderly hrun
  have hbalanced := hkept.balanced hrest
  have hdesk : p.state = ⟨some g, p.state.journal⟩ := by
    rw [← hbalanced.debouncer]
  refine ⟨g, books, hbalanced, ?_, takesUp_of hbalanced.debouncer⟩
  intro d caller rest hinline
  rw [hdesk]
  exact offer_answered hbalanced.unlocked d caller rest hinline

/-- An offer is refused, one is run at once by a callback that panics, and one is queued, which
another one falls in with.  When the task is taken up, its callback makes an offer under the same
key.  One more offer is queued, and the shutdown drops both; what is offered after that is
declined. -/
theorem books_of_a_day :
    let context : Context := ⟨.modify, ⟨[120]⟩, false⟩
    let offer (key : String) (callback : Nat) : Move Occasion :=
      .outside (.offer ⟨key, context, ⟨callback⟩⟩)
    let treats (policy : Policy) : Move Occasion := .outside (.policy policy)
    let jobs (n : Nat) : List (Move Occasion) := List.replicate n (.job 0)
    let behaviour : Behaviour Plea := fun _ callback _ =>
      if callback = ⟨1⟩ then ⟨[.offer "x" ⟨0⟩], false⟩ else ⟨[], true⟩
    let moves : List (Move Occasion) :=
      [treats (.refusing .closed), offer "x" 0] ++ jobs 4 ++
        [treats .immediate, offer "y" 0] ++ jobs 7 ++
        [treats .queueing, offer "x" 1] ++ jobs 3 ++ [offer "x" 0] ++ jobs 2 ++
        [.outside (.fire 0)] ++ jobs 6 ++ [offer "z" 0] ++ jobs 3 ++
        [.outside .shutdown] ++ jobs 1 ++ [offer "x" 0] ++ jobs 3
    let start := fresh ⟨5⟩ .queueing
    let log := (setting pleaded behaviour).log entries moves start
    ∃ p, (setting pleaded behaviour).run? moves start = some p ∧ Resting p ∧
      ∃ g books, Balanced log p g books ∧
        AnswersOffers pleaded behaviour p.state g ∧ TakesUp pleaded behaviour p g ∧
        books.accepted.map (·.key) = ["y", "x", "x", "z"] ∧
        books.begun.map (·.key) = ["y", "x"] ∧ books.dropped.map (·.key) = ["x", "z"] ∧
        g.shutDown = true := by
  intro context offer treats jobs behaviour moves start log
  have hend : ((setting pleaded behaviour).run? moves start).map (fun p => p.jobs) = some [] := by
    decide +kernel
  obtain ⟨p, hp, hjobs⟩ := Option.map_eq_some_iff.mp hend
  have hrest : Resting p := by
    unfold Resting
    rw [hjobs]
    exact fun job hmem => absurd hmem List.not_mem_nil
  obtain ⟨g, books, hbalanced, hanswers, htakes⟩ := books_are_kept hp hrest
  have hbooks : (Ledger.blank.postAll log).map (fun books => (books.accepted.map (·.key),
      books.begun.map (·.key), books.dropped.map (·.key))) =
      some (["y", "x", "x", "z"], ["y", "x"], ["x", "z"]) := by
    decide +kernel
  rw [hbalanced.posted] at hbooks
  obtain ⟨haccepted, hbooks⟩ := Prod.mk.inj (Option.some.inj hbooks)
  obtain ⟨hbegun, hdropped⟩ := Prod.mk.inj hbooks
  have hshut : .shut ∈ log := by decide +kernel
  exact ⟨p, hp, hrest, g, books, hbalanced, hanswers, htakes, haccepted, hbegun, hdropped,
    hbalanced.shut.mpr hshut⟩

end ChangeWatch.Desk.Bookkeeping
