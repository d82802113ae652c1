import ChangeWatch.Dispatch.Desk

/-!
# Shutting a desk down

A desk whose debouncer is shut down accepts nothing and has nothing that waits
(`Desk.Shut`), and whatever job is done at it, it stays so and no dispatch is
taken up because of it (`perform_of_shut`).  That a shutdown leads there rests on
what every job keeps: a debouncer that is shut down has nothing that waits
(`Desk.Tidy`).  Its scheduler is told so once (`Desk.Single`).

What a job can do to a debouncer at all is said by `Desk.Operates`, and everything
else follows from its cases.
-/

namespace ChangeWatch.Desk

variable {ρ : Type} {behaviour : Behaviour ρ} {desk desk' : Desk} {job : Job ρ}
  {next : List (Job ρ)}

/-- The debouncer, if there is one, is not shut down. -/
def Open (desk : Desk) : Prop :=
  ∀ g, desk.debouncer = some g → g.shutDown = false

/-- The debouncer, if there is one, is shut down, and nothing waits. -/
def Shut (desk : Desk) : Prop :=
  ∀ g, desk.debouncer = some g → g.shutDown = true ∧ g.scheduler.waiting = []

/-- If the debouncer is shut down, nothing waits. -/
def Tidy (desk : Desk) : Prop :=
  ∀ g, desk.debouncer = some g → g.shutDown = true → g.scheduler.waiting = []

/-- The scheduler was shut down once if the debouncer is shut down, and else never. -/
def Single (desk : Desk) : Prop :=
  ∀ g, desk.debouncer = some g → g.scheduler.shutdowns = g.shutDown.toNat

/-- How many dispatches the scheduler accepted so far. -/
def accepted (desk : Desk) : Nat :=
  desk.debouncer.elim 0 fun g => g.scheduler.accepted

/-- A job that has nothing to do with windows. -/
def Job.idle : Job ρ → Bool
  | .offer .. | .commit .. | .begin _ | .shutdown => false
  | _ => true

/-- The job takes up a dispatch. -/
def Job.isBegin : Job ρ → Bool
  | .begin _ => true
  | _ => false

theorem Open.tidy (h : desk.Open) : desk.Tidy := by
  intro g hg hshut
  rw [h g hg] at hshut
  exact absurd hshut (by simp)

/-! ### The debouncer -/

/-- A debouncer that is shut down accepts nothing. -/
theorem commit_of_shutDown {g : Debouncer} (h : g.shutDown = true) (d : Dispatch) :
    g.commit d = (.declined none, g.release d.key) := by
  unfold Debouncer.commit
  rw [if_pos h]

/-- Giving a dispatch to the scheduler shuts nothing down. -/
theorem commit_shutDown (g : Debouncer) (d : Dispatch) :
    (g.commit d).2.shutDown = g.shutDown := by
  unfold Debouncer.commit
  split
  · rfl
  · split <;> rfl

/-- Giving a dispatch to the scheduler does not shut that down either. -/
theorem commit_shutdowns (g : Debouncer) (d : Dispatch) :
    (g.commit d).2.scheduler.shutdowns = g.scheduler.shutdowns := by
  have hschedule : (g.scheduler.schedule g.delay d).2.shutdowns = g.scheduler.shutdowns := by
    unfold Scheduler.schedule
    split
    · rfl
    · split
      · rfl
      · split <;> rfl
      · rfl
      · rfl
  unfold Debouncer.commit
  split
  · rfl
  · split <;> next heq => rw [heq] at hschedule; exact hschedule

/-- What waits once a dispatch was given to the scheduler waited before, or is that
dispatch. -/
theorem mem_commit {g : Debouncer} {d : Dispatch} {x : Waiting Dispatch}
    (h : x ∈ (g.commit d).2.scheduler.waiting) : x ∈ g.scheduler.waiting ∨ x.task = d := by
  have hschedule : ∀ y ∈ (g.scheduler.schedule g.delay d).2.waiting,
      y ∈ g.scheduler.waiting ∨ y.task = d := by
    have hqueued : ∀ y ∈ (g.scheduler.enqueue g.delay d).waiting,
        y ∈ g.scheduler.waiting ∨ y.task = d := by
      intro y hy
      rcases List.mem_append.mp hy with hy | hy
      · exact Or.inl hy
      · rw [List.mem_singleton.mp hy]
        exact Or.inr rfl
    unfold Scheduler.schedule
    split
    · exact fun y hy => Or.inl hy
    · split
      · exact hqueued
      · split
        · exact hqueued
        · exact fun y hy => Or.inl hy
      · exact fun y hy => Or.inl hy
      · exact fun y hy => Or.inl hy
  unfold Debouncer.commit at h
  split at h
  · exact Or.inl h
  · split at h <;> next heq => rw [heq] at hschedule; exact hschedule x h

/-- What a job does to a debouncer, and what is next.  A job that has to wait for the lock is not
among these. -/
inductive Operates (g : Debouncer) : Job ρ → Debouncer → List (Job ρ) → Prop
  /-- The window of the key is open. -/
  | fallsIn (d : Dispatch) (caller : Caller) : d.key ∈ g.pending →
      Operates g (.offer d caller) g [.answer d.key false caller]
  | opens (d : Dispatch) (caller : Caller) : d.key ∉ g.pending →
      Operates g (.offer d caller) { g with pending := g.pending ++ [d.key] } [.commit d caller]
  | commits (d : Dispatch) (caller : Caller) :
      Operates g (.commit d caller) (g.commit d).2 (afterCommit d caller (g.commit d).1)
  | begins (d : Dispatch) :
      Operates g (.begin d) (g.begin d) [.call d.callback d.context .modifyPanicked]
  | unlocks : Operates g .unlock g.unlock []
  | closes : g.shutDown = false →
      Operates g .shutdown
        { g with shutDown := true, scheduler := g.scheduler.shutdown, pending := [] } []
  | remains : g.shutDown = true → Operates g .shutdown g []
  /-- The journal is told, or it is left to those who use the desk. -/
  | idles {job : Job ρ} : job.idle = true → job ≠ .unlock → Operates g job g []

theorem operate_operates {g g' : Debouncer} (h : operate g job = some (g', next)) :
    Operates g job g' next := by
  cases job with
  | offer d caller =>
    simp only [operate, Debouncer.open?] at h
    by_cases hpending : d.key ∈ g.pending
    · rw [if_pos hpending] at h
      obtain ⟨rfl, rfl⟩ := Prod.mk.inj (Option.some.inj h)
      exact .fallsIn d caller hpending
    · rw [if_neg hpending] at h
      obtain ⟨rfl, rfl⟩ := Prod.mk.inj (Option.some.inj h)
      exact .opens d caller hpending
  | commit d caller =>
    simp only [operate] at h
    split at h
    · exact absurd h (by simp)
    · obtain ⟨rfl, rfl⟩ := Prod.mk.inj (Option.some.inj h)
      exact .commits d caller
  | begin d =>
    obtain ⟨rfl, rfl⟩ := Prod.mk.inj (Option.some.inj h)
    exact .begins d
  | unlock =>
    obtain ⟨rfl, rfl⟩ := Prod.mk.inj (Option.some.inj h)
    exact .unlocks
  | shutdown =>
    simp only [operate, Debouncer.shutdown] at h
    split at h
    · exact absurd h (by simp)
    · cases hdown : g.shutDown with
      | true =>
        rw [if_pos hdown] at h
        obtain ⟨rfl, rfl⟩ := Prod.mk.inj (Option.some.inj h)
        exact .remains hdown
      | false =>
        rw [if_neg (by rw [hdown]; simp)] at h
        obtain ⟨rfl, rfl⟩ := Prod.mk.inj (Option.some.inj h)
        exact .closes hdown
  | _ =>
    obtain ⟨rfl, rfl⟩ := Prod.mk.inj (Option.some.inj h)
    exact .idles rfl (by simp)

/-- A job shuts the scheduler down as often as it shuts the debouncer down. -/
theorem operate_shutdowns {g g' : Debouncer} (h : operate g job = some (g', next)) :
    g'.scheduler.shutdowns + g.shutDown.toNat = g.scheduler.shutdowns + g'.shutDown.toNat := by
  cases operate_operates h with
  | commits d caller => rw [commit_shutdowns, commit_shutDown]
  | closes hopen =>
    rw [hopen]
    rfl
  | _ => rfl

/-- What a job does to a debouncer that is shut down: it stays shut down, nothing is
given to the scheduler, and no dispatch is taken up. -/
theorem operate_of_shutDown {g g' : Debouncer} (hg : g.shutDown = true)
    (h : operate g job = some (g', next)) :
    g'.shutDown = true ∧ g'.scheduler = g.scheduler ∧ ∀ j ∈ next, j.isBegin = false := by
  cases operate_operates h with
  | commits d caller =>
    rw [commit_of_shutDown hg]
    exact ⟨hg, rfl, by simp [afterCommit, Job.isBegin]⟩
  | closes hopen => exact absurd (hopen.symm.trans hg) (by simp)
  | _ => exact ⟨hg, rfl, by simp [Job.isBegin]⟩

/-- What a job does to a debouncer that is not shut down: only a shutdown shuts it
down, and then nothing waits. -/
theorem operate_of_open {g g' : Debouncer} (hg : g.shutDown = false)
    (h : operate g job = some (g', next)) :
    (job = .shutdown ∧ g'.shutDown = true ∧ g'.scheduler.waiting = []) ∨
      (job ≠ .shutdown ∧ g'.shutDown = false) := by
  cases operate_operates h with
  | commits d caller => exact Or.inr ⟨by simp, (commit_shutDown g d).trans hg⟩
  | closes => exact Or.inl ⟨rfl, rfl, rfl⟩
  | remains hdown => exact absurd (hg.symm.trans hdown) (by simp)
  | idles hidle =>
    refine Or.inr ⟨?_, hg⟩
    rintro rfl
    exact absurd hidle (by simp [Job.idle])
  | _ => exact Or.inr ⟨by simp, hg⟩

/-- No job leads to a shutdown, except by what a callback asks for. -/
theorem operate_next {g g' : Debouncer} (h : operate g job = some (g', next)) :
    Job.shutdown ∉ next := by
  cases operate_operates h with
  | commits d caller =>
    cases (g.commit d).1 with
    | accepted => simp [afterCommit]
    | immediate => simp [afterCommit]
    | declined warning => cases warning <;> simp [afterCommit]
  | _ => simp

/-! ### The desk -/

theorem record_next (journal : Journal) :
    ∀ j ∈ (record behaviour journal job).2, j.isBegin = false ∧ j ≠ .shutdown := by
  cases job with
  | call c context onPanic =>
    intro j hj
    rcases List.mem_append.mp hj with hj | hj
    · obtain ⟨r, -, rfl⟩ := List.mem_map.mp hj
      exact ⟨rfl, by simp⟩
    · split at hj
      · rw [List.mem_singleton.mp hj]
        exact ⟨rfl, by simp⟩
      · exact absurd hj List.not_mem_nil
  | _ => intro j hj; exact absurd hj List.not_mem_nil

/-- A job is done by the debouncer, if there is one, and noted in the journal. -/
theorem perform_cases (h : perform behaviour job desk = some (desk', next)) :
    (desk.debouncer = none ∧ desk'.debouncer = none ∧
      next = (record behaviour desk.journal job).2) ∨
    ∃ g g' more, desk.debouncer = some g ∧ desk'.debouncer = some g' ∧
      operate g job = some (g', more) ∧ next = (record behaviour desk.journal job).2 ++ more := by
  unfold perform at h
  dsimp only at h
  split at h
  · next hnone =>
    obtain ⟨rfl, rfl⟩ := Prod.mk.inj (Option.some.inj h)
    exact Or.inl ⟨hnone, rfl, rfl⟩
  · next g hg =>
    obtain ⟨r, hr, heq⟩ := Option.map_eq_some_iff.mp h
    obtain ⟨rfl, rfl⟩ := Prod.mk.inj heq
    exact Or.inr ⟨g, r.1, r.2, hg, rfl, hr, rfl⟩

/-- At a desk that is shut nothing is accepted and nothing is taken up. -/
theorem perform_of_shut (h : perform behaviour job desk = some (desk', next)) (hshut : desk.Shut) :
    desk'.Shut ∧ desk'.accepted = desk.accepted ∧ ∀ j ∈ next, j.isBegin = false := by
  rcases perform_cases h with ⟨hnone, hnone', rfl⟩ | ⟨g, g', more, hg, hg', hoperate, rfl⟩
  · refine ⟨?_, ?_, fun j hj => (record_next _ j hj).1⟩
    · intro g hg
      rw [hnone'] at hg
      exact absurd hg (by simp)
    · unfold accepted
      rw [hnone, hnone']
  · obtain ⟨hdown, hempty⟩ := hshut g hg
    obtain ⟨hdown', hscheduler, hmore⟩ := operate_of_shutDown hdown hoperate
    refine ⟨?_, ?_, ?_⟩
    · intro g₁ hg₁
      obtain rfl := Option.some.inj (hg'.symm.trans hg₁)
      exact ⟨hdown', hscheduler ▸ hempty⟩
    · unfold accepted
      rw [hg, hg']
      show g'.scheduler.accepted = g.scheduler.accepted
      rw [hscheduler]
    · intro j hj
      rcases List.mem_append.mp hj with hj | hj
      · exact (record_next _ j hj).1
      · exact hmore j hj

/-- No job shuts a desk down but a shutdown. -/
theorem perform_open (h : perform behaviour job desk = some (desk', next)) (hopen : desk.Open)
    (hjob : job ≠ .shutdown) : desk'.Open := by
  rcases perform_cases h with ⟨-, hnone', -⟩ | ⟨g, g', more, hg, hg', hoperate, -⟩
  · intro g hg
    rw [hnone'] at hg
    exact absurd hg (by simp)
  · intro g₁ hg₁
    obtain rfl := Option.some.inj (hg'.symm.trans hg₁)
    rcases operate_of_open (hopen g hg) hoperate with ⟨heq, -⟩ | ⟨-, hstill⟩
    · exact absurd heq hjob
    · exact hstill

/-- Every job keeps a desk tidy. -/
theorem perform_tidy (h : perform behaviour job desk = some (desk', next)) (htidy : desk.Tidy) :
    desk'.Tidy := by
  rcases perform_cases h with ⟨-, hnone', -⟩ | ⟨g, g', more, hg, hg', hoperate, -⟩
  · intro g hg
    rw [hnone'] at hg
    exact absurd hg (by simp)
  · intro g₁ hg₁ hdown
    obtain rfl := Option.some.inj (hg'.symm.trans hg₁)
    cases hbefore : g.shutDown with
    | true =>
      rw [(operate_of_shutDown hbefore hoperate).2.1]
      exact htidy g hg hbefore
    | false =>
      rcases operate_of_open hbefore hoperate with ⟨-, -, hempty⟩ | ⟨-, hstill⟩
      · exact hempty
      · rw [hstill] at hdown
        exact absurd hdown (by simp)

/-- Whatever job is done, the scheduler is shut down once at most. -/
theorem perform_single (h : perform behaviour job desk = some (desk', next))
    (hsingle : desk.Single) : desk'.Single := by
  rcases perform_cases h with ⟨-, hnone', -⟩ | ⟨g, g', more, hg, hg', hoperate, -⟩
  · intro g hg
    rw [hnone'] at hg
    exact absurd hg (by simp)
  · intro g₁ hg₁
    obtain rfl := Option.some.inj (hg'.symm.trans hg₁)
    have hbefore := hsingle g hg
    have hcount := operate_shutdowns hoperate
    omega

/-- A shutdown shuts a tidy desk. -/
theorem perform_shutdown (h : perform behaviour .shutdown desk = some (desk', next))
    (htidy : desk.Tidy) : desk'.Shut := by
  rcases perform_cases h with ⟨-, hnone', -⟩ | ⟨g, g', more, hg, hg', hoperate, -⟩
  · intro g hg
    rw [hnone'] at hg
    exact absurd hg (by simp)
  · intro g₁ hg₁
    obtain rfl := Option.some.inj (hg'.symm.trans hg₁)
    -- a second shutdown changes nothing
    cases hbefore : g.shutDown with
    | true =>
      obtain ⟨hdown, hscheduler, -⟩ := operate_of_shutDown hbefore hoperate
      exact ⟨hdown, hscheduler ▸ htidy g hg hbefore⟩
    | false =>
      rcases operate_of_open hbefore hoperate with ⟨-, hdown⟩ | ⟨hne, -⟩
      · exact hdown
      · exact absurd rfl hne

/-- No job of the desk is followed by a shutdown. -/
theorem perform_next (h : perform behaviour job desk = some (desk', next)) :
    Job.shutdown ∉ next := by
  intro hmem
  rcases perform_cases h with ⟨-, -, rfl⟩ | ⟨g, g', more, -, -, hoperate, rfl⟩
  · exact (record_next _ _ hmem).2 rfl
  · rcases List.mem_append.mp hmem with hmem | hmem
    · exact (record_next _ _ hmem).2 rfl
    · exact operate_next hoperate hmem

end ChangeWatch.Desk
