import ChangeWatch.Work.Pool

/-!
# One thread, from its first job to its end

`Runs m jobs s log t` says that a thread with the given jobs, alone with the
state `s`, comes to its end with the state `t`, starts no other thread on the
way, and does exactly the jobs of `log`, in this order.  What follows a job is
done before the rest of the thread, so a run is read off the thread from the
left, and runs of two parts of a thread make up a run of both (`Runs.append`).

There is at most one run (`Runs.unique`), and it is what `Pool.runThread` and
`Pool.call` do if they are given enough steps.

`Advances m jobs s log left t` is the first part of a run, up to where the jobs `left`
are still to be done.
-/

namespace ChangeWatch

variable {σ ι : Type}

/-- A thread that is alone does some jobs and comes to its end. -/
inductive Runs (m : Machine σ ι) : List ι → σ → List ι → σ → Prop
  | done (s : σ) : Runs m [] s [] s
  | job {job : ι} {rest log : List ι} {s t : σ} {d : Done σ ι} :
      m.perform job s = some d → d.spawned = [] → Runs m (d.next ++ rest) d.state log t →
        Runs m (job :: rest) s (job :: log) t

namespace Runs

variable {m : Machine σ ι} {jobs more log told : List ι} {s t u : σ}

/-- A job followed by others. -/
theorem andThen {job : ι} {next : List ι} (h : m.perform job s = some (.andThen t next))
    (hrest : Runs m (next ++ more) t log u) : Runs m (job :: more) s (job :: log) u :=
  .job h rfl hrest

/-- The first part of a thread is done before the second begins. -/
theorem append (h : Runs m jobs s log t) (hmore : Runs m more t told u) :
    Runs m (jobs ++ more) s (log ++ told) u := by
  induction h with
  | done s => exact hmore
  | @job job rest log s t d hd hspawned hrest ih =>
    -- what follows the job stands before the rest, and so before the second part
    have hnext : Runs m (d.next ++ (rest ++ more)) d.state (log ++ told) u := by
      rw [← List.append_assoc]
      exact ih hmore
    exact .job hd hspawned hnext

/-- What a thread does, and what it comes to, is determined. -/
theorem unique (h : Runs m jobs s log t) (h' : Runs m jobs s told u) : log = told ∧ t = u := by
  induction h generalizing told u with
  | done s =>
    cases h'
    exact ⟨rfl, rfl⟩
  | job hd hspawned hrest ih =>
    cases h' with
    | job hd' _ hrest' =>
      obtain rfl := Option.some.inj (hd.symm.trans hd')
      obtain ⟨rfl, rfl⟩ := ih hrest'
      exact ⟨rfl, rfl⟩

/-- A thread that is alone is run to its end, given enough steps. -/
theorem runThread (h : Runs m jobs s log t) {fuel : Nat} (hfuel : log.length ≤ fuel) :
    Pool.runThread m 0 fuel ⟨s, [jobs]⟩ = ⟨t, [[]]⟩ := by
  induction h generalizing fuel with
  | done s => cases fuel <;> rfl
  | @job job rest log s t d hd hspawned hrest ih =>
    cases fuel with
    | zero => exact absurd hfuel (by simp)
    | succ fuel =>
      have hstep : Pool.step m 0 ⟨s, [job :: rest]⟩ = some ⟨d.state, [d.next ++ rest]⟩ := by
        unfold Pool.step
        simp only [List.getElem?_cons_zero, hd, Option.map_some, List.set_cons_zero, hspawned,
          List.append_nil]
      rw [Pool.runThread, hstep]
      exact ih (Nat.le_of_succ_le_succ hfuel)

/-- Nothing is left to do when all threads have come to their end. -/
theorem settle_ended (fuel : Nat) (s : σ) : Pool.settle m fuel ⟨s, [[]]⟩ = ⟨s, [[]]⟩ := by
  cases fuel with
  | zero => rfl
  | succ fuel => rfl

/-- A call on a pool without threads does what its jobs do. -/
theorem call (h : Runs m jobs s log t) {fuel : Nat} (hfuel : log.length ≤ fuel) :
    Pool.call m fuel jobs ⟨s, []⟩ = ⟨t, []⟩ := by
  have hrun : Pool.runThread m 0 fuel (Pool.spawn ⟨s, []⟩ jobs) = ⟨t, [[]]⟩ := h.runThread hfuel
  unfold Pool.call
  show ((Pool.runThread m 0 fuel (Pool.spawn ⟨s, []⟩ jobs)).settle m fuel).tidy = _
  rw [hrun, settle_ended]
  rfl

end Runs

/-! ### Part of a run -/

/-- A thread that is alone does some jobs, and then has others left. -/
inductive Advances (m : Machine σ ι) : List ι → σ → List ι → List ι → σ → Prop
  | here (jobs : List ι) (s : σ) : Advances m jobs s [] jobs s
  | job {job : ι} {rest log left : List ι} {s t : σ} {d : Done σ ι} :
      m.perform job s = some d → d.spawned = [] →
        Advances m (d.next ++ rest) d.state log left t →
        Advances m (job :: rest) s (job :: log) left t

namespace Advances

variable {m : Machine σ ι} {jobs left rest log told : List ι} {s t u : σ}

/-- A job followed by others. -/
theorem andThen {job : ι} {next : List ι} (h : m.perform job s = some (.andThen t next))
    (hrest : Advances m (next ++ rest) t log left u) :
    Advances m (job :: rest) s (job :: log) left u :=
  .job h rfl hrest

theorem trans {more : List ι} (h : Advances m jobs s log left t)
    (hmore : Advances m left t told more u) : Advances m jobs s (log ++ told) more u := by
  induction h with
  | here => exact hmore
  | job hd hspawned _ ih => exact .job hd hspawned (ih hmore)

/-- What is left makes up the rest of the run. -/
theorem runs (h : Advances m jobs s log left t) (hleft : Runs m left t told u) :
    Runs m jobs s (log ++ told) u := by
  induction h with
  | here => exact hleft
  | job hd hspawned _ ih => exact .job hd hspawned (ih hleft)

end Advances

end ChangeWatch
