import ChangeWatch.Proofs.Dispatch.Contention
import ChangeWatch.Proofs.Dispatch.Ledger

/-!
# A desk at which one thing is done after the other

Offers, tasks that are taken up and shutdowns come one at a time, in any order, and callbacks make
offers and shutdowns of their own (`Desk.Bookkeeping.setting`).  The scheduler queues a task, runs
it at once or refuses it, and may do something else each time.

What one job does to a debouncer is said once, by `Served`, with the entries that it means to the
ledger.  An offer is answered in one of three ways (`Answered`); if it is answered with false,
nothing is left of it (`offer_answered`).
-/

namespace ChangeWatch

namespace Journal

/-- The callbacks that ran, in order. -/
def ran (j : Journal) : List (Callback × Context) :=
  j.notes.filterMap fun
    | .ran callback context => some (callback, context)
    | _ => none

/-- The keys of the offers that were answered with true, in order. -/
def granted (j : Journal) : List String :=
  j.notes.filterMap fun
    | .offered _ key true => some key
    | _ => none

end Journal

namespace Desk.Bookkeeping

variable {ρ : Type}

/-! ### The setting -/

/-- The job by which a callback gets what it asks for, which is an offer or a shutdown. -/
def demanded (d? : Option Dispatch) : Job ρ :=
  d?.elim .shutdown (.offer · .callback)

/-- The jobs of a desk where callbacks may offer anything. -/
def serving (offered : Context → ρ → Option Dispatch) (behaviour : Behaviour ρ) :
    Machine Desk (Job ρ) where
  perform
    | .request r context, desk => some (.andThen desk [demanded (offered context r)])
    | job, desk => (perform behaviour job desk).map fun (desk, next) => .andThen desk next

/-- What a plea offers, if it is not for a shutdown. -/
def pleaded (context : Context) : Plea → Option Dispatch
  | .offer key callback => some ⟨key, context, callback⟩
  | .shutdown => none

/-- A desk on its own is one of these. -/
theorem machine_eq_serving (behaviour : Behaviour Plea) :
    machine behaviour = serving pleaded behaviour := by
  unfold machine serving
  congr 1
  funext job desk
  cases job with
  | request plea context => cases plea <;> rfl
  | _ => rfl

/-- What may come from outside. -/
inductive Occasion where
  | offer (d : Dispatch)
  /-- One of the tasks that wait is taken up. -/
  | fire (n : Nat)
  | shutdown
  /-- From now on the scheduler treats what it is given in this way. -/
  | policy (policy : Policy)
  deriving DecidableEq, Repr

/-- The job only waits for a callback to go on, or for a warning to be given. -/
def rests : Job ρ → Bool
  | .request .. | .warn _ => true
  | _ => false

/-- Nothing is under way, except for callbacks that may still ask for something. -/
def Resting (p : Pool Desk (Job ρ)) : Prop :=
  ∀ job ∈ p.jobs, rests job = true

instance (p : Pool Desk (Job ρ)) : Decidable (Resting p) :=
  inferInstanceAs (Decidable (∀ job ∈ p.jobs, rests job = true))

def withPolicy (policy : Policy) (desk : Desk) : Desk :=
  { desk with
    debouncer := desk.debouncer.map fun g => { g with scheduler := { g.scheduler with policy } } }

/-- What comes from outside, if it may come now: one thing after the other. -/
def occur : Occasion → Pool Desk (Job ρ) → Option (Pool Desk (Job ρ))
  | .offer d, p => if p.jobs.isEmpty then some ⟨p.state, [[.offer d .owner]]⟩ else none
  | .fire n, p =>
    if p.jobs.isEmpty then
      (Stopping.takeUp? p.state n).map fun r => ⟨r.2, [[.begin r.1]]⟩
    else none
  | .shutdown, p => if p.jobs.isEmpty then some ⟨p.state, [[.shutdown]]⟩ else none
  | .policy policy, p => if Resting p then some (p.modify (withPolicy policy)) else none

/-- A desk at which one thing is done after the other. -/
def setting (offered : Context → ρ → Option Dispatch) (behaviour : Behaviour ρ) :
    Setting Desk (Job ρ) Occasion :=
  ⟨serving offered behaviour, occur⟩

/-- A new desk. -/
def fresh (delay : Duration) (policy : Policy) : Pool Desk (Job ρ) :=
  ⟨⟨some (.new delay policy), .empty⟩, []⟩

/-- What it comes to that the scheduler is called. -/
def posting (d : Dispatch) : Scheduled → Posting
  | .refused _ => .refused d
  | _ => .accepted d

/-- What a job means to the scheduler. -/
def postings (g : Debouncer) : Job ρ → List Posting
  | .commit d _ => if g.shutDown then [] else [posting d (g.scheduler.schedule g.delay d).1]
  | .begin d => [.begun d]
  | .shutdown => if g.shutDown then [] else [.shut]
  | _ => []

/-- What is noted of a job. -/
def entries (_ : Nat) (job : Job ρ) (desk : Desk) : List Posting :=
  desk.debouncer.elim [] (postings · job)

/-! ### What a job has in hand -/

/-- The key that a job made pending, or is to free. -/
def holds : Job ρ → List String
  | .commit d _ | .begin d => [d.key]
  | _ => []

/-- The task that a job takes up. -/
def takes : Job ρ → List Dispatch
  | .begin d => [d]
  | _ => []

/-- The callback that a job runs. -/
def runs : Job ρ → List (Callback × Context)
  | .call callback context _ => [(callback, context)]
  | _ => []

/-- The key of the offer that a job answers with true. -/
def promises : Job ρ → List String
  | .answer key true _ => [key]
  | _ => []

/-- The job has no task and no key in hand. -/
def quiet : Job ρ → Bool
  | .request .. | .warn _ | .unlock | .answer .. => true
  | _ => false

variable {jobs rest next : List (Job ρ)} {job : Job ρ}

theorem nothing_of_quiet (h : ∀ job ∈ jobs, quiet job = true) :
    jobs.flatMap holds = [] ∧ jobs.flatMap takes = [] ∧ jobs.flatMap runs = [] := by
  simp only [List.flatMap_eq_nil_iff]
  refine ⟨?_, ?_, ?_⟩ <;>
  · intro job hmem
    have hquiet := h job hmem
    cases job with
    | call | offer | commit | begin | shutdown => exact absurd hquiet (by simp [quiet])
    | _ => rfl

theorem quiet_of_rests (h : rests job = true) : quiet job = true ∧ promises job = [] := by
  cases job with
  | request | warn => exact ⟨rfl, rfl⟩
  | _ => exact absurd h (by simp [rests])

theorem nothing_of_resting (h : ∀ job ∈ jobs, rests job = true) :
    (jobs.flatMap holds = [] ∧ jobs.flatMap takes = [] ∧ jobs.flatMap runs = []) ∧
      jobs.flatMap promises = [] :=
  ⟨nothing_of_quiet fun job hmem => (quiet_of_rests (h job hmem)).1,
    List.flatMap_eq_nil_iff.mpr fun job hmem => (quiet_of_rests (h job hmem)).2⟩

/-- A callback that is over leaves what it asked for, and perhaps a warning. -/
theorem rests_of_aftermath {reaction : Reaction ρ} {context : Context} {onPanic : Warning} :
    ∀ job ∈ aftermath reaction context onPanic, rests job = true := by
  intro job hmem
  rcases List.mem_append.mp hmem with hmem | hmem
  · obtain ⟨r, -, rfl⟩ := List.mem_map.mp hmem
    rfl
  · split at hmem
    · rw [List.mem_singleton.mp hmem]
      rfl
    · exact absurd hmem List.not_mem_nil

/-! ### One job -/

variable {offered : Context → ρ → Option Dispatch} {behaviour : Behaviour ρ}
  {g g' : Debouncer} {d : Dispatch} {told : List Posting}

/-- What a job does to a debouncer, what is next and what that means to the scheduler. -/
inductive Served (offered : Context → ρ → Option Dispatch) (g : Debouncer) :
    Job ρ → Debouncer → List (Job ρ) → List Posting → Prop
  /-- The key is pending already. -/
  | fallsIn (d : Dispatch) (caller : Caller) : d.key ∈ g.pending →
      Served offered g (.offer d caller) g [.answer d.key false caller] []
  | opens (d : Dispatch) (caller : Caller) : d.key ∉ g.pending →
      Served offered g (.offer d caller) (g.opened d.key) [.commit d caller] []
  | queues (d : Dispatch) (caller : Caller) : g.shutDown = false →
      Served offered g (.commit d caller) (g.queued d) [.answer d.key true caller] [.accepted d]
  /-- The task is run at once, under the lock. -/
  | seizes (d : Dispatch) (caller : Caller) : g.shutDown = false →
      Served offered g (.commit d caller) g.seized
        [.begin d, .unlock, .answer d.key true caller] [.accepted d]
  | refuses (d : Dispatch) (caller : Caller) (warning : Option Warning) : g.shutDown = false →
      Served offered g (.commit d caller) (g.release d.key)
        (afterCommit d caller (.declined warning)) [.refused d]
  | declines (d : Dispatch) (caller : Caller) : g.shutDown = true →
      Served offered g (.commit d caller) (g.release d.key) [.answer d.key false caller] []
  | begins (d : Dispatch) :
      Served offered g (.begin d) (g.release d.key)
        [.call d.callback d.context .modifyPanicked] [.begun d]
  | closes : g.shutDown = false → Served offered g .shutdown g.closed [] [.shut]
  | remains : g.shutDown = true → Served offered g .shutdown g [] []
  | unlocks : Served offered g .unlock g.unlock [] []
  | asks (r : ρ) (context : Context) :
      Served offered g (.request r context) g [demanded (offered context r)] []
  /-- A callback is run, an offer is answered or a warning given. -/
  | idles {job : Job ρ} {next : List (Job ρ)} : job.idle = true → job ≠ .unlock →
      (∀ follower ∈ next, rests follower = true) → Served offered g job g next []

theorem commit_served (caller : Caller) (d : Dispatch) :
    Served offered g (.commit d caller) (g.commit d).2
      (afterCommit d caller (g.commit d).1) (postings g (.commit d caller : Job ρ)) := by
  cases hdown : g.shutDown with
  | true =>
    rw [commit_of_shutDown hdown, postings, if_pos hdown]
    exact .declines d caller hdown
  | false =>
    rw [postings, if_neg (by rw [hdown]; simp)]
    rcases Debouncer.commit_cases hdown d with
      ⟨hs, hcommit⟩ | ⟨hs, hcommit⟩ | ⟨e, warning, hs, hcommit⟩
    · rw [hs, hcommit]
      exact .queues d caller hdown
    · rw [hs, hcommit]
      exact .seizes d caller hdown
    · rw [hs, hcommit]
      exact .refuses d caller warning hdown

theorem operate_served {more : List (Job ρ)} (journal : Journal)
    (hrequest : ∀ r context, job ≠ .request r context) (h : operate g job = some (g', more)) :
    Served offered g job g' ((record behaviour journal job).2 ++ more) (postings g job) := by
  cases operate_operates h with
  | fallsIn d caller hpending => exact .fallsIn d caller hpending
  | opens d caller hfree => exact .opens d caller hfree
  | commits d caller => exact commit_served caller d
  | begins d => exact .begins d
  | unlocks => exact .unlocks
  | closes hdown =>
    rw [postings, if_neg (by rw [hdown]; simp)]
    exact .closes hdown
  | remains hdown =>
    rw [postings, if_pos hdown]
    exact .remains hdown
  | idles hidle hother =>
    rw [List.append_nil]
    cases job with
    | call callback context onPanic => exact .idles rfl hother rests_of_aftermath
    | request r context => exact absurd rfl (hrequest r context)
    | unlock => exact absurd rfl hother
    | offer | commit | begin | shutdown => exact absurd hidle (by simp [Job.idle])
    | _ => exact .idles rfl hother (by simp [record])

/-- What a job notes: the callback that it runs, and the offer that it answers with true. -/
theorem record_notes (behaviour : Behaviour ρ) (journal : Journal) (job : Job ρ) :
    (record behaviour journal job).1.ran = journal.ran ++ runs job ∧
      (record behaviour journal job).1.granted = journal.granted ++ promises job := by
  unfold Journal.ran Journal.granted
  cases job with
  | call => simp [record, Journal.note, runs, promises]
  | answer key accepted caller => cases accepted <;> simp [record, Journal.note, runs, promises]
  | _ => simp [record, Journal.warn, runs, promises]

theorem perform_served {desk : Desk} {done : Done Desk (Job ρ)}
    (h : (serving offered behaviour).perform job desk = some done) (hg : desk.debouncer = some g) :
    done.spawned = [] ∧ done.state.journal.ran = desk.journal.ran ++ runs job ∧
      done.state.journal.granted = desk.journal.granted ++ promises job ∧
      ∃ g', done.state.debouncer = some g' ∧
        Served offered g job g' done.next (postings g job) := by
  by_cases hrequest : ∃ r context, job = .request r context
  · obtain ⟨r, context, rfl⟩ := hrequest
    obtain rfl := Option.some.inj h
    exact ⟨rfl, (List.append_nil _).symm, (List.append_nil _).symm, g, hg, .asks r context⟩
  · have hother : ∀ r context, job ≠ .request r context :=
      fun r context heq => hrequest ⟨r, context, heq⟩
    have hperform : (perform behaviour job desk).map
        (fun r => Done.andThen r.1 r.2) = some done := by
      cases job with
      | request r context => exact absurd rfl (hother r context)
      | _ => exact h
    obtain ⟨r, hr, rfl⟩ := Option.map_eq_some_iff.mp hperform
    obtain ⟨hran, hgranted⟩ := record_notes behaviour desk.journal job
    have hjournal : r.1.journal = (record behaviour desk.journal job).1 := by
      unfold perform at hr
      rw [hg] at hr
      obtain ⟨s, -, rfl⟩ := Option.map_eq_some_iff.mp hr
      rfl
    rcases perform_cases hr with ⟨hnone, -⟩ | ⟨g₁, g', more, hg₁, hg', hoperate, hnext⟩
    · rw [hg] at hnone
      exact absurd hnone (by simp)
    · obtain rfl := Option.some.inj (hg.symm.trans hg₁)
      refine ⟨rfl, hjournal ▸ hran, hjournal ▸ hgranted, g', hg', ?_⟩
      show Served offered g job g' r.2 _
      rw [hnext]
      exact operate_served desk.journal hother hoperate

/-! ### An offer, and a task that is taken up -/

/-- The debouncer does not take the dispatch: its key is pending, or the debouncer is shut down, or
the scheduler refuses it. -/
def TurnsDown (g : Debouncer) (d : Dispatch) : Prop :=
  d.key ∈ g.pending ∨ g.shutDown = true ∨ ∃ e, (g.scheduler.schedule g.delay d).1 = .refused e

/-- How an offer is answered, what it leaves of the debouncer, and what is noted. -/
inductive Answered (g : Debouncer) (d : Dispatch) (caller : Caller) :
    Debouncer → List Note → Prop
  /-- Nothing is left of an offer that is answered with false. -/
  | down : TurnsDown g d → Answered g d caller g [.offered caller d.key false]
  | queued : ¬TurnsDown g d → (g.scheduler.schedule g.delay d).1 = .queued →
      Answered g d caller ((g.opened d.key).queued d) [.offered caller d.key true]
  /-- The callback ran before the answer. -/
  | immediate : ¬TurnsDown g d → (g.scheduler.schedule g.delay d).1 = .immediate →
      Answered g d caller
        { g with scheduler := { g.scheduler with delays := g.scheduler.delays ++ [g.delay] } }
        [.ran d.callback d.context, .offered caller d.key true]

/-- A key that was not pending leaves no trace when it is freed again. -/
theorem freed {key : String} (hfree : key ∉ g.pending) :
    (g.pending ++ [key]).filter (· ≠ key) = g.pending := by
  rw [List.filter_append, List.filter_cons_of_neg (by simp), List.filter_nil, List.append_nil]
  refine List.filter_eq_self.mpr fun name hname => decide_eq_true ?_
  rintro rfl
  exact hfree hname

theorem release_opened {key : String} (hfree : key ∉ g.pending) :
    (g.opened key).release key = g := by
  show { g with pending := (g.pending ++ [key]).filter (· ≠ key) } = g
  rw [freed hfree]

/-- A thread does a job that the debouncer need not wait for. -/
theorem advances_operate {journal : Journal} {more left done : List (Job ρ)} {desk' : Desk}
    (hrequest : ∀ r context, job ≠ .request r context) (h : operate g job = some (g', more))
    (hrest : Advances (serving offered behaviour)
      ((record behaviour journal job).2 ++ more ++ rest)
      ⟨some g', (record behaviour journal job).1⟩ done left desk') :
    Advances (serving offered behaviour) (job :: rest) ⟨some g, journal⟩ (job :: done) left
      desk' := by
  refine .andThen ?_ hrest
  have hperform : perform behaviour job ⟨some g, journal⟩ =
      some (⟨some g', (record behaviour journal job).1⟩,
        (record behaviour journal job).2 ++ more) := by
    unfold perform
    dsimp only
    rw [h]
    rfl
  have hserving : (serving offered behaviour).perform job ⟨some g, journal⟩ =
      (perform behaviour job ⟨some g, journal⟩).map fun r => .andThen r.1 r.2 := by
    cases job with
    | request r context => exact absurd rfl (hrequest r context)
    | _ => rfl
  rw [hserving, hperform]
  rfl

/-- The answer to an offer is noted. -/
theorem advances_answer {journal : Journal} {key : String} {accepted : Bool} {caller : Caller} :
    Advances (serving offered behaviour) (.answer key accepted caller :: rest) ⟨some g, journal⟩
      [.answer key accepted caller] rest
      ⟨some g, journal.note (.offered caller key accepted)⟩ :=
  advances_operate (by simp) rfl (.here rest _)

/-- Warnings that are given leave the debouncer as it is, and are nothing that is noted. -/
theorem advances_warn {journal : Journal} {warnings : List Warning} :
    ∃ done journal', Advances (serving offered behaviour) (warnings.map .warn ++ rest)
      ⟨some g, journal⟩ done rest ⟨some g, journal'⟩ ∧ journal'.notes = journal.notes := by
  induction warnings generalizing journal with
  | nil => exact ⟨[], journal, .here rest _, rfl⟩
  | cons warning more ih =>
    obtain ⟨done, journal', hadvances, hnotes⟩ := @ih (journal.warn warning)
    exact ⟨_, journal', advances_operate (by simp) rfl hadvances, hnotes⟩

/-- A task that is taken up frees its key, and its callback is run. -/
theorem advances_begin (g : Debouncer) (d : Dispatch) (journal : Journal) :
    Advances (serving offered behaviour) (.begin d :: rest) ⟨some g, journal⟩
      [.begin d, .call d.callback d.context .modifyPanicked]
      (aftermath (behaviour journal.notes.length d.callback d.context) d.context .modifyPanicked ++
        rest)
      ⟨some (g.release d.key), journal.note (.ran d.callback d.context)⟩ := by
  refine advances_operate (by simp) rfl (advances_operate (by simp) rfl ?_)
  rw [List.append_nil]
  exact .here _ _

theorem aftermath_of_silent {reaction : Reaction ρ} (h : reaction.requests = [])
    (context : Context) (onPanic : Warning) : aftermath reaction context onPanic =
      (if reaction.panics then [onPanic] else []).map .warn := by
  unfold aftermath
  rw [h]
  cases reaction.panics <;> rfl

theorem not_turnsDown (hfree : d.key ∉ g.pending) (hdown : g.shutDown = false)
    (hs : ∀ e, (g.scheduler.schedule g.delay d).1 ≠ .refused e) : ¬TurnsDown g d := by
  rintro (hpending | hshut | ⟨e, hrefused⟩)
  · exact hfree hpending
  · exact absurd (hdown.symm.trans hshut) (by simp)
  · exact hs e hrefused

/-- What a task that is run at once leaves of the debouncer. -/
theorem unlock_release_seized (hfree : d.key ∉ g.pending) (hunlocked : g.locked = false) :
    (((g.opened d.key).seized).release d.key).unlock =
      { g with scheduler := { g.scheduler with delays := g.scheduler.delays ++ [g.delay] } } := by
  show { g with
    scheduler := { g.scheduler with delays := g.scheduler.delays ++ [g.delay] }
    pending := (g.pending ++ [d.key]).filter (· ≠ d.key)
    locked := false } = _
  rw [freed hfree, ← hunlocked]

/-- A dispatch that is run at once, under the lock: the callback runs, the lock is freed again, and
the offer is answered. -/
theorem advances_seized {journal : Journal} (hfree : d.key ∉ g.pending)
    (hunlocked : g.locked = false) (caller : Caller)
    (hinline : (behaviour journal.notes.length d.callback d.context).requests = []) :
    ∃ done journal', Advances (serving offered behaviour)
      (.begin d :: .unlock :: .answer d.key true caller :: rest)
      ⟨some (g.opened d.key).seized, journal⟩ done rest
      ⟨some { g with
        scheduler := { g.scheduler with delays := g.scheduler.delays ++ [g.delay] } }, journal'⟩ ∧
      journal'.notes =
        journal.notes ++ [.ran d.callback d.context, .offered caller d.key true] := by
  have hbegin := @advances_begin ρ (.unlock :: .answer d.key true caller :: rest) offered behaviour
    (g.opened d.key).seized d journal
  rw [aftermath_of_silent hinline] at hbegin
  obtain ⟨warned, journal₁, hwarn, hnotes⟩ := @advances_warn ρ
    (.unlock :: .answer d.key true caller :: rest) offered behaviour
    (((g.opened d.key).seized).release d.key) (journal.note (.ran d.callback d.context)) _
  have hunlock : Advances (serving offered behaviour)
      (.unlock :: .answer d.key true caller :: rest)
      ⟨some (((g.opened d.key).seized).release d.key), journal₁⟩
      [.unlock, .answer d.key true caller] rest
      ⟨some { g with
        scheduler := { g.scheduler with delays := g.scheduler.delays ++ [g.delay] } },
        journal₁.note (.offered caller d.key true)⟩ := by
    refine advances_operate (by simp) rfl ?_
    rw [unlock_release_seized hfree hunlocked]
    exact advances_answer
  refine ⟨_, _, hbegin.trans (hwarn.trans hunlock), ?_⟩
  show journal₁.notes ++ [.offered caller d.key true] = _
  rw [hnotes]
  exact List.append_assoc _ _ _

/-- An offer that opens a window comes to the scheduler. -/
theorem advances_opened {journal : Journal} {caller : Caller} {commitment : Commitment}
    {left done : List (Job ρ)} {desk' : Desk} (hfree : d.key ∉ g.pending)
    (hunlocked : g.locked = false) (hcommit : (g.opened d.key).commit d = (commitment, g'))
    (hrest : Advances (serving offered behaviour) (afterCommit d caller commitment ++ rest)
      ⟨some g', journal⟩ done left desk') :
    Advances (serving offered behaviour) (.offer d caller :: rest) ⟨some g, journal⟩
      (.offer d caller :: .commit d caller :: done) left desk' := by
  have hoffer : operate g (.offer d caller : Job ρ) =
      some (g.opened d.key, [.commit d caller]) := by
    simp [operate, Debouncer.open?, hfree, Debouncer.opened]
  have hgiven : operate (g.opened d.key) (.commit d caller : Job ρ) =
      some (g', afterCommit d caller commitment) := by
    have hlocked : ¬(g.opened d.key).locked = true := by
      show ¬g.locked = true
      rw [hunlocked]
      simp
    simp only [operate, hcommit, if_neg hlocked]
  exact advances_operate (by simp) hoffer (advances_operate (by simp) hgiven hrest)

/-- A dispatch that the scheduler refuses may be worth a warning; then the offer is answered. -/
theorem advances_declined {journal : Journal} (warning : Option Warning) (caller : Caller) :
    ∃ done journal', Advances (serving offered behaviour)
      (afterCommit d caller (.declined warning) ++ rest) ⟨some g, journal⟩ done rest
      ⟨some g, journal'⟩ ∧
      journal'.notes = journal.notes ++ [.offered caller d.key false] := by
  have hnext : afterCommit d caller (.declined warning) ++ rest =
      warning.toList.map .warn ++ .answer d.key false caller :: rest := by
    cases warning <;> rfl
  obtain ⟨done, journal', hwarn, hnotes⟩ := @advances_warn ρ
    (.answer d.key false caller :: rest) offered behaviour g journal warning.toList
  refine ⟨done ++ [.answer d.key false caller], journal'.note (.offered caller d.key false), ?_, ?_⟩
  · rw [hnext]
    exact hwarn.trans advances_answer
  · show journal'.notes ++ [.offered caller d.key false] = _
    rw [hnotes]

/-- An offer is answered, if a callback that is run before the answer asks for nothing. -/
theorem offer_answered {journal : Journal} (hunlocked : g.locked = false) (d : Dispatch)
    (caller : Caller) (rest : List (Job ρ))
    (hinline : (g.scheduler.schedule g.delay d).1 = .immediate →
      (behaviour journal.notes.length d.callback d.context).requests = []) :
    ∃ done journal' g' notes, Advances (serving offered behaviour) (.offer d caller :: rest)
      ⟨some g, journal⟩ done rest ⟨some g', journal'⟩ ∧
      journal'.notes = journal.notes ++ notes ∧ Answered g d caller g' notes := by
  by_cases hpending : d.key ∈ g.pending
  · have hoffer : operate g (.offer d caller : Job ρ) =
        some (g, [.answer d.key false caller]) := by
      simp [operate, Debouncer.open?, hpending]
    exact ⟨_, _, g, _, advances_operate (by simp) hoffer advances_answer, rfl,
      .down (Or.inl hpending)⟩
  cases hdown : g.shutDown with
  | true =>
    have hcommit := commit_of_shutDown (show (g.opened d.key).shutDown = true from hdown) d
    rw [release_opened hpending] at hcommit
    exact ⟨_, _, g, _, advances_opened hpending hunlocked hcommit advances_answer, rfl,
      .down (Or.inr (Or.inl hdown))⟩
  | false =>
    have hrunning : (g.opened d.key).shutDown = false := hdown
    -- the scheduler answers as it would have done before the window was opened
    rcases Debouncer.commit_cases hrunning d with
      ⟨hs, hcommit⟩ | ⟨hs, hcommit⟩ | ⟨e, warning, hs, hcommit⟩
    · have hnot : ¬TurnsDown g d := not_turnsDown hpending hdown fun e hrefused =>
        absurd (hs.symm.trans hrefused) (by simp)
      exact ⟨_, _, _, _, advances_opened hpending hunlocked hcommit advances_answer, rfl,
        .queued hnot hs⟩
    · have hnot : ¬TurnsDown g d := not_turnsDown hpending hdown fun e hrefused =>
        absurd (hs.symm.trans hrefused) (by simp)
      obtain ⟨done, journal', hadvances, hnotes⟩ :=
        @advances_seized ρ rest offered behaviour g d journal hpending hunlocked caller (hinline hs)
      exact ⟨_, journal', _, _, advances_opened hpending hunlocked hcommit hadvances, hnotes,
        .immediate hnot hs⟩
    · rw [release_opened hpending] at hcommit
      obtain ⟨done, journal', hadvances, hnotes⟩ :=
        @advances_declined ρ rest offered behaviour g d journal warning caller
      exact ⟨_, journal', g, _, advances_opened hpending hunlocked hcommit hadvances, hnotes,
        .down (Or.inr (Or.inr ⟨e, hs⟩))⟩

end Desk.Bookkeeping

end ChangeWatch
