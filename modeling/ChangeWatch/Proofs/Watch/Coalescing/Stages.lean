import ChangeWatch.Proofs.Dispatch.Accepting
import ChangeWatch.Proofs.Watch.Lifecycle.Deeds
import Mathlib.Data.List.Induction

/-!
# The way of a change through a watch

A modify change that is resolved is handed to a dispatch, offered, and either
falls into an open window or opens one and is queued, taken up and given to the
callback.  Its `Stage`s are what is seen of that: the resolution, the offer, and the
run of the callback.

In between it is with one job, or waits with the scheduler.  `Owes`, `Keeps` and
`Delivers` say which job has a change, before it is offered, while its window is
open, and after that; `perform_changeEffect` says of every job that it hands on what it
has, as long as the watch is not stopped.
-/

namespace ChangeWatch

/-- A job that has no part in the way of a change: it handles and dispatches none, does
not stop the watch and is not one of the desk, unless a callback asks for it. -/
def Job.bystands : Job → Bool
  | .handle .. | .dispatch .. | .stop => false
  | .desk (.request ..) => true
  | .desk _ => false
  | _ => true

namespace Coalescing

open Watch

/-! ### Stages -/

/-- What is seen of a modify change. -/
inductive Stage where
  /-- An event of a name is found to concern a path. -/
  | resolved (name : String) (path : Path)
  /-- A change is offered under a name, and opens a window or not. -/
  | offered (name : String) (context : Context) (opens : Bool)
  /-- A callback is run. -/
  | ran (callback : Callback) (context : Context)
  deriving DecidableEq, Repr

/-- Whether an offer under a name opens a window. -/
def opensWindow (desk : Desk) (name : String) : Bool :=
  desk.debouncer.elim false fun g => !g.isPending name

/-- What is seen when a job is done. -/
def stages (job : Job) (w : Watch) : List Stage :=
  match job with
  | .handle key event =>
    match w.strategy.resolve w.handled key event with
    | .path p => if event.kind = .modify then [.resolved event.gatherKey p] else []
    | _ => []
  | .desk (.offer d _) => [.offered d.key d.context (opensWindow w.desk d.key)]
  | .desk (.call callback context _) => [.ran callback context]
  | _ => []

/-- What is seen during a run. -/
def log (behaviour : Behaviour Wish) (moves : List (Move Lifecycle.Outside)) (p : Running) :
    List Stage :=
  (Lifecycle.setting behaviour).log (fun _ job w => stages job w) moves p

/-- The change that opened a window under a name last, given the one before. -/
def opener (name : String) (last : Option Context) : Stage → Option Context
  | .offered name' context true => if name' = name then some context else last
  | _ => last

/-- The change that opened the last window under a name. -/
def latest (name : String) (L : List Stage) : Option Context :=
  L.foldl (opener name) none

theorem latest_append (name : String) (L told : List Stage) :
    latest name (L ++ told) = told.foldl (opener name) (latest name L) :=
  List.foldl_append

/-- What opened the last window under a name was offered under it. -/
theorem mem_of_latest {name : String} {L : List Stage} {x : Context}
    (h : latest name L = some x) : .offered name x true ∈ L := by
  induction L using List.reverseRecOn with
  | nil => exact absurd h (by simp [latest])
  | append_singleton front last ih =>
    rw [latest_append] at h
    have hlast : opener name (latest name front) last = some x := h
    unfold opener at hlast
    split at hlast
    · split at hlast
      · next hname =>
        subst hname
        obtain rfl := Option.some.inj hlast
        exact List.mem_append_right _ (List.mem_singleton_self _)
      · exact List.mem_append_left _ (ih hlast)
    · exact List.mem_append_left _ (ih hlast)

/-! ### Who has a change -/

/-- The job leads to an offer of a change of a path under a name. -/
def Owes (name : String) (path : Path) : Job → Prop
  | .dispatch event p _ => event.kind = .modify ∧ event.gatherKey = name ∧ p = path
  | .desk (.offer d _) => d.key = name ∧ d.context.kind = .modify ∧ d.context.path = path
  | _ => False

/-- The job has a dispatch whose window is open. -/
def Keeps (d : Dispatch) : Job → Prop
  | .desk (.commit d' _) | .desk (.begin d') => d' = d
  | _ => False

/-- The job gives a dispatch to its callback. -/
def Delivers (d : Dispatch) : Job → Prop
  | .desk (.call callback context _) => callback = d.callback ∧ context = d.context
  | _ => False

/-- What a job has to do with a modify change was resolved before, and no job shuts the
debouncer down. -/
def Vouched (callback : Callback) (L : List Stage) : Job → Prop
  | .dispatch event path _ => event.kind = .modify → .resolved event.gatherKey path ∈ L
  -- only something that appeared is picked up
  | .pickUp _ _ event _ | .walk (.pickup event _) .. | .survey event .. => event.kind = .create
  | .desk (.offer d _) =>
    d.callback = callback ∧ d.context.kind = .modify ∧ .resolved d.key d.context.path ∈ L
  | .desk .shutdown => False
  | _ => True

variable {behaviour : Behaviour Wish} {w : Watch} {job : Job} {d : Done Watch Job}
  {callback : Callback} {L told : List Stage} {g g' : Debouncer} {next : List Job}

theorem Vouched.mono (h : Vouched callback L job) (told : List Stage) :
    Vouched callback (L ++ told) job := by
  cases job with
  | dispatch event path found => exact fun hkind => List.mem_append_left _ (h hkind)
  | walk purpose agenda registered => cases purpose <;> exact h
  | desk job =>
    cases job with
    | offer d caller => exact ⟨h.1, h.2.1, List.mem_append_left _ h.2.2⟩
    | _ => exact h
  | _ => exact h

/-! ### What a job hands on -/

/-- What a job does to the changes that are on their way, when a debouncer becomes
another one, some jobs are next, and some stages are seen. -/
structure ChangeEffect (callback : Callback) (L : List Stage) (job : Job) (g g' : Debouncer)
    (next : List Job) (told : List Stage) : Prop where
  accepting : g'.Accepting
  vouched : ∀ j ∈ next, Vouched callback (L ++ told) j
  resolved : ∀ name path, .resolved name path ∈ told → ∃ j ∈ next, Owes name path j
  owes : ∀ name path, Owes name path job → (∃ j ∈ next, Owes name path j) ∨
    ∃ x opens, .offered name x opens ∈ told ∧ x.kind = .modify ∧ x.path = path
  /-- Whoever opens a window keeps it open, and else one is open. -/
  offered : ∀ name x opens, .offered name x opens ∈ told → told = [.offered name x opens] ∧
    x.kind = .modify ∧ .resolved name x.path ∈ L ∧
    (opens = true → ∃ j ∈ next, Keeps ⟨name, x, callback⟩ j) ∧ (opens = false → name ∈ g.pending)
  pending : ∀ name ∈ g'.pending, name ∈ g.pending ∨ ∃ x, .offered name x true ∈ told
  awaits : ∀ d, g.Awaits d → g'.Awaits d
  keeps : ∀ d, Keeps d job → g'.Awaits d ∨ d.key ∉ g'.pending ∧ ∃ j ∈ next, Delivers d j
  delivers : ∀ d, Delivers d job → .ran d.callback d.context ∈ told

/-- A job that has no change. -/
theorem ChangeEffect.quiet (hg : g.Accepting) (howes : ∀ name path, ¬ Owes name path job)
    (hkeeps : ∀ d, ¬ Keeps d job) (hdelivers : ∀ d, ¬ Delivers d job)
    (hnext : ∀ j ∈ next, Vouched callback L j) : ChangeEffect callback L job g g next [] where
  accepting := hg
  vouched j hj := (hnext j hj).mono []
  resolved _ _ h := absurd h List.not_mem_nil
  owes name path h := absurd h (howes name path)
  offered _ _ _ h := absurd h List.not_mem_nil
  pending _ h := Or.inl h
  awaits _ h := h
  keeps d h := absurd h (hkeeps d)
  delivers d h := absurd h (hdelivers d)

/-! ### Handling an event -/

/-- A resolved event is dispatched, or what appeared is picked up first. -/
theorem change_handle (hg : g.Accepting) (key : Key) (event : RawEvent) (w : Watch) :
    ChangeEffect callback L (.handle key event) g g
      (afterResolve w.handled key event (w.strategy.resolve w.handled key event))
      (stages (.handle key event) w) := by
  -- what is not a modify change has no part in this
  have hother : stages (.handle key event) w = [] →
      (∀ j ∈ afterResolve w.handled key event (w.strategy.resolve w.handled key event),
        Vouched callback L j) →
      ChangeEffect callback L (.handle key event) g g
        (afterResolve w.handled key event (w.strategy.resolve w.handled key event))
        (stages (.handle key event) w) := by
    intro hnone hnext
    rw [hnone]
    exact .quiet hg (fun _ _ h => h) (fun _ h => h) (fun _ h => h) hnext
  cases hresolve : w.strategy.resolve w.handled key event with
  | panicked =>
    rw [hresolve] at hother
    refine hother ?_ (by simp [afterResolve, Vouched])
    simp only [stages, hresolve]
  | irrelevant =>
    rw [hresolve] at hother
    refine hother ?_ (by simp [afterResolve])
    simp only [stages, hresolve]
  | path p =>
    rw [hresolve] at hother
    -- a modify change is seen to be resolved, and its dispatch owes the offer
    by_cases hkind : event.kind = .modify
    · have hstages : stages (.handle key event) w = [.resolved event.gatherKey p] := by
        simp only [stages, hresolve, hkind, if_true]
      have hnext : afterResolve w.handled key event (.path p) = [.dispatch event p []] := by
        simp [afterResolve, hkind]
      rw [hstages, hnext]
      refine ⟨hg, ?_, ?_, fun _ _ h => h.elim, ?_, fun _ h => Or.inl h, fun _ h => h,
        fun _ h => h.elim, fun _ h => h.elim⟩
      · intro j hj
        rw [List.mem_singleton.mp hj]
        exact fun _ => List.mem_append_right _ (List.mem_singleton_self _)
      · intro name path hmem
        obtain ⟨rfl, rfl⟩ := Stage.resolved.inj (List.mem_singleton.mp hmem)
        exact ⟨_, List.mem_singleton_self _, hkind, rfl, rfl⟩
      · intro name x opens hmem
        exact absurd (List.mem_singleton.mp hmem) (by simp)
    · refine hother ?_ ?_
      · simp only [stages, hresolve, if_neg hkind]
      · unfold afterResolve
        dsimp only
        split
        · next hcreate =>
          intro j hj
          rw [List.mem_singleton.mp hj]
          exact hcreate
        · intro j hj
          rw [List.mem_singleton.mp hj]
          exact fun hmodify => absurd hmodify hkind

/-- A modify change is offered to the debouncer with its path. -/
theorem change_dispatch (hg : w.desk.debouncer = some g) (haccepting : g.Accepting)
    (hhandler : w.handlers.modify = some callback) (hdelay : w.delay.isZero = false)
    {event : RawEvent} {path : Path} {found : List Path}
    (hvouched : Vouched callback L (.dispatch event path found)) :
    ChangeEffect callback L (.dispatch event path found) g g
      (w.handOverAll event path found) [] := by
  have hannounce : ∀ c, ∀ j ∈ found.map (Job.announce c), Vouched callback L j := by
    intro c j hj
    obtain ⟨p, -, rfl⟩ := List.mem_map.mp hj
    trivial
  by_cases hkind : event.kind = .modify
  · have hgathers : w.gathers event.kind = true := by
      simp [gathers, hg, hkind, hdelay]
    have hget : w.handlers.get event.kind = some callback := by
      rw [hkind]
      exact hhandler
    have hnext : w.handOverAll event path found =
        .desk (.offer ⟨event.gatherKey, .observe w.ground.disk event.kind path, callback⟩ .loop) ::
          found.map (.announce callback) := by
      simp only [handOverAll, handOver, hget, hgathers, if_true]
    rw [hnext]
    refine ⟨haccepting, ?_, fun _ _ h => absurd h List.not_mem_nil, ?_,
      fun _ _ _ h => absurd h List.not_mem_nil, fun _ h => Or.inl h, fun _ h => h,
      fun _ h => h.elim, fun _ h => h.elim⟩
    · intro j hj
      rcases List.mem_cons.mp hj with rfl | hj
      · exact ⟨rfl, hkind, List.mem_append_left _ (hvouched hkind)⟩
      · exact (hannounce _ j hj).mono []
    · rintro name path' ⟨-, rfl, rfl⟩
      exact Or.inl ⟨_, List.mem_cons_self, rfl, hkind, rfl⟩
  · refine .quiet haccepting (fun _ _ h => hkind h.1) (fun _ h => h) (fun _ h => h) ?_
    -- anything else is given to its callback at once
    have hnow : w.gathers event.kind = false := by simp [gathers, hkind]
    unfold handOverAll handOver
    rw [hnow]
    split
    · simp
    · intro j hj
      rcases List.mem_cons.mp hj with rfl | hj
      · trivial
      · exact hannounce _ j hj

/-! ### At the desk -/

theorem vouched_record (job : Desk.Job Wish) (journal : Journal) :
    ∀ j ∈ (Desk.record behaviour journal job).2, Vouched callback L (.desk j) := by
  cases job with
  | call c x onPanic =>
    intro j hj
    rcases List.mem_append.mp hj with hj | hj
    · obtain ⟨r, -, rfl⟩ := List.mem_map.mp hj
      trivial
    · split at hj
      · rw [List.mem_singleton.mp hj]
        trivial
      · exact absurd hj List.not_mem_nil
  | _ => intro j hj; exact absurd hj List.not_mem_nil

/-- An offer that opens a window is kept by what is next, and any other falls into a window
that is open. -/
theorem change_offer {offer : Dispatch} {caller : Caller} {opens : Bool}
    (hvouched : Vouched callback L (.desk (.offer offer caller))) (haccepting : g'.Accepting)
    (hwindow : opensWindow w.desk offer.key = opens)
    (hnext : ∀ j ∈ next, Vouched callback L j)
    (hopens : opens = true → ∃ j ∈ next, Keeps offer j)
    (hfallsIn : opens = false → offer.key ∈ g.pending)
    (hpending : ∀ name ∈ g'.pending, name ∈ g.pending ∨ name = offer.key ∧ opens = true)
    (hawaits : ∀ d, g.Awaits d → g'.Awaits d) :
    ChangeEffect callback L (.desk (.offer offer caller)) g g' next
      (stages (.desk (.offer offer caller)) w) := by
  obtain ⟨rfl, hkind, hresolved⟩ := hvouched
  simp only [stages, hwindow]
  refine ⟨haccepting, fun j hj => (hnext j hj).mono _, by simp, ?_, ?_, ?_, hawaits,
    fun _ h => h.elim, fun _ h => h.elim⟩
  · rintro name path ⟨rfl, hmodify, rfl⟩
    exact Or.inr ⟨_, _, List.mem_singleton_self _, hmodify, rfl⟩
  · intro name x opens' hmem
    obtain ⟨rfl, rfl, rfl⟩ := Stage.offered.inj (List.mem_singleton.mp hmem)
    exact ⟨rfl, hkind, hresolved, hopens, hfallsIn⟩
  · intro name hname
    refine (hpending name hname).imp_right ?_
    rintro ⟨rfl, rfl⟩
    exact ⟨_, List.mem_singleton_self _⟩

/-- What a job of the desk hands on. -/
theorem change_desk {job : Desk.Job Wish} {more : List (Desk.Job Wish)}
    (hg : w.desk.debouncer = some g) (haccepting : g.Accepting)
    (hvouched : Vouched callback L (.desk job)) (h : Desk.Operated g job g' more) :
    ChangeEffect callback L (.desk job) g g'
      (((Desk.record behaviour w.desk.journal job).2 ++ more).map .desk)
      (stages (.desk job) w) := by
  have haccepting' := h.accepting haccepting
  have hawaits : ∀ d, g.Awaits d → g'.Awaits d := fun _ => h.awaits
  have hopens : ∀ name, opensWindow w.desk name = !g.isPending name := by
    intro name
    unfold opensWindow
    rw [hg]
    rfl
  -- an offer falls into an open window or opens one; the window is handed to the queue, and
  -- from there to the dispatch that ends it
  cases h with
  | fallsIn d caller hpending =>
    have hfalse : opensWindow w.desk d.key = false := by
      rw [hopens, Bool.not_eq_false']
      exact decide_eq_true hpending
    refine change_offer hvouched haccepting' hfalse ?_ (by simp) (fun _ => hpending)
      (fun _ hname => Or.inl hname) hawaits
    simp [Desk.record, Vouched]
  | opens d caller hfree =>
    have htrue : opensWindow w.desk d.key = true := by
      rw [hopens, Bool.not_eq_true']
      exact decide_eq_false hfree
    refine change_offer hvouched haccepting' htrue ?_
      (fun _ => ⟨_, List.mem_singleton_self _, rfl⟩) (by simp) ?_ hawaits
    · simp [Desk.record, Vouched]
    · intro name hname
      exact (List.mem_append.mp hname).imp_right fun hnew => ⟨List.mem_singleton.mp hnew, rfl⟩
  | queues d caller =>
    refine ⟨haccepting', by simp [Desk.record, Vouched], by simp [stages], fun _ _ h => h.elim,
      by simp [stages], fun _ h => Or.inl h, hawaits, ?_, fun _ h => h.elim⟩
    -- from now on the debouncer keeps the window open
    rintro d' rfl
    exact Or.inl (Debouncer.awaits_queued.mpr (Or.inr rfl))
  | begins d =>
    refine ⟨haccepting', by simp [Desk.record, Vouched], by simp [stages], fun _ _ h => h.elim,
      by simp [stages], ?_, hawaits, ?_, fun _ h => h.elim⟩
    · exact fun _ h => Or.inl (List.mem_of_mem_filter h)
    -- the dispatch that begins takes the window over
    · rintro d' rfl
      refine Or.inr ⟨?_, _, List.mem_singleton_self _, rfl, rfl⟩
      simp [Debouncer.begin, Debouncer.release]
  | idles hidle =>
    -- no window is touched, and at most a callback is told
    have hnext : ∀ j ∈ ((Desk.record behaviour w.desk.journal job).2 ++ []).map Job.desk,
        Vouched callback L j := by
      rw [List.append_nil]
      intro j hj
      obtain ⟨x, hx, rfl⟩ := List.mem_map.mp hj
      exact vouched_record job w.desk.journal x hx
    cases job with
    | call c x onPanic =>
      refine ⟨haccepting, fun j hj => (hnext j hj).mono _, by simp [stages],
        fun _ _ h => h.elim, by simp [stages], fun _ h => Or.inl h, hawaits,
        fun _ h => h.elim, ?_⟩
      rintro d' ⟨rfl, rfl⟩
      exact List.mem_singleton_self _
    | offer d caller => exact absurd hidle (by simp [Desk.Job.idle])
    | commit d caller => exact absurd hidle (by simp [Desk.Job.idle])
    | begin d => exact absurd hidle (by simp [Desk.Job.idle])
    | shutdown => exact absurd hidle (by simp [Desk.Job.idle])
    | _ => exact .quiet haccepting (fun _ _ h => h) (fun _ h => h) (fun _ h => h) hnext

/-! ### Every job -/

/-- Only jobs of the desk do anything to the debouncer. -/
theorem perform_debouncer (h : perform behaviour job w = some d) (hjob : job.bystands = true) :
    d.state.desk.debouncer = w.desk.debouncer := by
  cases perform_outcome h with
  | @desk job _ _ hplain =>
    cases job with
    | request r x => exact absurd rfl (hplain r x)
    | _ => exact absurd hjob (by simp [Job.bystands])
  | _ => rfl

/-- What was created is dispatched as no modify change. -/
theorem vouched_dispatch {event : RawEvent} (hkind : event.kind = .create) (path : Path)
    (found : List Path) : Vouched callback L (.dispatch event path found) := by
  intro hmodify
  rw [hkind] at hmodify
  exact absurd hmodify (by simp)

theorem vouched_startFailed {caller : Caller} {e : WatchError} {j : Job}
    (h : j ∈ startFailed caller e) : Vouched callback L j := by
  rcases List.mem_cons.mp h with rfl | h
  · trivial
  · rw [List.mem_singleton.mp h]
    trivial

theorem vouched_afterTaken {taken : Taken} {j : Job} (h : j ∈ afterTaken taken) :
    Vouched callback L j := by
  rcases mem_afterTaken h with ⟨_, _, rfl⟩ | ⟨_, rfl⟩ | rfl | rfl | rfl <;> trivial

/-- What follows a job that has no part in it has to do with no modify change that was
not resolved before. -/
theorem vouched_follows {j : Job} (h : Follows w job j) (hjob : job.bystands = true)
    (hvouched : Vouched callback L job) : Vouched callback L j := by
  cases h with
  | rootRefused _ _ hj | walkFailed _ _ _ _ hj | submitRefused _ _ hj =>
    exact vouched_startFailed hj
  | taken _ hj | received _ hj => exact vouched_afterTaken hj
  | pickup => exact hvouched
  | survey => exact hvouched
  | surveyOn => exact hvouched
  | walk purpose => cases purpose <;> exact hvouched
  | pickedUp _ _ event path found => exact vouched_dispatch hvouched path found
  | surveyed event path found => exact vouched_dispatch hvouched path found
  | broken event path _ _ hj =>
    rcases List.mem_cons.mp hj with rfl | hj
    · trivial
    · rw [List.mem_singleton.mp hj]
      exact vouched_dispatch hvouched path []
  | desk job j hplain =>
    cases job with
    | request r x => exact absurd rfl (hplain r x)
    | _ => exact absurd hjob (by simp [Job.bystands])
  | panic | created | resolved | gathered | handedOver | announced | stop =>
    exact absurd hjob (by simp [Job.bystands])
  | _ => trivial

/-- Every job hands on the changes that it has, while the watch is not stopped. -/
theorem perform_changeEffect (h : perform behaviour job w = some d)
    (hrunning : d.state.stopped = false)
    (hg : w.desk.debouncer = some g) (haccepting : g.Accepting)
    (hhandler : w.handlers.modify = some callback) (hdelay : w.delay.isZero = false)
    (hvouched : Vouched callback L job) :
    ∃ g', d.state.desk.debouncer = some g' ∧
      ChangeEffect callback L job g g' d.next (stages job w) := by
  -- a job that leaves the debouncer alone and has no change
  have hquiet : job.bystands = true → (∀ name path, ¬ Owes name path job) →
      (∀ d, ¬ Keeps d job) → (∀ d, ¬ Delivers d job) → stages job w = [] →
      ∃ g', d.state.desk.debouncer = some g' ∧
        ChangeEffect callback L job g g' d.next (stages job w) := by
    intro hjob howes hkeeps hdelivers hnone
    refine ⟨g, (perform_debouncer h hjob).trans hg, ?_⟩
    rw [hnone]
    exact .quiet haccepting howes hkeeps hdelivers
      fun j hj => vouched_follows ((perform_threadEffect h).next j hj) hjob hvouched
  cases perform_outcome h with
  | handled key event => exact ⟨g, hg, change_handle haccepting key event w⟩
  | dispatched => exact ⟨g, hg, change_dispatch hg haccepting hhandler hdelay hvouched⟩
  -- a stop would set the flag
  | stopped => exact absurd hrunning (by simp [Done.andThen])
  | stoppedBefore =>
    exact ⟨g, hg, .quiet haccepting (fun _ _ h => h) (fun _ h => h) (fun _ h => h)
      (by simp [Done.just])⟩
  | @desk job desk next hplain hdesk =>
    rcases Desk.perform_cases hdesk with ⟨hnone, -, -⟩ | ⟨g₁, g', more, hg₁, hg', hoperate, hnext⟩
    · exact absurd (hg.symm.trans hnone) (by simp)
    · obtain rfl := Option.some.inj (hg.symm.trans hg₁)
      have hopen : job ≠ .shutdown := by
        rintro rfl
        exact hvouched
      refine ⟨g', hg', ?_⟩
      show ChangeEffect callback L (.desk job) g g' (next.map .desk) _
      rw [hnext]
      exact change_desk hg haccepting hvouched (Desk.operate_accepting haccepting hopen hoperate)
  | _ => exact hquiet rfl (fun _ _ h => h) (fun _ h => h) (fun _ h => h) rfl

end Coalescing

end ChangeWatch
