import ChangeWatch.Proofs.Dispatch.Shutdown
import ChangeWatch.Proofs.Watch.Serving

/-!
# What a watch owes its callbacks

Of what goes on at a watch some kinds of change are followed from the queue to the callback,
and the paths are looked at in some way (`Scope`).  A batch that waits, an event that is
being handled and a callback that is about to run each stand for what callbacks will be
told because of them (`owedSignal`, `owed`).

Where such changes are told at once (`Prompt`), a job passes on what it owes: part of it is
told by the job itself, and the rest is owed by what follows (`perform_owedEffect`).  Neither
is anything added, nor is anything lost or put in another order.
-/

namespace ChangeWatch

/-- What is followed to the callbacks: changes of some kinds, and their paths as they are
looked at. -/
structure Scope (γ : Type) where
  tracks : EventKind → Bool
  view : Path → γ
  /-- What is known of an event under a key as long as it waits. -/
  knows : Watch → Key → RawEvent → Prop

namespace Scope

open Watch
open Notified (ServiceEffect perform_serviceEffect)

variable {γ : Type} (v : Scope γ)

/-! ### Debts -/

/-- What a note says that a callback was told. -/
def ran : Note → List (Callback × EventKind × γ)
  | .ran c x => if v.tracks x.kind then [(c, x.kind, v.view x.path)] else []
  | _ => []

/-- What the callbacks of a watch were told so far. -/
def told (w : Watch) : List (Callback × EventKind × γ) :=
  w.desk.journal.notes.flatMap v.ran

/-- What is to be told of a change of a path. -/
def due (w : Watch) (kind : EventKind) (path : Path) : List (Callback × EventKind × γ) :=
  if v.tracks kind then (w.handlers.get kind).toList.map fun c => (c, kind, v.view path) else []

/-- What is to be told of an event. -/
def dueEvent (w : Watch) (key : Key) (event : RawEvent) : List (Callback × EventKind × γ) :=
  (w.strategy.target.resolve key event).toList.flatMap (v.due w event.kind)

/-- What is to be told because of a job. -/
def owed (w : Watch) : Job → List (Callback × EventKind × γ)
  | .handle key event => v.dueEvent w key event
  | .pickUp _ _ event path | .walk (.pickup event path) _ _ | .survey event path _ _
  | .dispatch event path _ => v.due w event.kind path
  | .desk (.call c x _) => v.ran (.ran c x)
  | _ => []

/-- What is to be told because of something that waits in the queue. -/
def owedSignal (w : Watch) : Signal → List (Callback × EventKind × γ)
  | .batch b => b.events.flatMap (v.dueEvent w b.key)
  | _ => []

/-! ### Jobs that fit in -/

/-- A watch at which what is followed is told at once, and nothing is found besides. -/
structure Prompt (w : Watch) : Prop where
  override : w.strategy.override = .none
  undelayed : ∀ kind, v.tracks kind = true → kind ≠ .modify ∨ w.delay.isZero = true
  /-- Only in a tree are entries found because of a creation. -/
  created : v.tracks .create = true → ∃ t, w.strategy.target = .file t

/-- A job that is about an event of which enough is known, or keeps to what is not followed
where it looks for entries or gathers changes. -/
def Fit (w : Watch) : Job → Prop
  | .handle key event => v.knows w key event
  | .walk (.pickup ..) .. | .survey .. | .announce .. => v.tracks .create = false
  | .dispatch _ _ found => v.tracks .create = true → found = []
  | .desk (.offer d _) | .desk (.commit d _) | .desk (.begin d) => v.tracks d.context.kind = false
  | _ => True

/-- Nothing that is gathered is followed. -/
def Gathers (desk : Desk) : Prop :=
  ∀ g, desk.debouncer = some g → ∀ x ∈ g.scheduler.waiting, v.tracks x.task.context.kind = false

variable {v} {behaviour : Behaviour Wish} {w w' : Watch} {job : Job} {d : Done Watch Job}
  {s : NotifyingService}

theorem Prompt.gathers (hw : v.Prompt w) {kind : EventKind} (h : w.gathers kind = true) :
    v.tracks kind = false := by
  cases htracks : v.tracks kind with
  | false => rfl
  | true =>
    simp only [Watch.gathers, Bool.and_eq_true, decide_eq_true_eq, Bool.not_eq_true'] at h
    rcases hw.undelayed kind htracks with hkind | hzero
    · exact absurd h.1.2 hkind
    · exact absurd (h.2.symm.trans hzero) (by simp)

theorem Prompt.sameSetup (hw : v.Prompt w) (h : SameSetup w w') : v.Prompt w' := by
  refine ⟨h.override.trans hw.override, fun kind hkind => ?_, fun hcreate => ?_⟩
  · rw [h.delay]
    exact hw.undelayed kind hkind
  · obtain ⟨t, ht⟩ := hw.created hcreate
    exact ⟨t, h.file ht⟩

/-! ### Jobs that owe nothing -/

/-- A job that neither owes anything nor leads to what does, unless it takes a batch. -/
def plain : Job → Bool
  | .handle .. | .pickUp .. | .walk (.pickup ..) .. | .survey .. | .dispatch .. | .announce ..
  | .desk (.call ..) | .desk (.offer ..) | .desk (.commit ..) | .desk (.begin _) => false
  | _ => true

theorem owed_of_plain (h : plain job = true) : v.owed w job = [] := by
  cases job with
  | desk job => cases job <;> first | rfl | exact absurd h (by simp [plain])
  | walk purpose => cases purpose <;> first | rfl | exact absurd h (by simp [plain])
  | _ => first | rfl | exact absurd h (by simp [plain])

theorem fit_of_plain (h : plain job = true) : v.Fit w job := by
  cases job with
  | desk job => cases job <;> first | exact trivial | exact absurd h (by simp [plain])
  | walk purpose => cases purpose <;> first | exact trivial | exact absurd h (by simp [plain])
  | _ => first | exact trivial | exact absurd h (by simp [plain])

theorem plain_startFailed {caller : Caller} {e : WatchError} {j : Job}
    (h : j ∈ startFailed caller e) : plain j = true := by
  rcases List.mem_cons.mp h with rfl | h
  · rfl
  · rw [List.mem_singleton.mp h]
    rfl

/-- What follows a plain job is plain, unless it is taken from the queue or is at the desk. -/
theorem follows_plain {j : Job} (h : Follows w job j) (hjob : plain job = true)
    (hreceive : job ≠ .receive) (htake : job ≠ .take)
    (hdesk : ∀ x, (∀ r y, x ≠ .request r y) → job ≠ .desk x) : plain j = true := by
  cases h with
  | rootRefused _ _ hj | walkFailed _ _ _ _ hj | submitRefused _ _ hj => exact plain_startFailed hj
  | stop _ hj =>
    simp only [List.mem_cons, List.not_mem_nil, or_false] at hj
    rcases hj with rfl | rfl | rfl <;> rfl
  | taken => exact absurd rfl htake
  | received => exact absurd rfl hreceive
  | broken => exact absurd hjob (by simp [plain])
  | walk purpose =>
    cases purpose with
    | start caller => rfl
    | pickup event path => exact absurd hjob (by simp [plain])
  | desk x j hplain => exact absurd rfl (hdesk x hplain)
  | _ => first | rfl | exact absurd hjob (by simp [plain])

/-! ### What is told -/

/-- Only at the desk are callbacks told anything. -/
theorem perform_told (h : perform behaviour job w = some d)
    (hdesk : ∀ x, (∀ r y, x ≠ .request r y) → job ≠ .desk x) : v.told d.state = v.told w := by
  cases perform_outcome h with
  | answered caller error =>
    -- the answer to a call is noted, and tells no callback anything
    show (w.desk.journal.notes ++ [Note.started caller error]).flatMap v.ran = _
    rw [List.flatMap_append]
    exact List.append_nil _
  | desk hplain => exact absurd rfl (hdesk _ hplain)
  | _ => rfl

/-! ### Jobs that pass on what they owe -/

/-- What a job does to what it owes: it tells a part of it, and the rest is owed by what
follows. -/
structure OwedEffect (v : Scope γ) (w : Watch) (job : Job) (d : Done Watch Job) : Prop where
  paid : ∃ new, v.told d.state = v.told w ++ new ∧
    v.owed w job = new ++ d.next.flatMap (v.owed w)
  fit : ∀ j ∈ d.next, v.Fit w j

/-- A job that tells nothing. -/
theorem OwedEffect.on (htold : v.told d.state = v.told w)
    (howed : v.owed w job = d.next.flatMap (v.owed w)) (hfit : ∀ j ∈ d.next, v.Fit w j) :
    v.OwedEffect w job d :=
  ⟨⟨[], by rw [htold, List.append_nil], howed⟩, hfit⟩

/-- A job that has told all that it owes. -/
theorem OwedEffect.of_plain (htold : v.told d.state = v.told w ++ v.owed w job)
    (hnext : ∀ j ∈ d.next, plain j = true) : v.OwedEffect w job d := by
  refine ⟨⟨_, htold, ?_⟩, fun j hj => fit_of_plain (hnext j hj)⟩
  rw [List.flatMap_eq_nil_iff.mpr fun j hj => owed_of_plain (hnext j hj), List.append_nil]

/-- A job that hands its event on to one other. -/
theorem OwedEffect.one {w' : Watch} {j : Job} (htold : v.told w' = v.told w)
    (howed : v.owed w job = v.owed w j) (hfit : v.Fit w j) :
    v.OwedEffect w job (.andThen w' [j]) := by
  refine .on htold ?_ fun j' hj' => List.mem_singleton.mp hj' ▸ hfit
  rw [howed]
  exact (List.append_nil _).symm

theorem owed_handle (hw : v.Prompt w) (key : Key) (event : RawEvent) :
    v.OwedEffect w (.handle key event) (.andThen { w with handled := w.handled + 1 }
      (afterResolve w.handled key event (w.strategy.resolve w.handled key event))) := by
  have hresolve : w.strategy.resolve w.handled key event =
      .ofOption (w.strategy.target.resolve key event) := by
    unfold Strategy.resolve
    rw [hw.override]
    rfl
  have hdue : v.owed w (.handle key event) =
      (w.strategy.target.resolve key event).toList.flatMap (v.due w event.kind) := rfl
  rw [hresolve]
  cases hpath : w.strategy.target.resolve key event with
  | none =>
    refine .on rfl ?_ (by simp [Done.andThen, Resolution.ofOption, afterResolve])
    rw [hdue, hpath]
    rfl
  | some path =>
    have howed : v.owed w (.handle key event) = v.due w event.kind path := by
      rw [hdue, hpath]
      exact List.append_nil _
    simp only [Resolution.ofOption, afterResolve]
    split
    · exact .one rfl howed trivial
    · exact .one rfl howed fun _ => rfl

theorem owed_pickUp (hw : v.Prompt w) (count : Nat) (key : Key) (event : RawEvent) (path : Path) :
    v.OwedEffect w (.pickUp count key event path) (.andThen w (w.pickUp count key event path)) := by
  have hcreated : w.strategy.override.created count key path = none := by
    rw [hw.override]
    rfl
  unfold pickUp
  rw [hcreated]
  dsimp only
  split
  · exact .one rfl rfl fun _ => rfl
  · next t htree =>
    split
    · exact .one rfl rfl fun _ => rfl
    · refine .one rfl rfl (Bool.eq_false_iff.mpr fun hcreate => ?_)
      obtain ⟨t', hfile⟩ := hw.created hcreate
      exact absurd (hfile.symm.trans htree) (by simp)

theorem owed_dispatch (hw : v.Prompt w) (event : RawEvent) (path : Path) {found : List Path}
    (hfound : v.tracks .create = true → found = []) :
    v.OwedEffect w (.dispatch event path found) (.andThen w (w.handOverAll event path found)) := by
  have howed : v.owed w (.dispatch event path found) = v.due w event.kind path := rfl
  unfold handOverAll
  cases hhandler : w.handlers.get event.kind with
  | none =>
    refine .on rfl ?_ fun j hj => absurd hj List.not_mem_nil
    rw [howed]
    simp [due, hhandler, Done.andThen]
  | some callback =>
    dsimp only
    -- what was found on the way is announced, and those calls are not followed
    have hfit : ∀ j ∈ found.map (Job.announce callback), v.Fit w j := by
      intro j hj
      obtain ⟨p, hp, rfl⟩ := List.mem_map.mp hj
      refine Bool.eq_false_iff.mpr fun hcreate => ?_
      rw [hfound hcreate] at hp
      exact absurd hp List.not_mem_nil
    have hsilent : (found.map (Job.announce callback)).flatMap (v.owed w) = [] := by
      refine List.flatMap_eq_nil_iff.mpr fun j hj => ?_
      obtain ⟨p, -, rfl⟩ := List.mem_map.mp hj
      rfl
    -- the event itself is due now; gathered kinds are not followed
    have hdue : v.due w event.kind path =
        v.owed w (w.handOver event callback (.observe w.ground.disk event.kind path)) ∧
        v.Fit w (w.handOver event callback (.observe w.ground.disk event.kind path)) := by
      unfold handOver
      split
      · next hgathers =>
        have huntracked := hw.gathers hgathers
        exact ⟨if_neg (by rw [huntracked]; simp), huntracked⟩
      · refine ⟨?_, trivial⟩
        unfold due
        rw [hhandler]
        rfl
    refine .on rfl ?_ fun j hj => ?_
    · show _ = (_ :: found.map (Job.announce callback)).flatMap (v.owed w)
      rw [List.flatMap_cons, hsilent, List.append_nil, howed, hdue.1]
    · rcases List.mem_cons.mp hj with rfl | hj
      · exact hdue.2
      · exact hfit j hj

/-! ### The desk -/

/-- The journal is kept by what is recorded of a job. -/
theorem desk_journal {desk desk' : Desk} {job : Desk.Job Wish} {next : List (Desk.Job Wish)}
    (h : Desk.perform behaviour job desk = some (desk', next)) :
    desk'.journal = (Desk.record behaviour desk.journal job).1 := by
  unfold Desk.perform at h
  dsimp only at h
  split at h
  · obtain ⟨rfl, -⟩ := Prod.mk.inj (Option.some.inj h)
    rfl
  · obtain ⟨r, -, heq⟩ := Option.map_eq_some_iff.mp h
    obtain ⟨rfl, -⟩ := Prod.mk.inj heq
    rfl

/-- What a commitment leads to is a dispatch of the same change, if any. -/
theorem afterCommit_fit {x : Dispatch} {caller : Caller} {commitment : Commitment}
    (huntracked : v.tracks x.context.kind = false) :
    ∀ j ∈ (Desk.afterCommit x caller commitment : List (Desk.Job Wish)),
      v.owed w (.desk j) = [] ∧ v.Fit w (.desk j) := by
  have hplain : ∀ {j : Desk.Job Wish}, plain (.desk j) = true →
      v.owed w (.desk j) = [] ∧ v.Fit w (.desk j) :=
    fun hj => ⟨owed_of_plain hj, fit_of_plain hj⟩
  intro j hj
  cases commitment with
  | accepted =>
    rw [List.mem_singleton.mp hj]
    exact hplain rfl
  | immediate =>
    rcases List.mem_cons.mp hj with rfl | hj
    · exact ⟨rfl, huntracked⟩
    · rcases List.mem_cons.mp hj with rfl | hj
      · exact hplain rfl
      · rw [List.mem_singleton.mp hj]
        exact hplain rfl
  | declined warning =>
    cases warning with
    | none =>
      rw [List.mem_singleton.mp hj]
      exact hplain rfl
    | some warning =>
      rcases List.mem_cons.mp hj with rfl | hj
      · exact hplain rfl
      · rw [List.mem_singleton.mp hj]
        exact hplain rfl

/-- The debouncer leads to nothing that is followed. -/
theorem operate_fit {g g' : Debouncer} {job : Desk.Job Wish} {next : List (Desk.Job Wish)}
    (h : Desk.operate g job = some (g', next)) (hfit : v.Fit w (.desk job)) :
    ∀ j ∈ next, v.owed w (.desk j) = [] ∧ v.Fit w (.desk j) := by
  -- an offer hands its change on until a dispatch runs the callback with it, and the change is
  -- of a kind that is not followed (`hfit`)
  cases Desk.operate_operates h with
  | fallsIn =>
    intro j hj
    rw [List.mem_singleton.mp hj]
    exact ⟨owed_of_plain rfl, fit_of_plain rfl⟩
  | opens =>
    intro j hj
    rw [List.mem_singleton.mp hj]
    exact ⟨rfl, hfit⟩
  | commits => exact afterCommit_fit hfit
  | begins x =>
    intro j hj
    rw [List.mem_singleton.mp hj]
    refine ⟨?_, trivial⟩
    show v.ran (.ran x.callback x.context) = []
    have huntracked : v.tracks x.context.kind = false := hfit
    simp [ran, huntracked]
  | unlocks | closes | remains | idles => exact fun j hj => absurd hj List.not_mem_nil

/-- What is recorded of a job is what it owes, and leads to nothing that is followed. -/
theorem record_owed (behaviour : Behaviour Wish) (job : Desk.Job Wish) (journal : Journal) :
    (Desk.record behaviour journal job).1.notes.flatMap v.ran =
        journal.notes.flatMap v.ran ++ v.owed w (.desk job) ∧
      ∀ j ∈ (Desk.record behaviour journal job).2, plain (.desk j) = true := by
  cases job with
  | call c x onPanic =>
    refine ⟨?_, fun j hj => ?_⟩
    · show (journal.notes ++ [Note.ran c x]).flatMap v.ran = _
      rw [List.flatMap_append]
      exact congrArg _ (List.append_nil _)
    · rcases List.mem_append.mp hj with hj | hj
      · obtain ⟨r, -, rfl⟩ := List.mem_map.mp hj
        rfl
      · split at hj
        · rw [List.mem_singleton.mp hj]
          rfl
        · exact absurd hj List.not_mem_nil
  | answer key accepted caller =>
    refine ⟨?_, fun j hj => absurd hj List.not_mem_nil⟩
    show (journal.notes ++ [Note.offered caller key accepted]).flatMap v.ran = _
    rw [List.flatMap_append]
    rfl
  | _ => exact ⟨(List.append_nil _).symm, fun j hj => absurd hj List.not_mem_nil⟩

/-- A callback that is called is told at once. -/
theorem tells_call (behaviour : Behaviour Wish) (w : Watch) (callback : Callback) (x : Context)
    (onPanic : Warning) : ∃ d, perform behaviour (.desk (.call callback x onPanic)) w = some d ∧
      v.told d.state = v.told w ++ v.ran (.ran callback x) := by
  have hdesk : ∃ desk next, Desk.perform behaviour (.call callback x onPanic) w.desk =
      some (desk, next) := by
    unfold Desk.perform
    dsimp only
    split <;> exact ⟨_, _, rfl⟩
  obtain ⟨desk, next, hdesk⟩ := hdesk
  refine ⟨.andThen { w with desk } (next.map .desk), ?_, ?_⟩
  · simp only [perform, hdesk, Option.map_some]
  · show desk.journal.notes.flatMap v.ran = _
    rw [desk_journal hdesk]
    exact (record_owed (w := w) behaviour (.call callback x onPanic) w.desk.journal).1

/-- A job at the desk tells what it owes. -/
theorem owed_desk {job : Desk.Job Wish} {desk : Desk} {next : List (Desk.Job Wish)}
    (h : Desk.perform behaviour job w.desk = some (desk, next)) (hfit : v.Fit w (.desk job)) :
    v.OwedEffect w (.desk job) (.andThen { w with desk } (next.map .desk)) := by
  obtain ⟨htold, hplain⟩ := record_owed (v := v) (w := w) behaviour job
    w.desk.journal
  have hnext : ∀ j ∈ next, v.owed w (.desk j) = [] ∧ v.Fit w (.desk j) := by
    rcases Desk.perform_cases h with ⟨-, -, rfl⟩ | ⟨g, g', more, -, -, hoperate, rfl⟩
    · exact fun j hj => ⟨owed_of_plain (hplain j hj), fit_of_plain (hplain j hj)⟩
    · intro j hj
      rcases List.mem_append.mp hj with hj | hj
      · exact ⟨owed_of_plain (hplain j hj), fit_of_plain (hplain j hj)⟩
      · exact operate_fit hoperate hfit j hj
  refine ⟨⟨v.owed w (.desk job), ?_, ?_⟩, fun j hj => ?_⟩
  · show desk.journal.notes.flatMap v.ran = _
    rw [desk_journal h]
    exact htold
  · have hsilent : (next.map Job.desk).flatMap (v.owed w) = [] := by
      refine List.flatMap_eq_nil_iff.mpr fun j hj => ?_
      obtain ⟨x, hx, rfl⟩ := List.mem_map.mp hj
      exact (hnext x hx).1
    show _ = _ ++ (next.map Job.desk).flatMap (v.owed w)
    rw [hsilent, List.append_nil]
  · obtain ⟨x, hx, rfl⟩ := List.mem_map.mp hj
    exact (hnext x hx).2

/-- Nothing that is followed is given to the scheduler. -/
theorem operate_gathers {g g' : Debouncer} {job : Desk.Job Wish} {next : List (Desk.Job Wish)}
    (h : Desk.operate g job = some (g', next)) (hfit : v.Fit w (.desk job))
    (hwaiting : ∀ x ∈ g.scheduler.waiting, v.tracks x.task.context.kind = false) :
    ∀ x ∈ g'.scheduler.waiting, v.tracks x.task.context.kind = false := by
  cases Desk.operate_operates h with
  | commits =>
    intro x hx
    rcases Desk.mem_commit hx with hx | hx
    · exact hwaiting x hx
    · -- the new task is of the kind that was offered, which is not followed
      rw [hx]
      exact hfit
  | closes => exact fun x hx => absurd hx List.not_mem_nil
  | fallsIn | opens | begins | unlocks | remains | idles => exact hwaiting

/-! ### Every job -/

/-- Nothing that is followed is ever gathered. -/
theorem perform_gathers (h : perform behaviour job w = some d) (hfit : v.Fit w job)
    (hw : v.Gathers w.desk) : v.Gathers d.state.desk := by
  cases perform_controlEffect h with
  | stop | close | receive => exact hw
  | calm _ hcalm =>
    intro g hg
    rw [hcalm.debouncer] at hg
    exact hw g hg
  | desk hdesk =>
    intro g' hg'
    rcases Desk.perform_cases hdesk with ⟨-, hnone, -⟩ | ⟨g, g₁, more, hg, hg₁, hoperate, -⟩
    · exact absurd (hnone.symm.trans hg') (by simp)
    · obtain rfl := Option.some.inj (hg₁.symm.trans hg')
      exact operate_gathers hoperate hfit (hw g hg)

/-- Every job that takes nothing from the queue passes on what it owes. -/
theorem perform_owedEffect (hw : v.Prompt w) (hs : w.ground.service = .notifying s)
    (h : perform behaviour job w = some d) (hfit : v.Fit w job) (hjob : job ≠ .receive) :
    v.OwedEffect w job d := by
  have hplain : plain job = true → job ≠ .take → (∀ x, (∀ r y, x ≠ .request r y) → job ≠ .desk x) →
      v.OwedEffect w job d := by
    intro hjob' htake hdesk
    refine .of_plain ?_ fun j hj => ?_
    · rw [owed_of_plain hjob', List.append_nil]
      exact perform_told h hdesk
    · exact follows_plain ((perform_threadEffect h).next j hj) hjob' hjob htake hdesk
  cases perform_outcome h with
  | received => exact absurd rfl hjob
  | taken henter =>
    -- without waiting there is nothing to take but the end
    rw [hs] at henter
    obtain ⟨henter, -⟩ := Prod.mk.inj henter
    unfold NotifyingService.enter at henter
    split at henter
    · obtain rfl := Option.some.inj henter
      refine .of_plain (List.append_nil _).symm fun j hj => ?_
      rw [List.mem_singleton.mp hj]
      rfl
    · exact absurd henter (by simp)
  | waiting =>
    refine .of_plain (List.append_nil _).symm fun j hj => ?_
    rw [List.mem_singleton.mp hj]
    rfl
  | handled key event => exact owed_handle hw key event
  | pickedUp count key event path => exact owed_pickUp hw count key event path
  -- what a pickup walks and lists is found besides, and the event itself stays owed
  | walked purpose =>
    cases purpose with
    | start caller => exact hplain rfl (by simp) (by simp)
    | pickup event path => exact .one rfl rfl hfit
  | walkBroken purpose =>
    cases purpose with
    | start caller => exact hplain rfl (by simp) (by simp)
    | pickup event path =>
      refine .on rfl (List.append_nil _).symm fun j hj => ?_
      rcases List.mem_cons.mp hj with rfl | hj
      · exact trivial
      · rw [List.mem_singleton.mp hj]
        exact fun _ => rfl
  | walkEnded purpose =>
    cases purpose with
    | start caller => exact hplain rfl (by simp) (by simp)
    | pickup event path => exact .one rfl rfl hfit
  | surveyed event path found =>
    have hcreate : v.tracks .create = false := hfit
    exact .one rfl rfl fun hcreate' => absurd (hcreate.symm.trans hcreate') (by simp)
  | listed => exact .one rfl rfl hfit
  | dispatched event path found => exact owed_dispatch hw event path hfit
  | announced callback path =>
    refine .one rfl ?_ trivial
    have hcreate : v.tracks .create = false := hfit
    show [] = v.ran (.ran callback (.observe w.ground.disk .create path))
    simp [ran, Context.observe, hcreate]
  | startWished x | stopWished x =>
    exact hplain rfl (by simp) fun y hy heq => hy _ x (Job.desk.inj heq).symm
  | desk _ hdesk => exact owed_desk hdesk hfit
  | _ => exact hplain rfl (by simp) (by simp)

end Scope

end ChangeWatch
