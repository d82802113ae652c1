import ChangeWatch.Dispatch.Desk
import ChangeWatch.Proofs.Work.Thread
import Mathlib.Data.List.Nodup

/-!
# Gathering is greedy windows, key by key

Changes are offered to a desk at certain times.  Before each offer time passes,
and what falls due is dispatched at its own time, in whatever order the
scheduler chooses among what is due at once; after the last offer time passes up
to a horizon (`Desk.session`).  Every note is stamped with its time and with the
key that it concerns.

What is stamped with a key is then a function of the offers under this key alone
(`Desk.windows`): the first offer is accepted and opens a window, offers in an
open window are turned down, and when the window closes the offer that opened it
is dispatched.  The proof follows the session: the open windows are the tasks
that wait, one for each pending key (`Debouncer.Gathering`), where nothing else keeps
the scheduler from accepting (`Debouncer.Accepting`), and letting time
pass or making an offer does to the window of a key what `Desk.close` and
`Desk.join` say.
-/

namespace ChangeWatch

/-! ### Schedulers that are on time -/

/-- A scheduler of this policy accepts every task with this delay, to be run when
it is due. -/
def Policy.Accepts (policy : Policy) (delay : Duration) : Prop :=
  policy = .queueing ∨ policy = .ranged ∧ Scheduler.inRange delay = true

namespace Scheduler

variable {α : Type}

/-- A choice of what is run next, up to a time, by which every task is run once,
when it is due. -/
structure Punctual (choose : Nat → Scheduler α → Option (α × Scheduler α)) : Prop where
  taken : ∀ {limit s next}, choose limit s = some next →
    ∃ w front back, s.waiting = front ++ w :: back ∧ (∀ v ∈ s.waiting, w.due ≤ v.due) ∧
      w.due ≤ limit ∧
      next = (w.task, { s with now := max s.now w.due, waiting := front ++ back })
  ended : ∀ {limit s}, choose limit s = none → ∀ v ∈ s.waiting, limit < v.due

theorem earliest?_eq_none {ws : List (Waiting α)} (h : earliest? ws = none) : ws = [] := by
  cases ws with
  | nil => rfl
  | cons w ws =>
    unfold earliest? at h
    split at h
    · exact absurd h (by simp)
    · split at h <;> exact absurd h (by simp)

/-- What is chosen as the earliest is one of the tasks, and none is due before it. -/
theorem earliest?_eq_some {ws : List (Waiting α)} {w : Waiting α} {rest : List (Waiting α)}
    (h : earliest? ws = some (w, rest)) :
    ∃ front back, ws = front ++ w :: back ∧ rest = front ++ back ∧ ∀ v ∈ ws, w.due ≤ v.due := by
  induction ws generalizing w rest with
  | nil => exact absurd h (by simp [earliest?])
  | cons a ws ih =>
    unfold earliest? at h
    split at h
    · next hnone =>
      obtain ⟨rfl, rfl⟩ := Prod.mk.inj (Option.some.inj h)
      obtain rfl := earliest?_eq_none hnone
      exact ⟨[], [], rfl, rfl, by simp⟩
    · next v others hsome =>
      obtain ⟨front, back, hws, hothers, hmin⟩ := ih hsome
      -- of the first task and the earliest of the others, the earlier one
      split at h
      · next hle =>
        obtain ⟨rfl, rfl⟩ := Prod.mk.inj (Option.some.inj h)
        refine ⟨[], ws, rfl, rfl, ?_⟩
        intro x hx
        rcases List.mem_cons.mp hx with rfl | hx
        · exact Nat.le_refl _
        · exact Nat.le_trans hle (hmin x hx)
      · next hlt =>
        obtain ⟨rfl, rfl⟩ := Prod.mk.inj (Option.some.inj h)
        refine ⟨a :: front, back, by rw [hws]; rfl, by rw [hothers]; rfl, ?_⟩
        intro x hx
        rcases List.mem_cons.mp hx with rfl | hx
        · exact Nat.le_of_lt (Nat.not_le.mp hlt)
        · exact hmin x hx

/-- Running the task that is due first, of equals the one that came first, is on
time. -/
theorem punctual_next? : Punctual fun limit (s : Scheduler α) => s.next? limit := by
  constructor
  · intro limit s next h
    unfold next? at h
    split at h
    · exact absurd h (by simp)
    · next w rest hearliest =>
      obtain ⟨front, back, hws, rfl, hmin⟩ := earliest?_eq_some hearliest
      split at h
      · next hdue =>
        exact ⟨w, front, back, hws, hmin, hdue, (Option.some.inj h).symm⟩
      · exact absurd h (by simp)
  · intro limit s h v hv
    unfold next? at h
    split at h
    · next hnone =>
      rw [earliest?_eq_none hnone] at hv
      exact absurd hv List.not_mem_nil
    · next w rest hearliest =>
      obtain ⟨front, back, -, -, hmin⟩ := earliest?_eq_some hearliest
      split at h
      · exact absurd h (by simp)
      · next hlate => exact Nat.lt_of_lt_of_le (Nat.not_le.mp hlate) (hmin v hv)

end Scheduler

/-! ### A session at a desk -/

/-- A note, the time at which it was made, and the key that it concerns. -/
structure Stamped where
  time : Nat
  key : Option String
  note : Note
  deriving DecidableEq, Repr

namespace Desk

/-- How a scheduler chooses what is next, up to a time. -/
abbrev Choice : Type := Nat → Scheduler Dispatch → Option (Dispatch × Scheduler Dispatch)

variable {ρ : Type}

/-- The key that some jobs concern. -/
def keyOfJobs : List (Job ρ) → Option String
  | .begin d :: _ => some d.key
  | .offer d _ :: _ => some d.key
  | _ => none

variable (behaviour : Behaviour Plea) (choose : Choice) (fuel : Nat)

/-- Does some jobs, and yields what was noted meanwhile. -/
def observe (jobs : List (Job Plea)) (p : Pool Desk (Job Plea)) :
    List Stamped × Pool Desk (Job Plea) :=
  let q := p.call (machine behaviour) fuel jobs
  ((q.state.journal.notes.drop p.state.journal.notes.length).map
    fun note => ⟨q.state.now, keyOfJobs jobs, note⟩, q)

/-- Dispatches what falls due up to a time, at most so many, and yields what was
noted meanwhile. -/
def dispatchDue (time : Nat) : Nat → Pool Desk (Job Plea) → List Stamped × Pool Desk (Job Plea)
  | 0, p => ([], p)
  | n + 1, p =>
    match due? (choose time) p.state with
    | some (jobs, desk) =>
      let (told, p) := observe behaviour fuel jobs { p with state := desk }
      let (more, p) := dispatchDue time n p
      (told ++ more, p)
    | none => ([], p)

/-- Lets time pass up to a point, and yields what was noted meanwhile. -/
def pass (time : Nat) (p : Pool Desk (Job Plea)) : List Stamped × Pool Desk (Job Plea) :=
  let (told, p) := dispatchDue behaviour choose fuel time fuel p
  (told, p.modify (moveTo time))

/-- Offers made at their times, and time passing before each of them and after
them up to a horizon. -/
def session (horizon : Nat) : List (Nat × Dispatch) → Pool Desk (Job Plea) →
    List Stamped × Pool Desk (Job Plea)
  | [], p => pass behaviour choose fuel horizon p
  | (time, d) :: rest, p =>
    let (before, p) := pass behaviour choose fuel time p
    let (now, p) := observe behaviour fuel [.offer d .owner] p
    let (after, p) := session horizon rest p
    (before ++ (now ++ after), p)

/-- Letting time pass is no other than dispatching all that is due and setting the
clock forward. -/
theorem pass_snd (time : Nat) (p : Pool Desk (Job Plea)) :
    (pass behaviour choose fuel time p).2 =
      (p.drain (machine behaviour) (due? (choose time)) fuel fuel).modify (moveTo time) := by
  have hdrain : ∀ n (p : Pool Desk (Job Plea)), (dispatchDue behaviour choose fuel time n p).2 =
      p.drain (machine behaviour) (due? (choose time)) fuel n := by
    intro n
    induction n with
    | zero => intro p; rfl
    | succ n ih =>
      intro p
      rw [dispatchDue, Pool.drain]
      cases due? (choose time) p.state with
      | none => rfl
      | some next => exact ih _
  show (dispatchDue behaviour choose fuel time fuel p).2.modify (moveTo time) = _
  rw [hdrain]

/-- With the scheduler's own choice it is `Desk.elapse`. -/
theorem pass_next (time : Nat) (p : Pool Desk (Job Plea)) :
    (pass behaviour (fun limit s => s.next? limit) fuel time p).2 =
      elapse behaviour fuel time p :=
  pass_snd behaviour _ fuel time p

/-! ### The windows of one key -/

/-- The note of a dispatch. -/
def dispatched (time : Nat) (d : Dispatch) : Stamped :=
  ⟨time, some d.key, .ran d.callback d.context⟩

/-- The note of an offer. -/
def offered (time : Nat) (d : Dispatch) (accepted : Bool) : Stamped :=
  ⟨time, some d.key, .offered .owner d.key accepted⟩

/-- What time passing up to a point does to a window: if it closes by then, the
offer that opened it is dispatched at the time when it closes. -/
def close (time : Nat) : Option (Nat × Dispatch) → List Stamped × Option (Nat × Dispatch)
  | some (due, d) => if due ≤ time then ([dispatched due d], none) else ([], some (due, d))
  | none => ([], none)

/-- What an offer does to a window: it opens one or is turned down. -/
def join (delay time : Nat) (d : Dispatch) : Option (Nat × Dispatch) →
    Stamped × Option (Nat × Dispatch)
  | some window => (offered time d false, some window)
  | none => (offered time d true, some (time + delay, d))

/-- The greedy windows of the offers under one key, with the window that is open
before the first of them. -/
def windows (delay horizon : Nat) : Option (Nat × Dispatch) → List (Nat × Dispatch) → List Stamped
  | window, [] => (close horizon window).1
  | window, (time, d) :: rest =>
    let (before, window) := close time window
    let (now, window) := join delay time d window
    before ++ now :: windows delay horizon window rest

/-- Time that passes in two parts does what it does at once. -/
theorem close_close {t t' : Nat} (hle : t ≤ t') (window : Option (Nat × Dispatch)) :
    ((close t window).1 ++ (close t' (close t window).2).1, (close t' (close t window).2).2) =
      close t' window := by
  cases window with
  | none => rfl
  | some open_ =>
    by_cases hdue : open_.1 ≤ t
    · simp only [close, if_pos hdue, if_pos (Nat.le_trans hdue hle), List.append_nil]
    · simp only [close, if_neg hdue, List.nil_append]

/-- The windows may be looked at as of a later time, up to the next offer. -/
theorem close_windows {delay horizon t : Nat} {offers : List (Nat × Dispatch)}
    (hoffers : ∀ o ∈ offers, t ≤ o.1) (hhorizon : t ≤ horizon) (window : Option (Nat × Dispatch)) :
    (close t window).1 ++ windows delay horizon (close t window).2 offers =
      windows delay horizon window offers := by
  cases offers with
  | nil =>
    have h := close_close hhorizon window
    exact congrArg Prod.fst h
  | cons o rest =>
    have h := close_close (hoffers o List.mem_cons_self) window
    have hfst := congrArg Prod.fst h
    have hsnd := congrArg Prod.snd h
    dsimp only at hfst hsnd
    simp only [windows]
    rw [← List.append_assoc, hfst, hsnd]

/-- What opened a window is dispatched when it closes. -/
theorem dispatched_mem_windows {delay horizon due : Nat} {d : Dispatch} (hdue : due ≤ horizon)
    (offers : List (Nat × Dispatch)) :
    dispatched due d ∈ windows delay horizon (some (due, d)) offers := by
  induction offers with
  | nil =>
    rw [windows, close, if_pos hdue]
    exact List.mem_singleton_self _
  | cons o rest ih =>
    rw [windows, close]
    by_cases hclosed : due ≤ o.1
    · rw [if_pos hclosed]
      exact List.mem_append_left _ (List.mem_singleton_self _)
    · rw [if_neg hclosed]
      exact List.mem_append_right _ (List.mem_cons_of_mem _ ih)

/-- Every offer is followed by a dispatch, at the latest when its own window would
close. -/
theorem windows_follow {delay horizon : Nat} (hdelay : 0 < delay) :
    ∀ (offers : List (Nat × Dispatch)) (window : Option (Nat × Dispatch)),
      offers.Pairwise (fun a b => a.1 ≤ b.1) →
      (∀ open_, window = some open_ → ∀ o ∈ offers, open_.1 ≤ o.1 + delay) →
      ∀ o ∈ offers, o.1 + delay ≤ horizon → ∃ due d,
        dispatched due d ∈ windows delay horizon window offers ∧ o.1 < due ∧ due ≤ o.1 + delay := by
  intro offers
  induction offers with
  | nil => intro _ _ _ o ho; exact absurd ho List.not_mem_nil
  | cons a rest ih =>
    intro window hsorted hopen o ho hhorizon
    have hlater := (List.pairwise_cons.mp hsorted).1
    -- after the offer a window is open that closes within the delay
    obtain ⟨due, d, hjoined, hafter, hbefore⟩ : ∃ due d,
        (join delay a.1 a.2 (close a.1 window).2).2 = some (due, d) ∧ a.1 < due ∧
          due ≤ a.1 + delay := by
      cases window with
      | none => exact ⟨_, _, rfl, Nat.lt_add_of_pos_right hdelay, Nat.le_refl _⟩
      | some open_ =>
        by_cases hdue : open_.1 ≤ a.1
        · rw [close, if_pos hdue]
          exact ⟨_, _, rfl, Nat.lt_add_of_pos_right hdelay, Nat.le_refl _⟩
        · rw [close, if_neg hdue]
          exact ⟨_, _, rfl, Nat.not_le.mp hdue, hopen open_ rfl a List.mem_cons_self⟩
    have hrest : ∀ x ∈ windows delay horizon (some (due, d)) rest,
        x ∈ windows delay horizon window (a :: rest) := by
      intro x hx
      rw [windows]
      dsimp only
      rw [hjoined]
      exact List.mem_append_right _ (List.mem_cons_of_mem _ hx)
    rcases List.mem_cons.mp ho with rfl | ho
    · exact ⟨due, d, hrest _ (dispatched_mem_windows (Nat.le_trans hbefore hhorizon) rest),
        hafter, hbefore⟩
    · have hstill : ∀ open_, some (due, d) = some open_ → ∀ o ∈ rest, open_.1 ≤ o.1 + delay := by
        rintro _ ⟨⟩ o ho
        exact Nat.le_trans hbefore (Nat.add_le_add_right (hlater o ho) delay)
      obtain ⟨due', d', hmem, hbounds⟩ :=
        ih _ (List.pairwise_cons.mp hsorted).2 hstill o ho hhorizon
      exact ⟨due', d', hrest _ hmem, hbounds⟩

end Desk

/-! ### Windows are the tasks that wait -/

namespace Debouncer

/-- A debouncer whose scheduler accepts whatever it is given. -/
structure Accepting (g : Debouncer) : Prop where
  unlocked : g.locked = false
  running : g.shutDown = false
  accepting : g.scheduler.shutDown = false
  policy : g.scheduler.policy.Accepts g.delay

/-- Whatever it is given is queued. -/
theorem Accepting.schedule_eq {g : Debouncer} (h : g.Accepting) (d : Dispatch) :
    g.scheduler.schedule g.delay d = (.queued, g.scheduler.enqueue g.delay d) := by
  unfold Scheduler.schedule
  rw [if_neg (by rw [h.accepting]; simp)]
  rcases h.policy with hp | ⟨hp, hrange⟩
  · rw [hp]
  · rw [hp]
    dsimp only
    rw [if_pos hrange]

theorem Accepting.commit_eq {g : Debouncer} (h : g.Accepting) (d : Dispatch) :
    g.commit d = (.accepted, { g with scheduler := g.scheduler.enqueue g.delay d }) := by
  unfold Debouncer.commit
  rw [if_neg (by rw [h.running]; simp), h.schedule_eq]

/-- A debouncer that gathers: whatever it is offered it may give to its scheduler,
and the pending keys are those of the tasks that wait, one for each key. -/
structure Gathering (delay : Duration) (g : Debouncer) : Prop where
  delay_eq : g.delay = delay
  unlocked : g.locked = false
  running : g.shutDown = false
  accepting : g.scheduler.shutDown = false
  policy : g.scheduler.policy.Accepts delay
  pending : ∀ key, key ∈ g.pending ↔ key ∈ g.scheduler.waiting.map (·.task.key)
  distinct : (g.scheduler.waiting.map (·.task.key)).Nodup
  ahead : ∀ w ∈ g.scheduler.waiting, g.scheduler.now ≤ w.due

/-- The open window of a key: when it closes, and what opened it. -/
def window (g : Debouncer) (key : String) : Option (Nat × Dispatch) :=
  (g.scheduler.waiting.find? fun w => w.task.key = key).map fun w => (w.due, w.task)

/-- The debouncer with one more pending key. -/
def opened (g : Debouncer) (key : String) : Debouncer :=
  { g with pending := g.pending ++ [key] }

/-- The debouncer after it accepted a dispatch. -/
def accept (g : Debouncer) (d : Dispatch) : Debouncer :=
  { g.opened d.key with scheduler := g.scheduler.enqueue g.delay d }

/-- The debouncer after a dispatch that waited was taken up, the others being left. -/
def dispatch (g : Debouncer) (w : Waiting Dispatch) (rest : List (Waiting Dispatch)) : Debouncer :=
  { g with
    scheduler := { g.scheduler with now := max g.scheduler.now w.due, waiting := rest }
    pending := g.pending.filter (· ≠ w.task.key) }

variable {g : Debouncer} {delay : Duration}

theorem new_gathering {policy : Policy} (h : policy.Accepts delay) :
    (Debouncer.new delay policy).Gathering delay :=
  ⟨rfl, rfl, rfl, rfl, h, fun _ => Iff.rfl, List.nodup_nil, fun _ hw => absurd hw List.not_mem_nil⟩

namespace Gathering

theorem accepts (h : g.Gathering delay) : g.Accepting :=
  ⟨h.unlocked, h.running, h.accepting, h.delay_eq.symm ▸ h.policy⟩

/-- A key is pending while its window is open. -/
theorem window_eq_none_iff (h : g.Gathering delay) {key : String} :
    g.window key = none ↔ key ∉ g.pending := by
  unfold window
  rw [h.pending, Option.map_eq_none_iff, List.find?_eq_none]
  simp only [decide_eq_true_eq, List.mem_map, not_exists, not_and]

/-- A dispatch under a key that is not pending is accepted. -/
theorem accept (h : g.Gathering delay) {d : Dispatch} (hnew : d.key ∉ g.pending) :
    (g.accept d).Gathering delay := by
  refine ⟨h.delay_eq, h.unlocked, h.running, h.accepting, h.policy, ?_, ?_, ?_⟩
  · intro key
    show key ∈ g.pending ++ [d.key] ↔ key ∈ (g.scheduler.waiting ++ [_]).map _
    rw [List.map_append, List.mem_append, List.mem_append, h.pending]
    rfl
  · show ((g.scheduler.waiting ++ [_]).map _).Nodup
    rw [List.map_append, List.nodup_append]
    refine ⟨h.distinct, List.nodup_singleton _, ?_⟩
    intro a ha b hb hab
    rw [List.map_singleton, List.mem_singleton] at hb
    rw [hab, hb] at ha
    exact hnew ((h.pending _).mpr ha)
  · intro w hw
    rcases List.mem_append.mp hw with hw | hw
    · exact h.ahead w hw
    · rw [List.mem_singleton.mp hw]
      exact Nat.le_add_right _ _

/-- Accepting a dispatch opens the window of its key and no other. -/
theorem window_accept (h : g.Gathering delay) {d : Dispatch} (hnew : d.key ∉ g.pending)
    (key : String) :
    (g.accept d).window key =
      if key = d.key then some (g.scheduler.now + delay.nanoseconds, d) else g.window key := by
  unfold window
  have hwaiting : (g.accept d).scheduler.waiting =
      g.scheduler.waiting ++ [⟨g.scheduler.now + g.delay.nanoseconds, d⟩] := rfl
  rw [hwaiting, List.find?_append]
  by_cases hkey : key = d.key
  · have hnone : g.scheduler.waiting.find? (fun w => w.task.key = key) = none := by
      rw [← Option.map_eq_none_iff, ← window, h.window_eq_none_iff, hkey]
      exact hnew
    rw [if_pos hkey, hnone, Option.none_or, h.delay_eq]
    simp [hkey]
  · have hnot : [(⟨g.scheduler.now + g.delay.nanoseconds, d⟩ : Waiting Dispatch)].find?
        (fun w => w.task.key = key) = none := by
      simp [Ne.symm hkey]
    rw [if_neg hkey, hnot, Option.or_none]

/-- Taking one task out of the queue takes out its key, and no other. -/
theorem keys_middle (h : g.Gathering delay) {w : Waiting Dispatch}
    {front back : List (Waiting Dispatch)} (hw : g.scheduler.waiting = front ++ w :: back) :
    (w.task.key :: (front ++ back).map (·.task.key)).Nodup ∧
      ∀ key, key ∈ g.scheduler.waiting.map (·.task.key) ↔
        key = w.task.key ∨ key ∈ (front ++ back).map (·.task.key) := by
  have hperm : (g.scheduler.waiting.map (·.task.key)).Perm
      (w.task.key :: (front ++ back).map (·.task.key)) := by
    rw [hw]
    exact List.Perm.map _ List.perm_middle
  refine ⟨hperm.nodup_iff.mp h.distinct, fun key => ?_⟩
  rw [hperm.mem_iff, List.mem_cons]

/-- A dispatch that is due first is taken up: it waits no longer, and its key is
pending no longer. -/
theorem dispatch (h : g.Gathering delay) {w : Waiting Dispatch} {front back : List (Waiting Dispatch)}
    (hw : g.scheduler.waiting = front ++ w :: back)
    (hmin : ∀ v ∈ g.scheduler.waiting, w.due ≤ v.due) :
    (g.dispatch w (front ++ back)).Gathering delay := by
  obtain ⟨hnodup, hkeys⟩ := h.keys_middle hw
  obtain ⟨hgone, hdistinct⟩ := List.nodup_cons.mp hnodup
  refine ⟨h.delay_eq, h.unlocked, h.running, h.accepting, h.policy, ?_, hdistinct, ?_⟩
  · intro key
    show key ∈ g.pending.filter (· ≠ w.task.key) ↔ key ∈ (front ++ back).map (·.task.key)
    rw [List.mem_filter, h.pending, hkeys, decide_eq_true_iff]
    constructor
    · rintro ⟨heq | hmem, hne⟩
      · exact absurd heq hne
      · exact hmem
    · intro hmem
      refine ⟨Or.inr hmem, ?_⟩
      rintro rfl
      exact hgone hmem
  · intro v hv
    have hv' : v ∈ g.scheduler.waiting := by
      rw [hw]
      rcases List.mem_append.mp hv with hv | hv
      · exact List.mem_append_left _ hv
      · exact List.mem_append_right _ (List.mem_cons_of_mem _ hv)
    exact Nat.max_le.mpr ⟨h.ahead v hv', hmin v hv'⟩

/-- Taking up a dispatch closes the window of its key and no other. -/
theorem window_dispatch (h : g.Gathering delay) {w : Waiting Dispatch}
    {front back : List (Waiting Dispatch)} (hw : g.scheduler.waiting = front ++ w :: back)
    (key : String) :
    (g.dispatch w (front ++ back)).window key =
      if key = w.task.key then none else g.window key := by
  have hgone : w.task.key ∉ (front ++ back).map (·.task.key) :=
    (List.nodup_cons.mp (h.keys_middle hw).1).1
  unfold window
  show ((front ++ back).find? _).map _ = _
  by_cases hkey : key = w.task.key
  · rw [if_pos hkey, Option.map_eq_none_iff, List.find?_eq_none]
    intro v hv heq
    refine hgone (List.mem_map.mpr ⟨v, hv, ?_⟩)
    rw [← hkey]
    exact of_decide_eq_true heq
  · -- a search for another key passes over the task
    rw [if_neg hkey, hw, List.find?_append, List.find?_append, List.find?_cons_of_neg]
    simpa using Ne.symm hkey

/-- What waits is what opened the window of its key. -/
theorem window_of_mem (h : g.Gathering delay) {w : Waiting Dispatch}
    (hw : w ∈ g.scheduler.waiting) : g.window w.task.key = some (w.due, w.task) := by
  obtain ⟨front, back, hsplit⟩ := List.append_of_mem hw
  have hdistinct := h.distinct
  rw [hsplit, List.map_append, List.nodup_append] at hdistinct
  unfold window
  have hfind : g.scheduler.waiting.find? (fun v => v.task.key = w.task.key) = some w := by
    rw [List.find?_eq_some_iff_append]
    refine ⟨by simp, front, back, hsplit, ?_⟩
    intro v hv
    have hne := hdistinct.2.2 _ (List.mem_map_of_mem hv) w.task.key (by simp)
    simpa using hne
  rw [hfind]
  rfl

/-- An open window is that of something that waits. -/
theorem mem_of_window {key : String} {o : Nat × Dispatch} (hwindow : g.window key = some o) :
    o.2.key = key ∧ ∃ w ∈ g.scheduler.waiting, o = (w.due, w.task) := by
  obtain ⟨w, hfind, rfl⟩ := Option.map_eq_some_iff.mp hwindow
  exact ⟨by simpa using List.find?_some hfind, w, List.mem_of_find?_eq_some hfind, rfl⟩

/-- The clock may be set forward as long as nothing falls due. -/
theorem moveTo (h : g.Gathering delay) {time : Nat}
    (hahead : ∀ w ∈ g.scheduler.waiting, time ≤ w.due) :
    Gathering delay { g with scheduler := g.scheduler.moveTo time } :=
  ⟨h.delay_eq, h.unlocked, h.running, h.accepting, h.policy, h.pending, h.distinct,
    fun w hw => Nat.max_le.mpr ⟨h.ahead w hw, hahead w hw⟩⟩

end Gathering

end Debouncer

/-! ### What a call does -/

namespace Desk

variable {behaviour : Behaviour Plea} {g : Debouncer} {delay : Duration}

/-- The answer to an offer is noted, and that is all. -/
theorem runs_answer (key : String) (accepted : Bool) (j : Journal) :
    Runs (machine behaviour) [.answer key accepted .owner] ⟨some g, j⟩
      [.answer key accepted .owner] ⟨some g, j.note (.offered .owner key accepted)⟩ :=
  .andThen rfl (.done _)

/-- An offer under a pending key is turned down. -/
theorem runs_offer_pending {d : Dispatch} (hpending : d.key ∈ g.pending) (j : Journal) :
    Runs (machine behaviour) [.offer d .owner] ⟨some g, j⟩
      [.offer d .owner, .answer d.key false .owner]
      ⟨some g, j.note (.offered .owner d.key false)⟩ := by
  have hopen : g.open? d.key = none := if_pos hpending
  have hoffer : (machine behaviour).perform (.offer d .owner) ⟨some g, j⟩ =
      some (.andThen ⟨some g, j⟩ [.answer d.key false .owner]) := by
    simp only [machine, perform, record, operate, hopen, Option.map_some, List.nil_append]
  exact .andThen hoffer (runs_answer d.key false j)

/-- A scheduler that accepts is given the dispatch of an open window. -/
theorem commit_opened (h : g.Gathering delay) (d : Dispatch) :
    (g.opened d.key).commit d = (.accepted, g.accept d) := by
  have hopened : (g.opened d.key).Accepting :=
    ⟨h.unlocked, h.running, h.accepting, h.accepts.policy⟩
  rw [hopened.commit_eq]
  rfl

/-- An offer under any other key is accepted. -/
theorem runs_offer_free (h : g.Gathering delay) {d : Dispatch} (hfree : d.key ∉ g.pending)
    (j : Journal) :
    Runs (machine behaviour) [.offer d .owner] ⟨some g, j⟩
      [.offer d .owner, .commit d .owner, .answer d.key true .owner]
      ⟨some (g.accept d), j.note (.offered .owner d.key true)⟩ := by
  have hopen : g.open? d.key = some (g.opened d.key) := if_neg hfree
  have hlocked : (g.opened d.key).locked = false := h.unlocked
  have hoffer : (machine behaviour).perform (.offer d .owner) ⟨some g, j⟩ =
      some (.andThen ⟨some (g.opened d.key), j⟩ [.commit d .owner]) := by
    simp only [machine, perform, record, operate, hopen, Option.map_some, List.nil_append]
  have hcommit : (machine behaviour).perform (.commit d .owner) ⟨some (g.opened d.key), j⟩ =
      some (.andThen ⟨some (g.accept d), j⟩ [.answer d.key true .owner]) := by
    simp only [machine, perform, record, operate, hlocked, commit_opened h, afterCommit,
      Bool.false_eq_true, if_false, Option.map_some, List.nil_append]
  exact .andThen hoffer (.andThen hcommit (runs_answer d.key true j))

/-- A callback that asks for nothing is run, and may panic. -/
theorem runs_begin (hquiet : ∀ n c x, (behaviour n c x).requests = []) (d : Dispatch)
    (j : Journal) :
    ∃ log j', Runs (machine behaviour) [.begin d] ⟨some g, j⟩ log ⟨some (g.begin d), j'⟩ ∧
      log.length ≤ 3 ∧ j'.notes = j.notes ++ [.ran d.callback d.context] := by
  have hbegin : (machine behaviour).perform (.begin d) ⟨some g, j⟩ =
      some (.andThen ⟨some (g.begin d), j⟩ [.call d.callback d.context .modifyPanicked]) := rfl
  have hcall : (machine behaviour).perform (.call d.callback d.context .modifyPanicked)
      ⟨some (g.begin d), j⟩ = some (.andThen ⟨some (g.begin d), j.note (.ran d.callback d.context)⟩
        (if (behaviour j.notes.length d.callback d.context).panics
          then [.warn .modifyPanicked] else [])) := by
    simp only [machine, perform, record, operate, aftermath, hquiet, List.map_nil,
      List.nil_append, Option.map_some, List.append_nil]
  by_cases hpanics : (behaviour j.notes.length d.callback d.context).panics = true
  · rw [if_pos hpanics] at hcall
    have hwarn : Runs (machine behaviour) [.warn .modifyPanicked]
        ⟨some (g.begin d), j.note (.ran d.callback d.context)⟩ [.warn .modifyPanicked]
        ⟨some (g.begin d), (j.note (.ran d.callback d.context)).warn .modifyPanicked⟩ :=
      .andThen rfl (.done _)
    exact ⟨_, _, .andThen hbegin (.andThen hcall hwarn), by simp, rfl⟩
  · rw [if_neg hpanics] at hcall
    exact ⟨_, _, .andThen hbegin (.andThen hcall (.done _)), by simp, rfl⟩

/-- What is observed of jobs that come to their end. -/
theorem observe_of_runs {fuel : Nat} {jobs log : List (Job Plea)} {desk desk' : Desk}
    {notes : List Note} (h : Runs (machine behaviour) jobs desk log desk')
    (hfuel : log.length ≤ fuel) (hnotes : desk'.journal.notes = desk.journal.notes ++ notes) :
    observe behaviour fuel jobs ⟨desk, []⟩ =
      (notes.map fun note => ⟨desk'.now, keyOfJobs jobs, note⟩, ⟨desk', []⟩) := by
  unfold observe
  rw [h.call hfuel]
  simp only [hnotes, List.drop_left]

/-! ### Time passing -/

/-- What a desk is like after time passed up to a point, and what was noted
meanwhile. -/
structure Passed (delay : Duration) (time : Nat) (g : Debouncer) (j : Journal)
    (told : List Stamped) (g' : Debouncer) (j' : Journal) : Prop where
  gathering : g'.Gathering delay
  notes : j'.notes = j.notes ++ told.map (·.note)
  reached : g'.scheduler.now ≤ time
  ahead : ∀ w ∈ g'.scheduler.waiting, time < w.due
  fewer : g'.scheduler.waiting.length ≤ g.scheduler.waiting.length
  windows : ∀ key, (told.filter (·.key = some key), g'.window key) = close time (g.window key)

/-- Nothing happens while nothing is due. -/
theorem Passed.nothing (h : g.Gathering delay) {time : Nat} (hnow : g.scheduler.now ≤ time)
    (hahead : ∀ w ∈ g.scheduler.waiting, time < w.due) (j : Journal) :
    Passed delay time g j [] g j := by
  refine ⟨h, by simp, hnow, hahead, Nat.le_refl _, ?_⟩
  intro key
  cases hwindow : g.window key with
  | none => rfl
  | some open_ =>
    obtain ⟨-, w, hw, rfl⟩ := Debouncer.Gathering.mem_of_window hwindow
    rw [close, if_neg (Nat.not_le.mpr (hahead w hw))]
    rfl

/-- A dispatch that is due, and what comes after it. -/
theorem Passed.dispatch (h : g.Gathering delay) {time : Nat} {w : Waiting Dispatch}
    {front back : List (Waiting Dispatch)} (hw : g.scheduler.waiting = front ++ w :: back)
    (hdue : w.due ≤ time) {j j₁ j' : Journal} {told : List Stamped} {g' : Debouncer}
    (hnotes : j₁.notes = j.notes ++ [.ran w.task.callback w.task.context])
    (hrest : Passed delay time (g.dispatch w (front ++ back)) j₁ told g' j') :
    Passed delay time g j (dispatched w.due w.task :: told) g' j' := by
  refine ⟨hrest.gathering, ?_, hrest.reached, hrest.ahead, ?_, ?_⟩
  · rw [hrest.notes, hnotes, List.append_assoc]
    rfl
  · refine Nat.le_trans hrest.fewer ?_
    rw [hw]
    show (front ++ back).length ≤ (front ++ w :: back).length
    simp only [List.length_append, List.length_cons]
    omega
  · intro key
    have hmore := hrest.windows key
    rw [h.window_dispatch hw] at hmore
    have hself : g.window w.task.key = some (w.due, w.task) := h.window_of_mem (by rw [hw]; simp)
    by_cases hkey : key = w.task.key
    · subst hkey
      rw [if_pos rfl] at hmore
      rw [hself, close, if_pos hdue, List.filter_cons_of_pos (by simp [dispatched])]
      exact congrArg (fun r => (dispatched w.due w.task :: r.1, r.2)) hmore
    · rw [if_neg hkey] at hmore
      rw [List.filter_cons_of_neg (by simpa [dispatched] using Ne.symm hkey)]
      exact hmore

variable {choose : Choice} {fuel : Nat}

/-- Everything that falls due is dispatched, given enough steps. -/
theorem dispatchDue_spec (hchoose : Scheduler.Punctual choose)
    (hquiet : ∀ n c x, (behaviour n c x).requests = []) (hfuel : 3 ≤ fuel) (time : Nat) :
    ∀ (n : Nat) (g : Debouncer) (j : Journal), g.Gathering delay →
      g.scheduler.waiting.length ≤ n → g.scheduler.now ≤ time →
      ∃ told g' j', dispatchDue behaviour choose fuel time n ⟨⟨some g, j⟩, []⟩ =
        (told, ⟨⟨some g', j'⟩, []⟩) ∧ Passed delay time g j told g' j' := by
  intro n
  -- each dispatch takes a task out of the queue, and none comes while time passes
  induction n with
  | zero =>
    intro g j h hlength hnow
    have hempty : g.scheduler.waiting = [] := List.length_eq_zero_iff.mp (Nat.le_zero.mp hlength)
    refine ⟨[], g, j, rfl, .nothing h hnow ?_ j⟩
    rw [hempty]
    intro w hw
    exact absurd hw List.not_mem_nil
  | succ n ih =>
    intro g j h hlength hnow
    rw [dispatchDue]
    cases hnext : choose time g.scheduler with
    | none =>
      have hdue : due? (ρ := Plea) (choose time) ⟨some g, j⟩ = none := by
        show (choose time g.scheduler).bind _ = none
        rw [hnext]
        rfl
      rw [hdue]
      exact ⟨[], g, j, rfl, .nothing h hnow (hchoose.ended hnext) j⟩
    | some next =>
      obtain ⟨w, front, back, hw, hmin, hlimit, rfl⟩ := hchoose.taken hnext
      let taken : Debouncer := { g with
        scheduler := { g.scheduler with
          now := max g.scheduler.now w.due, waiting := front ++ back } }
      have hdue : due? (ρ := Plea) (choose time) ⟨some g, j⟩ =
          some ([.begin w.task], ⟨some taken, j⟩) := by
        show (choose time g.scheduler).bind _ = _
        rw [hnext]
        rfl
      rw [hdue]
      dsimp only
      obtain ⟨log, j₁, hruns, hlog, hnotes⟩ := runs_begin (g := taken) hquiet w.task j
      rw [show taken.begin w.task = g.dispatch w (front ++ back) from rfl] at hruns
      rw [observe_of_runs hruns (Nat.le_trans hlog hfuel) hnotes]
      have hleft : (g.dispatch w (front ++ back)).scheduler.waiting.length ≤ n := by
        rw [hw] at hlength
        show (front ++ back).length ≤ n
        simp only [List.length_append, List.length_cons] at hlength ⊢
        omega
      have hlater : (g.dispatch w (front ++ back)).scheduler.now ≤ time :=
        Nat.max_le.mpr ⟨hnow, hlimit⟩
      obtain ⟨told, g', j', heq, hrest⟩ := ih _ j₁ (h.dispatch hw hmin) hleft hlater
      -- the clock has not run ahead of the task, so it is dispatched at its own time
      have hstamp : (g.dispatch w (front ++ back)).scheduler.now = w.due :=
        Nat.max_eq_right (h.ahead w (by rw [hw]; simp))
      refine ⟨dispatched w.due w.task :: told, g', j', ?_, .dispatch h hw hlimit hnotes hrest⟩
      rw [heq]
      show (_ :: told, _) = _
      rw [← hstamp]
      rfl

/-- Letting time pass does to each window what `close` does, and the clock then
shows the time. -/
theorem pass_spec (hchoose : Scheduler.Punctual choose)
    (hquiet : ∀ n c x, (behaviour n c x).requests = []) (hfuel : 3 ≤ fuel) {time : Nat}
    (h : g.Gathering delay) (hlength : g.scheduler.waiting.length ≤ fuel)
    (hnow : g.scheduler.now ≤ time) (j : Journal) :
    ∃ told g' j', pass behaviour choose fuel time ⟨⟨some g, j⟩, []⟩ =
      (told, ⟨⟨some g', j'⟩, []⟩) ∧ Passed delay time g j told g' j' ∧
      g'.scheduler.now = time := by
  obtain ⟨told, g', j', heq, hpassed⟩ :=
    dispatchDue_spec hchoose hquiet hfuel time fuel g j h hlength hnow
  have hmoved : Debouncer.Gathering delay { g' with scheduler := g'.scheduler.moveTo time } :=
    hpassed.gathering.moveTo fun w hw => Nat.le_of_lt (hpassed.ahead w hw)
  have hclock : max g'.scheduler.now time = time := Nat.max_eq_right hpassed.reached
  refine ⟨told, { g' with scheduler := g'.scheduler.moveTo time }, j', ?_, ?_, hclock⟩
  · unfold pass
    rw [heq]
    rfl
  · exact ⟨hmoved, hpassed.notes, Nat.le_of_eq hclock, hpassed.ahead, hpassed.fewer,
      hpassed.windows⟩

/-! ### Offers -/

/-- An offer does to the window of its key what `join` does, and nothing to any
other. -/
theorem observe_offer (behaviour : Behaviour Plea) (hfuel : 3 ≤ fuel) (h : g.Gathering delay)
    (d : Dispatch) (j : Journal) :
    ∃ e g' j', observe behaviour fuel [.offer d .owner] ⟨⟨some g, j⟩, []⟩ =
      ([e], ⟨⟨some g', j'⟩, []⟩) ∧ g'.Gathering delay ∧ j'.notes = j.notes ++ [e.note] ∧
      g'.scheduler.now = g.scheduler.now ∧
      g'.scheduler.waiting.length ≤ g.scheduler.waiting.length + 1 ∧ e.key = some d.key ∧
      (e, g'.window d.key) = join delay.nanoseconds g.scheduler.now d (g.window d.key) ∧
      ∀ key, key ≠ d.key → g'.window key = g.window key := by
  -- a key is pending exactly while its window is open
  by_cases hpending : d.key ∈ g.pending
  · have hruns : Runs (machine behaviour) _ _ _ _ := runs_offer_pending hpending j
    refine ⟨offered g.scheduler.now d false, g, _, observe_of_runs hruns ?_ rfl, h, rfl, rfl,
      Nat.le_succ _, rfl, ?_, fun _ _ => rfl⟩
    · exact Nat.le_trans (by simp) hfuel
    · cases hwindow : g.window d.key with
      | none => exact absurd hpending (h.window_eq_none_iff.mp hwindow)
      | some open_ => rfl
  · have hruns : Runs (machine behaviour) _ _ _ _ := runs_offer_free h hpending j
    have hclosed : g.window d.key = none := h.window_eq_none_iff.mpr hpending
    refine ⟨offered g.scheduler.now d true, g.accept d, _, observe_of_runs hruns hfuel rfl,
      h.accept hpending, rfl, rfl, ?_, rfl, ?_, ?_⟩
    · show (g.scheduler.waiting ++ [_]).length ≤ _
      simp
    · rw [h.window_accept hpending, if_pos rfl, hclosed]
      rfl
    · intro key hkey
      rw [h.window_accept hpending, if_neg hkey]

/-! ### The whole session -/

/-- The offers under one key. -/
def offersUnder (key : String) (offers : List (Nat × Dispatch)) : List (Nat × Dispatch) :=
  offers.filter fun o => o.2.key = key

/-- From any moment on, what is noted of a key is what its window and the offers
under it amount to. -/
theorem session_spec (hchoose : Scheduler.Punctual choose)
    (hquiet : ∀ n c x, (behaviour n c x).requests = []) (hfuel : 3 ≤ fuel) {horizon : Nat} :
    ∀ (offers : List (Nat × Dispatch)) (g : Debouncer) (j : Journal), g.Gathering delay →
      g.scheduler.waiting.length + offers.length ≤ fuel →
      (∀ o ∈ offers, g.scheduler.now ≤ o.1 ∧ o.1 ≤ horizon) → g.scheduler.now ≤ horizon →
      offers.Pairwise (fun a b => a.1 ≤ b.1) →
      ∃ log g' j', session behaviour choose fuel horizon offers ⟨⟨some g, j⟩, []⟩ =
        (log, ⟨⟨some g', j'⟩, []⟩) ∧ j'.notes = j.notes ++ log.map (·.note) ∧
        ∀ key, log.filter (·.key = some key) =
          windows delay.nanoseconds horizon (g.window key) (offersUnder key offers) := by
  intro offers
  induction offers with
  | nil =>
    intro g j h hlength _ hnow _
    obtain ⟨told, g', j', heq, hpassed, -⟩ :=
      pass_spec hchoose hquiet hfuel h hlength hnow j
    exact ⟨told, g', j', heq, hpassed.notes, fun key => congrArg Prod.fst (hpassed.windows key)⟩
  | cons o rest ih =>
    intro g j h hlength htimes hnow hsorted
    obtain ⟨time, d⟩ := o
    obtain ⟨hfrom, hto⟩ := htimes (time, d) List.mem_cons_self
    have hlater := (List.pairwise_cons.mp hsorted).1
    rw [List.length_cons] at hlength
    obtain ⟨before, g₁, j₁, hbefore, hpassed, hclock⟩ :=
      pass_spec hchoose hquiet hfuel h (by omega) hfrom j
    obtain ⟨e, g₂, j₂, hoffer, h₂, hnotes, hclock₂, hlength₂, hkey, hjoin, hother⟩ :=
      observe_offer behaviour hfuel hpassed.gathering d j₁
    have hclock' : g₂.scheduler.now = time := hclock₂.trans hclock
    obtain ⟨after, g', j', hafter, hnotes', hwindows⟩ :=
      ih g₂ j₂ h₂ (by have := hpassed.fewer; omega)
        (fun o ho => ⟨hclock' ▸ hlater o ho, (htimes o (List.mem_cons_of_mem _ ho)).2⟩)
        (hclock' ▸ hto) (List.pairwise_cons.mp hsorted).2
    refine ⟨before ++ ([e] ++ after), g', j', ?_, ?_, ?_⟩
    · rw [session, hbefore]
      dsimp only
      rw [hoffer]
      dsimp only
      rw [hafter]
    · rw [hnotes', hnotes, hpassed.notes]
      simp
    · intro key
      have hclosed := hpassed.windows key
      rw [List.filter_append, List.filter_append, hwindows]
      by_cases hmine : d.key = key
      · -- an offer under the key opens its window or joins it
        subst hmine
        have hunder : offersUnder d.key ((time, d) :: rest) =
            (time, d) :: offersUnder d.key rest := List.filter_cons_of_pos (by simp)
        have hself : [e].filter (·.key = some d.key) = [e] :=
          List.filter_cons_of_pos (by simp [hkey])
        rw [hclock] at hjoin
        rw [hunder, hself, windows, ← hclosed]
        dsimp only
        rw [← hjoin]
        rfl
      · -- an offer under another key leaves it as it is
        have hunder : offersUnder key ((time, d) :: rest) = offersUnder key rest :=
          List.filter_cons_of_neg (by simpa using hmine)
        have hforeign : [e].filter (·.key = some key) = [] :=
          List.filter_cons_of_neg (by simpa [hkey] using hmine)
        rw [hunder, hforeign, List.nil_append, hother key (Ne.symm hmine)]
        -- the time that passed before it may be put together with what passes after it
        have hfuture : ∀ o ∈ offersUnder key rest, time ≤ o.1 :=
          fun o ho => hlater o (List.mem_of_mem_filter ho)
        rw [← close_windows hfuture hto (g.window key), ← hclosed]

/-- A desk at which nothing was offered yet. -/
def fresh (delay : Duration) (policy : Policy) : Pool Desk (Job Plea) :=
  ⟨⟨some (.new delay policy), .empty⟩, []⟩

/-- A session is greedy windows, key by key: what is noted of a key is what the
offers under it alone amount to, and every offer is followed by a dispatch under
its key within the delay. -/
theorem session_eq_windows {policy : Policy} {horizon : Nat} {offers : List (Nat × Dispatch)}
    (hdelay : 0 < delay.nanoseconds) (hpolicy : policy.Accepts delay)
    (hchoose : Scheduler.Punctual choose)
    (hquiet : ∀ n c x, (behaviour n c x).requests = [])
    (hsorted : offers.Pairwise fun a b => a.1 ≤ b.1) (hhorizon : ∀ o ∈ offers, o.1 ≤ horizon)
    (hfuel : offers.length + 3 ≤ fuel) :
    let result := session behaviour choose fuel horizon offers (fresh delay policy)
    let log := result.1
    result.2.state.journal.notes = log.map (·.note) ∧
      (∀ key, log.filter (·.key = some key) =
        windows delay.nanoseconds horizon none (offersUnder key offers)) ∧
      ∀ o ∈ offers, o.1 + delay.nanoseconds ≤ horizon → ∃ due d, dispatched due d ∈ log ∧
        d.key = o.2.key ∧ o.1 < due ∧ due ≤ o.1 + delay.nanoseconds := by
  have hsteps : 3 ≤ fuel := by omega
  have hlength : (Debouncer.new delay policy).scheduler.waiting.length + offers.length ≤ fuel := by
    show 0 + offers.length ≤ fuel
    omega
  -- a session, offer by offer, from a debouncer that is empty
  obtain ⟨log, g', j', heq, hnotes, hwindows⟩ :=
    session_spec hchoose hquiet hsteps offers _ .empty (Debouncer.new_gathering hpolicy) hlength
      (fun o ho => ⟨Nat.zero_le _, hhorizon o ho⟩) (Nat.zero_le _) hsorted
  rw [fresh, heq]
  refine ⟨hnotes, hwindows, ?_⟩
  -- an offer whose window closes in time is followed by the dispatch of that window
  intro o ho hclosed
  have hunder : o ∈ offersUnder o.2.key offers := List.mem_filter.mpr ⟨ho, by simp⟩
  obtain ⟨due, d, hmem, hbounds⟩ := windows_follow hdelay (offersUnder o.2.key offers) none
    (hsorted.sublist List.filter_sublist) (by simp) o hunder hclosed
  rw [show none = (Debouncer.new delay policy).window o.2.key from rfl, ← hwindows] at hmem
  obtain ⟨hlog, hkey⟩ := List.mem_filter.mp hmem
  exact ⟨due, d, hlog, by simpa [dispatched] using hkey, hbounds⟩

/-- A burst under one key with another key in between: the third offer under the
first key comes exactly when its window closes, and opens the next one. -/
theorem session_burst :
    let change (key : String) (n : Nat) : Dispatch := ⟨key, ⟨.modify, ⟨[]⟩, false⟩, ⟨n⟩⟩
    let offers := [(0, change "a" 0), (10, change "b" 1), (20, change "a" 2), (50, change "a" 3)]
    (session (fun _ _ _ => ⟨[], true⟩) (fun limit s => s.next? limit) 7 100 offers
      (fresh ⟨50⟩ .queueing)).1.filter (·.key = some "a") =
      [offered 0 (change "a" 0) true, offered 20 (change "a" 2) false,
        dispatched 50 (change "a" 0), offered 50 (change "a" 3) true,
        dispatched 100 (change "a" 3)] := by
  intro change offers
  have hdelay : 0 < (⟨50⟩ : Duration).nanoseconds := by decide
  have hquiet : ∀ n c x, ((fun _ _ _ => ⟨[], true⟩ : Behaviour Plea) n c x).requests = [] :=
    fun _ _ _ => rfl
  have hsorted : offers.Pairwise fun a b => a.1 ≤ b.1 := by decide
  have hhorizon : ∀ o ∈ offers, o.1 ≤ 100 := by decide
  have hfuel : offers.length + 3 ≤ 7 := by decide
  have h := session_eq_windows hdelay (Or.inl rfl) Scheduler.punctual_next? hquiet hsorted
    hhorizon hfuel
  exact (h.2.1 "a").trans (by decide)

end Desk

end ChangeWatch
