import ChangeWatch.Proofs.Watch.Coalescing.Stages

/-!
# Gathering loses no change, but may tell of another path

A watch gathers modify changes and its scheduler accepts all of them.  Then every
change that is resolved is offered with its path, and once nothing waits and nothing
is on its way any more, the change whose window it belongs to was given to the
callback (`run_tells_windows`): itself if it opened the window, and else the change
that opened the last window under its name.

Windows go by the text of the name alone, so that other change is one under the same
text, yet not always one of the same path: of two directories in each of which a file
of one name is changed, only the first is told (`second_directory_is_not_told`).
-/

namespace ChangeWatch

/-- A job that has a change on its way to a callback. -/
def Job.bears : Job → Bool
  | .dispatch .. | .desk (.offer ..) | .desk (.commit ..) | .desk (.begin _) | .desk (.call ..) =>
    true
  | _ => false

namespace Coalescing

open Watch

open Lifecycle (setting Outside)

variable {behaviour : Behaviour Wish} {callback : Callback} {L told front back : List Stage}
  {name : String} {path : Path} {p q : Running} {w : Watch} {d : Dispatch} {g g' : Debouncer}
  {moves : List (Move Outside)} {job : Job} {next : List Job}

/-! ### Logs -/

/-- Something holds of every stage, with what was seen before and after it. -/
def Each (P : List Stage → Stage → List Stage → Prop) (L : List Stage) : Prop :=
  ∀ front x back, L = front ++ x :: back → P front x back

/-- More is seen. -/
theorem Each.append {P Q : List Stage → Stage → List Stage → Prop} (h : Each P L)
    (hold : ∀ front x back, P front x back → Q front x (back ++ told))
    (hnew : ∀ front x back, told = front ++ x :: back → Q (L ++ front) x back) :
    Each Q (L ++ told) := by
  intro front x back hsplit
  rcases Setting.split_append hsplit with ⟨more, rfl, htold⟩ | ⟨more, hL, rfl⟩
  · exact hnew more x back htold
  · exact hold front x more (h front x more hL)

/-- What opens no window under a name leaves the last one what it was. -/
theorem latest_append_of_not (h : ∀ x, .offered name x true ∉ told) :
    latest name (L ++ told) = latest name L := by
  induction told using List.reverseRecOn with
  | nil => rw [List.append_nil]
  | append_singleton front last ih =>
    have hfront := ih fun x hx => h x (List.mem_append_left _ hx)
    rw [← List.append_assoc, latest_append, hfront]
    show opener name (latest name L) last = latest name L
    unfold opener
    split
    · next name' x =>
      rw [if_neg ?_]
      rintro rfl
      exact h x (List.mem_append_right _ (List.mem_singleton_self _))
    · rfl

/-- After an offer, the last window is the one that it opened, or the one before. -/
theorem latest_offered (x : Context) (opens : Bool) :
    latest name (L ++ [.offered name x opens]) = if opens then some x else latest name L := by
  rw [latest_append]
  cases opens with
  | true =>
    show (if name = name then some x else _) = _
    rw [if_pos rfl, if_pos rfl]
  | false => rfl

/-! ### Where a change is -/

/-- A change of a path under a name is about to be offered. -/
def Owed (name : String) (path : Path) (p : Running) : Prop :=
  ∃ j ∈ p.jobs, Owes name path j

/-- The window of a dispatch is open. -/
def Held (d : Dispatch) (p : Running) : Prop :=
  (∃ j ∈ p.jobs, Keeps d j) ∨ ∃ g, p.state.desk.debouncer = some g ∧ g.Awaits d

/-- A dispatch is on its way to the callback. -/
def Borne (d : Dispatch) (p : Running) : Prop :=
  Held d p ∨ ∃ j ∈ p.jobs, Delivers d j

/-- What was resolved is offered later or will be; what was offered had been resolved, and
the change that opened its window is given to the callback later or will be. -/
def Accounted (callback : Callback) (p : Running) (front : List Stage) (stage : Stage)
    (back : List Stage) : Prop :=
  match stage with
  | .resolved name path => Owed name path p ∨
      ∃ x opens, .offered name x opens ∈ back ∧ x.kind = .modify ∧ x.path = path
  | .offered name x opens => x.kind = .modify ∧ .resolved name x.path ∈ front ∧
      ∃ y, latest name (front ++ [.offered name x opens]) = some y ∧
        (.ran callback y ∈ back ∨ Borne ⟨name, y, callback⟩ p)
  | .ran .. => True

/-- The changes that were seen so far are accounted for, and the windows that are open
are those of the changes that opened them last. -/
structure Sound (callback : Callback) (L : List Stage) (p : Running) : Prop where
  handler : p.state.handlers.modify = some callback
  delay : p.state.delay.isZero = false
  gathers : ∃ g, p.state.desk.debouncer = some g ∧ g.Accepting ∧
    ∀ name ∈ g.pending, ∃ x, latest name L = some x ∧ Held ⟨name, x, callback⟩ p
  jobs : ∀ j ∈ p.jobs, Vouched callback L j
  parked : ∀ j ∈ p.state.executor.parked, j = .run
  accounts : Each (Accounted callback p) L

/-! ### A job -/

section Step

variable {d' : Done Watch Job}

theorem Held.step (hjobs : Pool.JobStep p q job d')
    (heffect : ChangeEffect callback L job g g' d'.next told) (hg : p.state.desk.debouncer = some g)
    (hg' : d'.state.desk.debouncer = some g') (h : Held d p) :
    Held d q ∨ d.key ∉ g'.pending ∧ ∃ j ∈ q.jobs, Delivers d j := by
  have hq : q.state.desk.debouncer = some g' := by rw [hjobs.state]; exact hg'
  rcases h with ⟨j, hj, hkeeps⟩ | ⟨g₁, hg₁, hawaits⟩
  · rcases hjobs.kept j hj with rfl | hj
    · rcases heffect.keeps d hkeeps with hawaits | ⟨hclosed, j', hj', hdelivers⟩
      · exact Or.inl (Or.inr ⟨g', hq, hawaits⟩)
      · exact Or.inr ⟨hclosed, j', hjobs.added j' hj', hdelivers⟩
    · exact Or.inl (Or.inl ⟨j, hj, hkeeps⟩)
  · obtain rfl := Option.some.inj (hg.symm.trans hg₁)
    exact Or.inl (Or.inr ⟨g', hq, heffect.awaits d hawaits⟩)

theorem Borne.step (hjobs : Pool.JobStep p q job d')
    (heffect : ChangeEffect callback L job g g' d'.next told) (hg : p.state.desk.debouncer = some g)
    (hg' : d'.state.desk.debouncer = some g') (h : Borne d p) :
    Borne d q ∨ .ran d.callback d.context ∈ told := by
  rcases h with hheld | ⟨j, hj, hdelivers⟩
  · rcases hheld.step hjobs heffect hg hg' with hheld | ⟨-, hdelivered⟩
    · exact Or.inl (Or.inl hheld)
    · exact Or.inl (Or.inr hdelivered)
  · rcases hjobs.kept j hj with rfl | hj
    · exact Or.inr (heffect.delivers d hdelivers)
    · exact Or.inl (Or.inr ⟨j, hj, hdelivers⟩)

theorem Owed.step (hjobs : Pool.JobStep p q job d')
    (heffect : ChangeEffect callback L job g g' d'.next told) (h : Owed name path p) :
    Owed name path q ∨
      ∃ x opens, .offered name x opens ∈ told ∧ x.kind = .modify ∧ x.path = path := by
  obtain ⟨j, hj, howes⟩ := h
  rcases hjobs.kept j hj with rfl | hj
  · rcases heffect.owes name path howes with ⟨j', hj', howes'⟩ | hoffered
    · exact Or.inl ⟨j', hjobs.added j' hj', howes'⟩
    · exact Or.inr hoffered
  · exact Or.inl ⟨j, hj, howes⟩

/-- What was accounted for still is. -/
theorem Accounted.step (hjobs : Pool.JobStep p q job d')
    (heffect : ChangeEffect callback L job g g' d'.next told) (hg : p.state.desk.debouncer = some g)
    (hg' : d'.state.desk.debouncer = some g') {stage : Stage}
    (h : Accounted callback p front stage back) :
    Accounted callback q front stage (back ++ told) := by
  cases stage with
  | resolved name path =>
    rcases h with howed | ⟨x, opens, hmem, hx⟩
    · rcases howed.step hjobs heffect with howed | ⟨x, opens, hmem, hx⟩
      · exact Or.inl howed
      · exact Or.inr ⟨x, opens, List.mem_append_right _ hmem, hx⟩
    · exact Or.inr ⟨x, opens, List.mem_append_left _ hmem, hx⟩
  | offered name x opens =>
    obtain ⟨hkind, hresolved, y, hlatest, hran | hborne⟩ := h
    · exact ⟨hkind, hresolved, y, hlatest, Or.inl (List.mem_append_left _ hran)⟩
    · refine ⟨hkind, hresolved, y, hlatest, ?_⟩
      rcases hborne.step hjobs heffect hg hg' with hborne | hran
      · exact Or.inr hborne
      · exact Or.inl (List.mem_append_right _ hran)
  | ran c x => trivial

/-- What is seen of a job is accounted for by what is next. -/
theorem Sound.accounted (hp : Sound callback L p) (hjobs : Pool.JobStep p q job d')
    (heffect : ChangeEffect callback L job g g' d'.next told) (hg : p.state.desk.debouncer = some g)
    (hg' : d'.state.desk.debouncer = some g') {stage : Stage}
    (htold : told = front ++ stage :: back) : Accounted callback q (L ++ front) stage back := by
  have hmem : stage ∈ told := by simp [htold]
  cases stage with
  | resolved name path =>
    obtain ⟨j, hj, howes⟩ := heffect.resolved name path hmem
    exact Or.inl ⟨j, hjobs.added j hj, howes⟩
  | ran c x => trivial
  | offered name x opens =>
    obtain ⟨hsingle, hkind, hresolved, hopens, hfalls⟩ := heffect.offered name x opens hmem
    obtain ⟨rfl, -, rfl⟩ := Setting.eq_of_singleton (hsingle.symm.trans htold)
    refine ⟨hkind, List.mem_append_left _ hresolved, ?_⟩
    rw [List.append_nil, latest_offered]
    cases opens with
    | true =>
      obtain ⟨j, hj, hkeeps⟩ := hopens rfl
      exact ⟨x, rfl, Or.inr (Or.inl (Or.inl ⟨j, hjobs.added j hj, hkeeps⟩))⟩
    | false =>
      -- the window that is open is the one that was opened last
      obtain ⟨g₁, hg₁, -, hpending⟩ := hp.gathers
      obtain rfl := Option.some.inj (hg.symm.trans hg₁)
      obtain ⟨y, hlatest, hheld⟩ := hpending name (hfalls rfl)
      refine ⟨y, hlatest, Or.inr ?_⟩
      rcases hheld.step hjobs heffect hg hg' with hheld | ⟨-, hdelivered⟩
      · exact Or.inl hheld
      · exact Or.inr hdelivered

/-- The windows that are open after a job. -/
theorem Sound.pending (hp : Sound callback L p) (hjobs : Pool.JobStep p q job d')
    (heffect : ChangeEffect callback L job g g' d'.next told) (hg : p.state.desk.debouncer = some g)
    (hg' : d'.state.desk.debouncer = some g') (hname : name ∈ g'.pending) :
    ∃ x, latest name (L ++ told) = some x ∧ Held ⟨name, x, callback⟩ q := by
  by_cases hopened : ∃ x, .offered name x true ∈ told
  · obtain ⟨x, hmem⟩ := hopened
    obtain ⟨hsingle, -, -, hopens, -⟩ := heffect.offered name x true hmem
    obtain ⟨j, hj, hkeeps⟩ := hopens rfl
    exact ⟨x, by rw [hsingle, latest_offered, if_pos rfl],
      Or.inl ⟨j, hjobs.added j hj, hkeeps⟩⟩
  · obtain ⟨g₁, hg₁, -, hpending⟩ := hp.gathers
    obtain rfl := Option.some.inj (hg.symm.trans hg₁)
    have hbefore : name ∈ g.pending := (heffect.pending name hname).resolve_right hopened
    obtain ⟨x, hlatest, hheld⟩ := hpending name hbefore
    refine ⟨x, by rw [latest_append_of_not (not_exists.mp hopened), hlatest], ?_⟩
    -- a window closes only when its dispatch is taken up
    exact (hheld.step hjobs heffect hg hg').resolve_right fun h => absurd hname h.1

end Step

/-- A step of a thread, as long as the watch is not stopped. -/
theorem Sound.step {i : Nat} (hp : Sound callback L p)
    (hstep : p.step (machine behaviour) i = some q) (hrunning : q.state.stopped = false) :
    Sound callback
      (L ++ Setting.noted (fun _ job w => stages job w) (.job i : Move Outside) p) q := by
  obtain ⟨job, rest, d, hi, hd, rfl⟩ := Pool.step_eq_some hstep
  have hjobs : Pool.JobStep p ⟨d.state, p.threads.set i (d.next ++ rest) ++ d.spawned⟩ job d :=
    Pool.jobs_of_set hi
  have hsetup := perform_sameSetup hd
  have hearns := (Lifecycle.perform_lifecycleEffect hd).earns
  obtain ⟨g, hg, haccepting, -⟩ := hp.gathers
  obtain ⟨g', hg', heffect⟩ := perform_changeEffect hd hrunning hg haccepting hp.handler hp.delay
    (hp.jobs job hjobs.before)
  rw [Setting.noted_job hi]
  refine ⟨by rw [← hp.handler, ← hsetup.handlers], by rw [← hp.delay, ← hsetup.delay],
    ⟨g', hg', heffect.accepting, fun name hname => hp.pending hjobs heffect hg hg' hname⟩,
    ?_, ?_, ?_⟩
  · intro j hj
    rcases hjobs.known j hj with hj | hj | ⟨t, ht, hjt⟩
    · exact heffect.vouched j hj
    · exact (hp.jobs j hj).mono _
    · rw [(hearns.spawned t ht j hjt).1]
      trivial
  · intro j hj
    rcases hearns.parked j hj with hj | ⟨rfl, -, -⟩
    · exact hp.parked j hj
    · rfl
  · exact hp.accounts.append (fun _ _ _ h => h.step hjobs heffect hg hg')
      fun _ _ _ htold => hp.accounted hjobs heffect hg hg' htold

/-! ### From outside -/

/-- What comes from outside leaves the windows as they are, and a dispatch that no longer
waits has been taken up. -/
theorem arrival_awaits {more : List Job} (h : Lifecycle.Arrival p more q)
    (hg : p.state.desk.debouncer = some g) (haccepting : g.Accepting) :
    ∃ g', q.state.desk.debouncer = some g' ∧ g'.Accepting ∧ g'.pending = g.pending ∧
      ∀ d, g.Awaits d → g'.Awaits d ∨ ∃ j ∈ more, Keeps d j := by
  rcases h.desk with hsame | ⟨n, r, hr, hdesk, rfl⟩
  · rw [hsame]
    exact ⟨g, hg, haccepting, rfl, fun _ h => Or.inl h⟩
  · obtain ⟨g₁, waiting, hg₁, hwaiting, rfl⟩ := Stopping.takeUp?_eq_some hr
    obtain rfl := Option.some.inj (hg.symm.trans hg₁)
    rw [hdesk]
    refine ⟨_, rfl, haccepting.take _ _, rfl, ?_⟩
    intro d hd
    rcases hd.erase hwaiting (max g.scheduler.now waiting.due) with rfl | hleft
    · exact Or.inr ⟨_, List.mem_singleton_self _, rfl⟩
    · exact Or.inl hleft

theorem Sound.outside {e : Outside} (hp : Sound callback L p)
    (h : Lifecycle.outside e p = some q) : Sound callback L q := by
  obtain ⟨more, harrival⟩ := Lifecycle.outside_arrival h
  obtain ⟨g, hg, haccepting, hpending⟩ := hp.gathers
  obtain ⟨g', hg', haccepting', hsame, hawaits⟩ := arrival_awaits harrival hg haccepting
  have hjobs := harrival.jobs
  have hleft : ∀ j ∈ p.jobs, j ∈ q.jobs := fun j hj => hjobs ▸ List.mem_append_left _ hj
  -- what comes has no change of its own, but for dispatches that the debouncer kept
  have hmore : ∀ j ∈ more, Vouched callback L j := by
    intro j hj
    rcases harrival.comes j hj with hj | rfl | rfl | ⟨d, rfl⟩
    · rw [hp.parked j hj]
      trivial
    · trivial
    · trivial
    · trivial
  have hheld : ∀ {d}, Held d p → Held d q := by
    rintro d (⟨j, hj, hkeeps⟩ | ⟨g₁, hg₁, hd⟩)
    · exact Or.inl ⟨j, hleft j hj, hkeeps⟩
    · obtain rfl := Option.some.inj (hg.symm.trans hg₁)
      rcases hawaits d hd with hd | ⟨j, hj, hkeeps⟩
      · exact Or.inr ⟨g', hg', hd⟩
      · exact Or.inl ⟨j, hjobs ▸ List.mem_append_right _ hj, hkeeps⟩
  -- nothing is seen of an arrival, so every stage is accounted for as before
  refine ⟨by rw [← hp.handler, ← harrival.setup.handlers],
    by rw [← hp.delay, ← harrival.setup.delay],
    ⟨g', hg', haccepting', ?_⟩, ?_, fun j hj => hp.parked j (harrival.parked j hj), ?_⟩
  · intro name hname
    rw [hsame] at hname
    obtain ⟨x, hlatest, hx⟩ := hpending name hname
    exact ⟨x, hlatest, hheld hx⟩
  · intro j hj
    rw [hjobs] at hj
    rcases List.mem_append.mp hj with hj | hj
    · exact hp.jobs j hj
    · exact hmore j hj
  · intro front stage back hsplit
    have haccount := hp.accounts front stage back hsplit
    cases stage with
    | resolved name path =>
      exact haccount.imp_left fun ⟨j, hj, howes⟩ => ⟨j, hleft j hj, howes⟩
    | offered name x opens =>
      obtain ⟨hkind, hresolved, y, hlatest, hy⟩ := haccount
      refine ⟨hkind, hresolved, y, hlatest, hy.imp_right fun hborne => ?_⟩
      exact hborne.imp hheld fun ⟨j, hj, hdelivers⟩ => ⟨j, hleft j hj, hdelivers⟩
    | ran c x => trivial

/-! ### All runs -/

/-- Every move keeps the account, unless the watch is stopped. -/
theorem move_sound {a : Move Outside} (hp : p.state.stopped = true ∨ Sound callback L p)
    (hmove : (setting behaviour).move a p = some q) : q.state.stopped = true ∨
      Sound callback (L ++ Setting.noted (fun _ job w => stages job w) a p) q := by
  cases hstopped : q.state.stopped with
  | true => exact Or.inl rfl
  | false =>
    right
    cases a with
    | job i =>
      obtain ⟨job, d, hd, hjobs⟩ := Pool.jobs_of_step hmove
      have hp : Sound callback L p := by
        refine hp.resolve_left fun hbefore => ?_
        have hafter := (perform_flags hd).2 hbefore
        rw [← hjobs.state, hstopped] at hafter
        exact absurd hafter (by simp)
      exact hp.step hmove hstopped
    | outside e =>
      rw [Setting.noted_outside, List.append_nil]
      have hp : Sound callback L p := by
        refine hp.resolve_left fun hbefore => ?_
        obtain ⟨_, harrival⟩ := Lifecycle.outside_arrival hmove
        rw [harrival.stopped, hbefore] at hstopped
        exact absurd hstopped (by simp)
      exact hp.outside hmove

/-- A watch that gathers and whose scheduler accepts everything keeps the account in
every run, as long as it is not stopped. -/
theorem run_accounts {strategy : Strategy} {handlers : Handlers} {options : Watch.Options}
    {disk : Disk} (hnew : Watch.new strategy handlers options disk = .ok w)
    (hhandler : handlers.modify = some callback) (hdelay : options.delay.isZero = false)
    (hpolicy : (options.policy.getD .ranged).Accepts options.delay)
    (hrun : (setting behaviour).run? moves (Running.ofWatch w) = some p)
    (hrunning : p.state.stopped = false) :
    Sound callback (log behaviour moves (Running.ofWatch w)) p := by
  have hfresh := fresh_of_new hnew
  have hgathers := hfresh.debouncer_eq.trans (debouncerFor_eq_some hdelay options.policy)
  have hbegin : Sound callback [] (Running.ofWatch w) := by
    refine ⟨?_, ?_, ⟨_, hgathers, Debouncer.new_accepting hpolicy, ?_⟩, ?_, ?_, ?_⟩
    · show w.handlers.modify = some callback
      rw [hfresh.handlers_eq, hhandler]
    · show w.delay.isZero = false
      rw [hfresh.delay_eq, hdelay]
    · exact fun _ hname => absurd hname List.not_mem_nil
    · exact fun j hj => absurd hj List.not_mem_nil
    · show ∀ j ∈ w.executor.parked, j = .run
      rw [hfresh.parked_eq]
      exact fun j hj => absurd hj List.not_mem_nil
    · exact fun _ _ _ hsplit => absurd hsplit (by simp)
  have hkept := Setting.preserved_log
    (I := fun L p => p.state.stopped = true ∨ Sound callback L p)
    (fun _ _ _ _ hp hmove => move_sound hp hmove) (Or.inr hbegin) hrun
  refine hkept.resolve_left fun hstopped => ?_
  rw [hrunning] at hstopped
  exact absurd hstopped (by simp)

/-- Nothing waits any more, no modify change is on its way, and the watch is not
stopped. -/
structure Settled (p : Running) : Prop where
  running : p.state.stopped = false
  waiting : ∀ g, p.state.desk.debouncer = some g → g.scheduler.waiting = []
  jobs : ∀ j ∈ p.jobs, j.bears = false

theorem Settled.not_owed (h : Settled p) : ¬ Owed name path p := by
  rintro ⟨j, hj, howes⟩
  have hbears := h.jobs j hj
  cases j with
  | dispatch event path found => exact absurd hbears (by simp [Job.bears])
  | desk job =>
    cases job with
    | offer d caller => exact absurd hbears (by simp [Job.bears])
    | _ => exact howes
  | _ => exact howes

theorem Settled.not_borne (h : Settled p) : ¬ Borne d p := by
  rintro ((⟨j, hj, hkeeps⟩ | ⟨g, hg, v, hv, -⟩) | ⟨j, hj, hdelivers⟩)
  · have hbears := h.jobs j hj
    cases j with
    | desk job =>
      cases job with
      | commit d caller => exact absurd hbears (by simp [Job.bears])
      | begin d => exact absurd hbears (by simp [Job.bears])
      | _ => exact hkeeps
    | _ => exact hkeeps
  · rw [h.waiting g hg] at hv
    exact absurd hv List.not_mem_nil
  · have hbears := h.jobs j hj
    cases j with
    | desk job =>
      cases job with
      | call c x onPanic => exact absurd hbears (by simp [Job.bears])
      | _ => exact hdelivers
    | _ => exact hdelivers

/-- A change of a path that was resolved under a name, with what was seen before and
after: it is offered with its path, and after that the callback is given the change of
the window, which is itself if it opens one, and else the one that opened the last window
under its name.  That one had been resolved under the name too. -/
def Told (callback : Callback) (front : List Stage) (name : String) (path : Path)
    (back : List Stage) : Prop :=
  ∃ before x opens after y, back = before ++ .offered name x opens :: after ∧
    x.kind = .modify ∧ x.path = path ∧
    (if opens then some x else latest name (front ++ .resolved name path :: before)) = some y ∧
    y.kind = .modify ∧ .resolved name y.path ∈ front ++ .resolved name path :: before ∧
    .ran callback y ∈ after

/-- What was offered had been resolved. -/
theorem Sound.of_mem (hp : Sound callback L p) {x : Context} {opens : Bool}
    (hL : L = front ++ back) (hmem : .offered name x opens ∈ front) :
    x.kind = .modify ∧ .resolved name x.path ∈ front := by
  obtain ⟨before, after, rfl⟩ := List.append_of_mem hmem
  obtain ⟨hkind, hresolved, -⟩ := hp.accounts before (.offered name x opens) (after ++ back)
    (by rw [hL, List.append_assoc, List.cons_append])
  exact ⟨hkind, List.mem_append_left _ hresolved⟩

/-- At a watch that gathers and whose scheduler accepts everything, every modify change
that is resolved is told, or the change in whose window it falls, once nothing waits and
nothing is on its way. -/
theorem run_tells_windows {strategy : Strategy} {handlers : Handlers} {options : Watch.Options}
    {disk : Disk} (hnew : Watch.new strategy handlers options disk = .ok w)
    (hhandler : handlers.modify = some callback) (hdelay : options.delay.isZero = false)
    (hpolicy : (options.policy.getD .ranged).Accepts options.delay)
    (hrun : (setting behaviour).run? moves (Running.ofWatch w) = some p) (hsettled : Settled p)
    (hresolved : log behaviour moves (Running.ofWatch w) = front ++ .resolved name path :: back) :
    Told callback front name path back := by
  have hsound := run_accounts hnew hhandler hdelay hpolicy hrun hsettled.running
  obtain ⟨x, opens, hmem, hkind, hpath⟩ :=
    (hsound.accounts front (.resolved name path) back hresolved).resolve_left hsettled.not_owed
  obtain ⟨before, after, rfl⟩ := List.append_of_mem hmem
  have hoffered : log behaviour moves (Running.ofWatch w) =
      (front ++ .resolved name path :: before) ++ .offered name x opens :: after := by
    rw [hresolved, List.append_assoc, List.cons_append]
  obtain ⟨-, hpast, y, hlatest, hran⟩ := hsound.accounts _ (.offered name x opens) _ hoffered
  have hrun : .ran callback y ∈ after := hran.resolve_right hsettled.not_borne
  rw [latest_offered] at hlatest
  have hopener : y.kind = .modify ∧
      .resolved name y.path ∈ front ++ .resolved name path :: before := by
    cases opens with
    | true =>
      obtain rfl := Option.some.inj hlatest
      exact ⟨hkind, hpast⟩
    | false => exact hsound.of_mem hoffered (mem_of_latest hlatest)
  exact ⟨before, x, opens, after, y, rfl, hkind, hpath, hlatest, hopener.1, hopener.2, hrun⟩

/-! ### Two directories -/

/-- The directories `w/a` and `w/b`. -/
def pairDisk : Disk :=
  ((Disk.empty.put [[119]] .dir).put [[119], [97]] .dir).put [[119], [98]] .dir

/-- A watch over `w` that gathers modify changes. -/
def pairWatch : Except WatchError Watch :=
  Watch.new ⟨.tree ⟨Location.toPath [[119]], 1, []⟩, .none⟩ ⟨none, some ⟨0⟩, none, none⟩
    ⟨⟨5⟩, .default, none, none, some (.memory (.new .none))⟩ pairDisk

/-- The watch is started, and batches are put into the queue of its service; the loop
makes some steps, and then so many dispatches are taken up. -/
def pairMoves (batches : List Batch) (steps dispatches : Nat) : List (Move Outside) :=
  let service := { MemoryService.new .none with
    dirs := [(Location.toPath [[119]], ⟨0⟩), (Location.toPath [[119], [97]], ⟨1⟩),
      (Location.toPath [[119], [98]], ⟨2⟩)]
    nextKey := 3, queue := batches.map .batch }
  .outside .start :: List.replicate 11 (.job 0) ++
    .outside (.ground ⟨.memory service, pairDisk⟩) :: List.replicate steps (.job 1) ++
    (List.range dispatches).flatMap fun i => [.outside (.dispatch 0), .job (2 + i), .job (2 + i)]

/-- What was seen of such a run, if the loop waits in the end and nothing else does. -/
def pairLog (moves : List (Move Outside)) : Option (List Stage) :=
  pairWatch.toOption.bind fun w =>
    ((setting fun _ _ _ => .none).run? moves (Running.ofWatch w)).bind fun p =>
      if p.jobs = [.receive] ∧ p.state.stopped = false ∧
          p.state.desk.debouncer.map (·.scheduler.waiting) = some [] then
        some (log (fun _ _ _ => .none) moves (Running.ofWatch w))
      else none

theorem settled_of_pairLog (h : pairLog moves = some L) : ∃ w p, pairWatch = .ok w ∧
    (setting fun _ _ _ => .none).run? moves (Running.ofWatch w) = some p ∧ Settled p ∧
    log (fun _ _ _ => .none) moves (Running.ofWatch w) = L := by
  obtain ⟨w, hw, hrun⟩ := Option.bind_eq_some_iff.mp h
  obtain ⟨p, hp, hlog⟩ := Option.bind_eq_some_iff.mp hrun
  split at hlog
  · next hsettled =>
    obtain ⟨hjobs, hstopped, hwaiting⟩ := hsettled
    refine ⟨w, p, ?_, hp, ⟨hstopped, fun g hg => ?_, fun j hj => ?_⟩, Option.some.inj hlog⟩
    · cases hnew : pairWatch with
      | ok w' => rw [hnew] at hw; exact congrArg _ (Option.some.inj hw)
      | error e => rw [hnew] at hw; exact absurd hw (by simp [Except.toOption])
    · rw [hg] at hwaiting
      exact Option.some.inj hwaiting
    · rw [hjobs] at hj
      rw [List.mem_singleton.mp hj]
      rfl
  · exact absurd hlog (by simp)

/-- A change of `a/x`, one of `a/y` and again one of `a/x`: the third falls into the window
of the first, and is told with it. -/
theorem change_in_window_is_told :
    let moves := pairMoves [⟨⟨1⟩, [⟨.modify, some ⟨[120]⟩⟩, ⟨.modify, some ⟨[121]⟩⟩,
      ⟨.modify, some ⟨[120]⟩⟩]⟩] 20 2
    let x := Location.toPath [[119], [97], [120]]
    ∃ w p front back, pairWatch = .ok w ∧
      (setting fun _ _ _ => .none).run? moves (Running.ofWatch w) = some p ∧
      log (fun _ _ _ => .none) moves (Running.ofWatch w) = front ++ .resolved "x" x :: back ∧
      front.length = 4 ∧ Told ⟨0⟩ front "x" x back := by
  intro moves x
  have hlog : pairLog moves = some
      [.resolved "x" x, .offered "x" ⟨.modify, x, false⟩ true,
        .resolved "y" (Location.toPath [[119], [97], [121]]),
        .offered "y" ⟨.modify, Location.toPath [[119], [97], [121]], false⟩ true,
        .resolved "x" x, .offered "x" ⟨.modify, x, false⟩ false,
        .ran ⟨0⟩ ⟨.modify, x, false⟩,
        .ran ⟨0⟩ ⟨.modify, Location.toPath [[119], [97], [121]], false⟩] := by
    decide +kernel
  obtain ⟨w, p, hnew, hrun, hsettled, hlog⟩ := settled_of_pairLog hlog
  exact ⟨w, p, [_, _, _, _], _, hnew, hrun, hlog, rfl,
    run_tells_windows hnew rfl rfl (Or.inr ⟨rfl, by decide⟩) hrun hsettled hlog⟩

/-- In each of two directories a file `x` is changed: the change in the second one falls
into the window of the first, and its path is never told. -/
theorem second_directory_is_not_told :
    let events : List RawEvent := [⟨.modify, some ⟨[120]⟩⟩]
    let moves := pairMoves [⟨⟨1⟩, events⟩, ⟨⟨2⟩, events⟩] 19 1
    let x := Location.toPath [[119], [98], [120]]
    ∃ w p, pairWatch = .ok w ∧
      (setting fun _ _ _ => .none).run? moves (Running.ofWatch w) = some p ∧ Settled p ∧
      .resolved "x" x ∈ log (fun _ _ _ => .none) moves (Running.ofWatch w) ∧
      ∀ c y, .ran c y ∈ log (fun _ _ _ => .none) moves (Running.ofWatch w) → y.path ≠ x := by
  intro events moves x
  have hlog : pairLog moves = some
      [.resolved "x" (Location.toPath [[119], [97], [120]]),
        .offered "x" ⟨.modify, Location.toPath [[119], [97], [120]], false⟩ true,
        .resolved "x" x, .offered "x" ⟨.modify, x, false⟩ false,
        .ran ⟨0⟩ ⟨.modify, Location.toPath [[119], [97], [120]], false⟩] := by
    decide +kernel
  obtain ⟨w, p, hnew, hrun, hsettled, hlog⟩ := settled_of_pairLog hlog
  refine ⟨w, p, hnew, hrun, hsettled, by rw [hlog]; simp, ?_⟩
  rw [hlog]
  intro c y hy
  obtain ⟨-, rfl⟩ : c = ⟨0⟩ ∧ y = ⟨.modify, Location.toPath [[119], [97], [120]], false⟩ := by
    simpa using hy
  decide +kernel

end Coalescing

end ChangeWatch
