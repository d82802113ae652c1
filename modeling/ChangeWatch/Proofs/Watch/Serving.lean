import ChangeWatch.Proofs.Watch.Notified

/-!
# What a watch asks of its service

Whatever is watched, a job registers one directory, resets a key, takes a step of closing,
takes the front of the queue, or leaves the service alone (`perform_serviceEffect`); and no job
touches the disk.  So the queue only grows by the signal of closing, unless its front is
taken (`ServiceEffect.queue`).

From outside it grows by what reports are translated to, on the disk as it is when they
come (`outside_service`); a service that let go of its backend hears of nothing.
-/

namespace ChangeWatch

namespace Notified

open Watch

variable {behaviour : Behaviour Wish} {w : Watch} {job : Job} {d : Done Watch Job}
  {s s' : NotifyingService} {p q : Running}

/-! ### Jobs -/

/-- What a job does to the service of a watch, its queue included. -/
inductive ServiceEffect (w : Watch) (s : NotifyingService) : Job → NotifyingService → Prop
  | file (caller : Caller) {t : FileTarget} : w.strategy.target = .file t →
      ServiceEffect w s (.registerRoot caller) (s.register w.ground.disk t.parent w.kinds).2
  | directory (purpose : Purpose) (dir : Path) (depth : Nat) (rest : List DirTree.Errand)
      (registered : List Path) {t : DirTree} : w.strategy.target = .tree t →
      ServiceEffect w s (.walk purpose (.enter dir depth :: rest) registered)
        (s.register w.ground.disk dir w.kinds).2
  | reset (key : Key) : ServiceEffect w s (.reset key) (s.reset w.ground.disk key).2
  | close (step : CloseStep) : ServiceEffect w s (.close step) (s.closeStep step).1
  | receive {signal : Signal} {rest : List Signal} : s.queue = signal :: rest →
      ServiceEffect w s .receive { s with queue := rest }
  | aside {job : Job} : job ≠ .receive → ServiceEffect w s job s

/-- A step of a walk registers a directory or leaves service and disk alone. -/
theorem advance_serviceEffect (hs : w.ground.service = .notifying s) {t : DirTree}
    (ht : w.strategy.target = .tree t) (purpose : Purpose) (errand : DirTree.Errand)
    (rest : List DirTree.Errand) (registered : List Path) : ∃ s',
      (DirTree.advance w.kinds errand (.start w.ground t)).2.site =
        (⟨.notifying s', w.ground.disk⟩ : Ground) ∧
      ServiceEffect w s (.walk purpose (errand :: rest) registered) s' := by
  have hground : w.ground = ⟨.notifying s, w.ground.disk⟩ := by
    rw [← hs]
  rcases DirTree.advance_cases w.kinds errand (.start w.ground t) with
    ⟨dir, depth, rfl, hadvance⟩ | ⟨warnings, hadvance⟩ <;> rw [hadvance]
  · have hsite : (Site.register dir w.kinds w.ground).2 =
        (⟨.notifying (s.register w.ground.disk dir w.kinds).2, w.ground.disk⟩ : Ground) := by
      rw [hground]
      rfl
    refine ⟨_, ?_, .directory purpose dir depth rest registered ht⟩
    rw [← hsite]
    rcases DirTree.enter_cases w.kinds dir depth (.start w.ground t) with
      ⟨e, site, hregister, heq⟩ | ⟨key, site, below, warnings, hregister, -, heq⟩ <;>
      rw [heq] <;> exact (congrArg Prod.snd hregister).symm
  · exact ⟨s, hground, .aside (by simp)⟩

/-- What a job makes of the service; the disk stays what it is. -/
theorem perform_serviceEffect (h : perform behaviour job w = some d)
    (hs : w.ground.service = .notifying s) :
    ∃ s', d.state.ground = ⟨.notifying s', w.ground.disk⟩ ∧ ServiceEffect w s job s' := by
  have hground : w.ground = ⟨.notifying s, w.ground.disk⟩ := by
    rw [← hs]
  cases perform_outcome h with
  | @fileRegistered caller t _ ground ht hregister | @fileRefused caller t _ ground ht hregister =>
    -- registered or refused, the service is what the attempt has left
    have hafter : (t.register w.ground w.kinds).2 =
        ⟨.notifying (s.register w.ground.disk t.parent w.kinds).2, w.ground.disk⟩ := by
      rw [hground]
      rfl
    rw [hregister] at hafter
    exact ⟨_, hafter, .file caller ht⟩
  | walked purpose errand rest registered t k ht hadvance
  | walkBroken purpose errand rest registered t k ht hadvance =>
    obtain ⟨s', hsite, heffect⟩ := advance_serviceEffect hs ht purpose errand rest registered
    rw [hadvance] at hsite
    exact ⟨s', hsite, heffect⟩
  | closing step =>
    refine ⟨_, ?_, .close step⟩
    show Ground.mk (w.ground.service.closeStep step).1 w.ground.disk = _
    rw [hs]
    rfl
  | reset key =>
    refine ⟨_, ?_, .reset key⟩
    show Ground.mk (w.ground.service.reset w.ground.disk key).2 w.ground.disk = _
    rw [hs]
    rfl
  | received hreceive =>
    -- the front of the queue is taken off
    rw [hs] at hreceive
    obtain ⟨s', rfl, hs'⟩ := Service.receive_notifying hreceive
    obtain ⟨signal, hqueue, -, hsame⟩ := NotifyingService.receive_front hs'
    refine ⟨s', rfl, ?_⟩
    rw [hsame]
    exact .receive hqueue
  | taken henter | waiting henter =>
    rw [hs] at henter
    obtain ⟨-, rfl⟩ := Prod.mk.inj henter
    exact ⟨s, rfl, .aside (by simp)⟩
  | _ => exact ⟨s, hground, .aside (by simp)⟩

/-- Whether it is registered or not, a directory adds nothing to the queue. -/
theorem register_queue (s : NotifyingService) (disk : Disk) (dir : Path) (kinds : List EventKind) :
    (s.register disk dir kinds).2.queue = s.queue :=
  (Service.alike_register (.notifying s) disk dir kinds).signals

/-- A job other than a taker adds nothing to the queue but the signal of closing. -/
theorem ServiceEffect.queue (h : ServiceEffect w s job s') (hjob : job ≠ .receive) :
    ∃ more, s'.queue = s.queue ++ more ∧ ∀ x ∈ more, x = .closed := by
  have hsame : s'.queue = s.queue → ∃ more, s'.queue = s.queue ++ more ∧ ∀ x ∈ more, x = .closed :=
    fun heq => ⟨[], by rw [heq, List.append_nil], by simp⟩
  cases h with
  | file | directory => exact hsame (register_queue s _ _ _)
  | reset key => exact hsame (Service.alike_reset (.notifying s) w.ground.disk key).signals
  | close step =>
    cases step with
    | signal => exact ⟨[.closed], rfl, by simp⟩
    | _ => exact hsame rfl
  | receive => exact absurd rfl hjob
  | aside => exact hsame rfl

/-! ### From outside -/

/-- The disk after something came from outside. -/
def Outside.diskAfter (g : Ground) : Outside → Disk
  | .change disk _ => disk
  | _ => g.disk

/-- What the backend reports when something comes from outside. -/
def Outside.reports (g : Ground) : Outside → List Report
  | .report r =>
    match g.service with
    | .notifying s => if s.backend.isSome then [r] else []
    | .memory _ => []
  | .change _ changes =>
    match g.service with
    | .notifying s => (s.backend.map fun b => (b.witness changes).1).getD []
    | .memory _ => []
  | _ => []

/-- What the queue of a service grows by when reports come. -/
def signalsOf (s : NotifyingService) (disk : Disk) (reports : List Report) : List Signal :=
  reports.flatMap fun r => (s.registry.translate disk r).map .batch

/-- Reports that come one after the other are translated by the same registrations. -/
theorem hear_all (disk : Disk) (reports : List Report) : ∀ {s : NotifyingService},
    s.backend.isSome = true →
    (reports.foldl (fun s r => s.hear disk r) s).queue = s.queue ++ signalsOf s disk reports := by
  induction reports with
  | nil => exact fun _ => (List.append_nil _).symm
  | cons r rest ih =>
    intro s hs
    obtain ⟨hregistry, hbackend, -⟩ := s.hear_registry disk r
    have hfirst : (s.hear disk r).queue =
        s.queue ++ (s.registry.translate disk r).map .batch := by
      unfold NotifyingService.hear
      rw [if_pos hs]
    show (rest.foldl (fun s r => s.hear disk r) (s.hear disk r)).queue = _
    rw [ih (by rw [hbackend]; exact hs), hfirst, List.append_assoc]
    unfold signalsOf
    rw [hregistry]
    rfl

/-- What is made of a service by something from outside: the queue grows by what is reported
and by complaints, and nothing else becomes different. -/
structure Supplied (e : Outside) (g : Ground) (s s' : NotifyingService)
    (complaints : List Signal) : Prop where
  registry : s'.registry = s.registry
  backend : s'.backend = none ↔ s.backend = none
  closed : s'.closed = s.closed
  queue : s'.queue = s.queue ++ (signalsOf s (e.diskAfter g) (e.reports g) ++ complaints)
  failures : ∀ x ∈ complaints, ∃ e, x = .failure e

/-- What comes without a report leaves the service alone. -/
theorem Supplied.silent {e : Outside} {g : Ground} (h : e.reports g = []) :
    Supplied e g s s [] := by
  refine ⟨rfl, Iff.rfl, rfl, ?_, by simp⟩
  rw [h]
  exact (List.append_nil _).symm

/-- Whatever comes from outside supplies the service, on the disk that there is then. -/
theorem outside_service {e : Outside} (h : outside e p = some q)
    (hs : p.state.ground.service = .notifying s) : ∃ s' complaints,
      q.state.ground = ⟨.notifying s', e.diskAfter p.state.ground⟩ ∧
      Supplied e p.state.ground s s' complaints := by
  have hground : p.state.ground = ⟨.notifying s, p.state.ground.disk⟩ := by
    rw [← hs]
  -- a change of disk and service is done to the watch as a whole
  have hset : ∀ {g : Ground}, e.told p.state.ground = .ground g → q.state.ground = g := by
    intro g hg
    unfold outside at h
    rw [hg] at h
    simp only [Lifecycle.outside] at h
    split at h
    · exact absurd h (by simp)
    · obtain rfl := Option.some.inj h
      rfl
  cases e with
  | start | stop | unpark =>
    obtain rfl := Option.some.inj h
    exact ⟨s, [], hground, .silent rfl⟩
  | dispatch n =>
    obtain ⟨r, -, rfl⟩ := Option.map_eq_some_iff.mp h
    exact ⟨s, [], hground, .silent rfl⟩
  | change disk changes =>
    obtain ⟨hregistry, hbackend, hclosed⟩ := s.witness_registry disk changes
    refine ⟨s.witness disk changes, [], ?_, hregistry, hbackend, hclosed, ?_, by simp⟩
    · rw [hset rfl, hs]
      rfl
    · simp only [Outside.reports, Outside.diskAfter, hs, List.append_nil]
      unfold NotifyingService.witness
      cases hheld : s.backend with
      | none => exact (List.append_nil _).symm
      | some backend => exact hear_all disk _ (s := { s with backend := some _ }) rfl
  | report r =>
    obtain ⟨hregistry, hbackend, hclosed⟩ := s.hear_registry p.state.ground.disk r
    refine ⟨s.hear p.state.ground.disk r, [], ?_, hregistry, by rw [hbackend], hclosed, ?_,
      by simp⟩
    · rw [hset rfl, hs]
      rfl
    · simp only [Outside.reports, Outside.diskAfter, hs, List.append_nil]
      unfold NotifyingService.hear signalsOf
      split
      · simp
      · simp
  | complain e =>
    obtain ⟨hregistry, hbackend, hclosed⟩ := s.hearFailure_registry e
    have hqueue : ∃ complaints, (s.hearFailure e).queue = s.queue ++ complaints ∧
        ∀ x ∈ complaints, ∃ e, x = .failure e := by
      unfold NotifyingService.hearFailure
      split
      · exact ⟨[.failure e], rfl, by simp⟩
      · exact ⟨[], (List.append_nil _).symm, by simp⟩
    obtain ⟨complaints, hqueue, hall⟩ := hqueue
    refine ⟨s.hearFailure e, complaints, ?_, hregistry, by rw [hbackend], hclosed, hqueue, hall⟩
    rw [hset rfl, hs]
    rfl

end Notified

end ChangeWatch
