import ChangeWatch.Proofs.Service.Registering
import ChangeWatch.Proofs.Watch.Lifecycle.Deeds

/-!
# A tree that is watched through a notification backend

A watch is built over a tree of directories and a service that nothing else uses.  It is
started and stopped by whoever likes, the loop takes what the service has for it,
callbacks run, and meanwhile the disk becomes any other, the backend witnesses any
changes, and it reports and complains whatever it likes (`setting`).

Of all jobs few do anything to the registrations or to the nodes: a walk that enters a
directory, the reset of a key, and the steps of closing.  `perform_nodeEffect` says what these
do, and that all others leave both alone; so does what comes from outside
(`outside_aside`).
-/

namespace ChangeWatch

/-- The backend of a service reports; a service in memory has none. -/
def Service.hear (disk : Disk) (report : Report) : Service → Service
  | .notifying s => .notifying (s.hear disk report)
  | .memory s => .memory s

/-- The backend of a service complains. -/
def Service.hearFailure (e : BackendError) : Service → Service
  | .notifying s => .notifying (s.hearFailure e)
  | .memory s => .memory s

namespace Notified

open Watch

/-! ### The setting -/

/-- What may come from outside. -/
inductive Outside where
  /-- Someone calls `start`. -/
  | start
  /-- Someone calls `stop`, or drops the watch. -/
  | stop
  /-- What the executor parked is run, each job on a thread of its own. -/
  | unpark
  /-- The scheduler takes up one of the dispatches that wait. -/
  | dispatch (n : Nat)
  /-- The disk becomes any other, and the backend witnesses any changes. -/
  | change (disk : Disk) (changes : List Change)
  /-- The backend reports. -/
  | report (r : Report)
  | complain (e : BackendError)
  deriving DecidableEq, Repr

/-- What comes is a call, or something that is done to the disk and the service. -/
def Outside.told (g : Ground) : Outside → Lifecycle.Outside
  | .start => .start
  | .stop => .stop
  | .unpark => .unpark
  | .dispatch n => .dispatch n
  | .change disk changes => .ground ⟨g.service.witness disk changes, disk⟩
  | .report r => .ground { g with service := g.service.hear g.disk r }
  | .complain e => .ground { g with service := g.service.hearFailure e }

def outside (e : Outside) (p : Running) : Option Running :=
  Lifecycle.outside (e.told p.state.ground) p

/-- A watch at which threads work in any order, while the backend reports. -/
def setting (behaviour : Behaviour Wish) : Setting Watch Job Outside :=
  ⟨machine behaviour, outside⟩

/-! ### What a job does to registrations and nodes -/

/-- A watch over a tree that is kept up to date by a service on top of a notification
backend. -/
structure Over (w : Watch) (s : NotifyingService) (t : DirTree) : Prop where
  service : w.ground.service = .notifying s
  target : w.strategy.target = .tree t

/-- What a job does to the registrations and to the nodes, when it is done at a watch over
`s` and `t`. -/
inductive NodeEffect (w : Watch) (s : NotifyingService) (t : DirTree) :
    Job → NotifyingService → DirTree → Prop
  /-- A walk enters a directory, which is registered and kept as a node. -/
  | enrolled (purpose : Purpose) (dir : Path) (depth : Nat) (rest : List DirTree.Errand)
      (registered : List Path) {key : Key} {s' : NotifyingService} :
      s.register w.ground.disk dir w.kinds = (.ok key, s') →
      NodeEffect w s t (.walk purpose (.enter dir depth :: rest) registered) s'
        (t.setNode key ⟨dir, depth⟩)
  | refused (purpose : Purpose) (dir : Path) (depth : Nat) (rest : List DirTree.Errand)
      (registered : List Path) {e : WatchError} {s' : NotifyingService} :
      s.register w.ground.disk dir w.kinds = (.error e, s') →
      NodeEffect w s t (.walk purpose (.enter dir depth :: rest) registered) s' t
  | reset (key : Key) : NodeEffect w s t (.reset key) (s.reset w.ground.disk key).2 t
  | close (step : CloseStep) : NodeEffect w s t (.close step) (s.closeStep step).1 t
  | aside {job : Job} {s' : NotifyingService} : (∀ key, job ≠ .reset key) →
      (∀ step, job ≠ .close step) → s'.registry = s.registry → s'.backend = s.backend →
      NodeEffect w s t job s' t

variable {behaviour : Behaviour Wish} {w : Watch} {job : Job} {d : Done Watch Job}
  {s : NotifyingService} {t : DirTree} {p q : Running}

/-- A step of a walk enters a directory or leaves service and tree alone. -/
theorem advance_nodeEffect (h : Over w s t) (purpose : Purpose) (errand : DirTree.Errand)
    (rest : List DirTree.Errand) (registered : List Path) : ∃ s',
      (DirTree.advance w.kinds errand (.start w.ground t)).2.site.service = .notifying s' ∧
      NodeEffect w s t (.walk purpose (errand :: rest) registered) s'
        (DirTree.advance w.kinds errand (.start w.ground t)).2.tree := by
  rcases DirTree.advance_cases w.kinds errand (.start w.ground t) with
    ⟨dir, depth, rfl, hadvance⟩ | ⟨warnings, hadvance⟩ <;> rw [hadvance]
  · rcases hanswer : s.register w.ground.disk dir w.kinds with ⟨r, s'⟩
    have hsite : Site.register dir w.kinds w.ground =
        (r, (⟨.notifying s', w.ground.disk⟩ : Ground)) := by
      show (_, _) = _
      rw [h.service]
      simp only [hanswer]
    rcases DirTree.enter_cases w.kinds dir depth (.start w.ground t) with
      ⟨e, site, hregister, heq⟩ | ⟨key, site, below, warnings, hregister, -, heq⟩ <;>
      obtain ⟨rfl, rfl⟩ := Prod.mk.inj (hsite.symm.trans hregister) <;> rw [heq]
    · exact ⟨s', rfl, .refused purpose dir depth rest registered hanswer⟩
    · exact ⟨s', rfl, .enrolled purpose dir depth rest registered hanswer⟩
  · exact ⟨s, h.service, .aside (by simp) (by simp) rfl rfl⟩

/-- What a job does to the registrations and to the nodes. -/
theorem perform_nodeEffect (h : perform behaviour job w = some d) (hw : Over w s t) :
    ∃ s' t', Over d.state s' t' ∧ NodeEffect w s t job s' t' := by
  cases perform_outcome h with
  | walked purpose errand rest registered tree k htarget hadvance
  | walkBroken purpose errand rest registered tree k htarget hadvance =>
    -- entering a directory writes to both, and no other step of a walk to either
    obtain rfl := Target.tree.inj (hw.target.symm.trans htarget)
    obtain ⟨s', hs', heffect⟩ := advance_nodeEffect hw purpose errand rest registered
    rw [hadvance] at hs' heffect
    exact ⟨s', k.tree, ⟨hs', rfl⟩, heffect⟩
  | fileRegistered _ _ htarget | fileRefused _ _ htarget =>
    exact absurd (hw.target.symm.trans htarget) (by simp)
  | closing step =>
    refine ⟨_, t, ⟨?_, hw.target⟩, .close step⟩
    show (w.ground.service.closeStep step).1 = _
    rw [hw.service]
    rfl
  | reset key =>
    refine ⟨_, t, ⟨?_, hw.target⟩, .reset key⟩
    show (w.ground.service.reset w.ground.disk key).2 = _
    rw [hw.service]
    rfl
  | received hreceive =>
    -- the queue gets shorter, and the registrations stay
    rw [hw.service] at hreceive
    obtain ⟨s', rfl, hs'⟩ := Service.receive_notifying hreceive
    obtain ⟨hregistry, hbackend, -⟩ := NotifyingService.receive_registry hs'
    exact ⟨s', t, ⟨rfl, hw.target⟩, .aside (by simp) (by simp) hregistry hbackend⟩
  | taken henter | waiting henter =>
    rw [hw.service] at henter
    obtain ⟨-, rfl⟩ := Prod.mk.inj henter
    exact ⟨s, t, ⟨rfl, hw.target⟩, .aside (by simp) (by simp) rfl rfl⟩
  | _ => exact ⟨s, t, ⟨hw.service, hw.target⟩, .aside (by simp) (by simp) rfl rfl⟩

/-! ### What comes from outside -/

/-- What comes from outside leaves registrations and nodes alone. -/
theorem outside_aside {e : Outside} (h : outside e p = some q) (hp : Over p.state s t) :
    ∃ s', Over q.state s' t ∧ s'.registry = s.registry ∧
      (s'.backend = none ↔ s.backend = none) := by
  -- a change of disk and service is done to the watch as a whole
  have hground : ∀ {g : Ground} {s' : NotifyingService}, g.service = .notifying s' →
      s'.registry = s.registry → (s'.backend = none ↔ s.backend = none) →
      Lifecycle.outside (.ground g) p = some q →
      ∃ s', Over q.state s' t ∧ s'.registry = s.registry ∧
        (s'.backend = none ↔ s.backend = none) := by
    intro g s' hg hregistry hbackend h
    simp only [Lifecycle.outside] at h
    split at h
    · exact absurd h (by simp)
    · obtain rfl := Option.some.inj h
      exact ⟨s', ⟨hg, hp.target⟩, hregistry, hbackend⟩
  cases e with
  | start | stop | unpark =>
    obtain rfl := Option.some.inj h
    exact ⟨s, ⟨hp.service, hp.target⟩, rfl, Iff.rfl⟩
  | dispatch n =>
    obtain ⟨r, -, rfl⟩ := Option.map_eq_some_iff.mp h
    exact ⟨s, ⟨hp.service, hp.target⟩, rfl, Iff.rfl⟩
  | change disk changes =>
    obtain ⟨hregistry, hbackend, -⟩ := s.witness_registry disk changes
    exact hground (by rw [hp.service]; rfl) hregistry hbackend h
  | report r =>
    obtain ⟨hregistry, hbackend, -⟩ := s.hear_registry p.state.ground.disk r
    exact hground (by simp only [hp.service]; rfl) hregistry (by rw [hbackend]) h
  | complain e =>
    obtain ⟨hregistry, hbackend, -⟩ := s.hearFailure_registry e
    exact hground (by simp only [hp.service]; rfl) hregistry (by rw [hbackend]) h

/-- Whatever happens, the watch stays set up as it is. -/
theorem move_sameSetup {a : Move Outside} (hmove : (setting behaviour).move a p = some q) :
    SameSetup p.state q.state := by
  cases a with
  | job i =>
    obtain ⟨job, rest, d, -, hd, rfl⟩ := Pool.step_eq_some hmove
    exact perform_sameSetup hd
  | outside e =>
    obtain ⟨more, harrival⟩ := Lifecycle.outside_arrival hmove
    exact harrival.setup

end Notified

end ChangeWatch
