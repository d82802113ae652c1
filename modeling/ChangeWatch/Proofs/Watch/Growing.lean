import ChangeWatch.Proofs.Watch.Growing.Threads

/-!
# Nothing that is added to a tree is missed

A watch over a tree is started, and meanwhile and from then on entries are added
one by one.  At all times every directory within bounds is registered or heeded by
some job or event (`Sound`), and every entry that was added to such a directory
after the start is told, promised, or in a directory that is not yet registered
(`Owed`).  When the loop has nothing more to do, nothing heeds or promises any more:
all directories are registered, and all entries told (`growing_tree_is_watched`).

A directory whose path is too long to be asked for can be registered, but not be
listed, so what is below it is out of reach (`long_path_is_missed`).
-/

namespace ChangeWatch.Growing

open Watch

variable {root dir : Location} {maxDepth : Nat} {callback : Callback} {n : Bytes} {a : Addition}
  {g : Ground} {w : Watch} {job : Job} {behaviour : Behaviour Wish} {p q : Running}

/-! ### What an addition does -/

theorem Addition.of_fits {disk : Disk} (h : a.fits disk = true) :
    IsName a.name ∧ (∀ target, a.entry ≠ .link target) ∧ disk.entry? a.dir = some .dir ∧
      disk.entry? a.place = none := by
  simp only [fits, Bool.and_eq_true, decide_eq_true_eq] at h
  obtain ⟨⟨⟨hname, hplain⟩, hdir⟩, hfree⟩ := h
  refine ⟨hname, ?_, hdir, hfree⟩
  intro target heq
  rw [isPlain, heq] at hplain
  exact absurd hplain (by simp)

/-- No directory gets or loses a key. -/
theorem Addition.keyOf?_heard (a : Addition) (service : Service) (path : Path) :
    (a.heard service).keyOf? path = service.keyOf? path := by
  cases service with
  | notifying s => rfl
  | memory s =>
    simp only [heard]
    split <;> rfl

theorem Addition.onward (h : a.fits g.disk = true) : Onward g (a.apply g) := by
  obtain ⟨-, -, -, hfree⟩ := Addition.of_fits h
  exact ⟨Disk.grown_put hfree, fun path key hkey => (a.keyOf?_heard g.service path).trans hkey⟩

/-- What the events in the queue come to, and the event of an addition with them. -/
theorem Addition.waiting_heard {s : MemoryService} :
    (∀ j ∈ waiting (.memory s), j ∈ waiting (a.heard (.memory s))) ∧
    (∀ key, s.keyOf? a.dir.toPath = some key →
      .handle key ⟨.create, some ⟨a.name⟩⟩ ∈ waiting (a.heard (.memory s))) ∧
    (∀ j ∈ waiting (a.heard (.memory s)), j ∈ waiting (.memory s) ∨
      ∃ key, s.keyOf? a.dir.toPath = some key ∧ j = .handle key ⟨.create, some ⟨a.name⟩⟩) := by
  simp only [heard]
  cases hkey : s.keyOf? a.dir.toPath with
  | none => exact ⟨fun _ h => h, fun key h => absurd h (by simp), fun _ h => Or.inl h⟩
  | some key =>
    have hput : waiting (.memory (s.put (.batch ⟨key, [⟨.create, some ⟨a.name⟩⟩]⟩))) =
        waiting (.memory s) ++ [.handle key ⟨.create, some ⟨a.name⟩⟩] := by
      unfold waiting
      exact List.flatMap_append
    dsimp only
    rw [hput]
    refine ⟨fun j hj => List.mem_append_left _ hj, ?_, ?_⟩
    · intro key' hkey'
      obtain rfl := Option.some.inj hkey'
      exact List.mem_append_right _ (List.mem_singleton_self _)
    · intro j hj
      rcases List.mem_append.mp hj with hj | hj
      · exact Or.inl hj
      · exact Or.inr ⟨key, rfl, List.mem_singleton.mp hj⟩

/-- A watch stays what it is when something is added. -/
theorem Watching.added (hw : Watching root maxDepth callback w)
    (h : a.fits w.ground.disk = true) :
    Watching root maxDepth callback (w.withGround (a.apply w.ground)) := by
  obtain ⟨hname, hlink, hdir, hfree⟩ := Addition.of_fits h
  obtain ⟨t, htarget, ht⟩ := hw.tree
  obtain ⟨s, hs, hobliging, -⟩ := ht.service
  have honward := Addition.onward h
  obtain ⟨-, -, hknown⟩ := @Addition.waiting_heard a s
  -- the service hears of what is added, or does not, and is the same otherwise
  obtain ⟨s', hs', hobliging', hdirs, hnext, hqueue⟩ : ∃ s', a.heard w.ground.service = .memory s' ∧
      s'.Obliging ∧ s'.dirs = s.dirs ∧ s'.nextKey = s.nextKey ∧
        ∀ signal ∈ s'.queue, signal ∈ s.queue ∨ ∃ b, signal = .batch b := by
    rw [hs]
    simp only [Addition.heard]
    split
    · refine ⟨_, rfl, ⟨hobliging.running, hobliging.refused, hobliging.vanishing⟩, rfl, rfl, ?_⟩
      intro signal hsignal
      rcases List.mem_append.mp hsignal with hsignal | hsignal
      · exact Or.inl hsignal
      · exact Or.inr ⟨_, List.mem_singleton.mp hsignal⟩
    · exact ⟨s, rfl, hobliging, rfl, rfl, fun _ h => Or.inl h⟩
  have hground : a.apply w.ground = ⟨.memory s', w.ground.disk.put a.place a.entry⟩ := by
    unfold Addition.apply
    rw [hs']
  refine ⟨⟨t, htarget, ?_⟩, hw.override, hw.handler, hw.running, ?_, ?_⟩
  · show Rooted root maxDepth (a.apply w.ground) t
    rw [hground]
    exact ht.grown (Disk.grown_put hfree) (ht.order.put hdir hfree hname) hs hobliging' hdirs hnext
  · show ∀ signal ∈ (a.apply w.ground).service.signals, _
    rw [hground]
    intro signal hsignal
    rcases hqueue signal hsignal with hold | hbatch
    · refine hw.batches signal ?_
      rw [hs]
      exact hold
    · exact hbatch
  · -- a batch that comes is addressed to a directory that is registered
    intro j hj
    have hj : j ∈ waiting (a.heard w.ground.service) := hj
    rw [hs] at hj
    rcases hknown j hj with hold | ⟨key, hkey, rfl⟩
    · refine honward.fit (hw.queue j ?_)
      rw [hs]
      exact hold
    · refine ⟨a.dir, a.name, ⟨?_, a.entry, ?_, hlink⟩, rfl⟩
      · refine honward.kept _ _ ?_
        rw [hs]
        exact hkey
      · show Disk.entry? (w.ground.disk.put (a.dir ++ [a.name]) a.entry) (a.dir ++ [a.name]) = _
        rw [Disk.entry?_put hfree, if_pos rfl]

/-! ### What is registered, and what is owed -/

/-- All that is still to be done: the events in the queue, and the jobs. -/
def pending (p : Running) : List Job :=
  waiting p.state.ground.service ++ p.jobs

/-- Every directory within bounds is registered, or will be. -/
def Heeded (root : Location) (maxDepth : Nat) (p : Running) : Prop :=
  ∀ dir, Wanted root maxDepth p.state.ground.disk dir → Known p.state.ground.service dir ∨
    ∃ j ∈ pending p, Heeds root p.state.ground dir j

/-- An entry was handed to the callback, or will be, or its directory is not yet
registered. -/
structure Owed (callback : Callback) (dir : Location) (n : Bytes) (p : Running) : Prop where
  entry : (p.state.ground.disk.entry? (dir ++ [n])).isSome = true
  left : Told p.state callback dir n ∨ (∃ j ∈ pending p, Promises p.state.ground callback dir n j) ∨
    ¬ Known p.state.ground.service dir

/-- A job is taken away, and what follows it is still to be done. -/
theorem pending_step {d : Done Watch Job} (hjobs : Pool.JobStep p q job d)
    (heffect : GrowthEffect root maxDepth callback p.state job d) :
    (∀ j ∈ pending p, j = job ∨ j ∈ pending q) ∧ ∀ j ∈ d.next, j ∈ pending q := by
  have hnext : ∀ j ∈ d.next, j ∈ pending q := fun j hj =>
    List.mem_append_right _ (hjobs.added j hj)
  refine ⟨?_, hnext⟩
  intro j hj
  rcases List.mem_append.mp hj with hj | hj
  · rcases heffect.queue j hj with hj | hj
    · refine Or.inr (List.mem_append_left _ ?_)
      rw [hjobs.state]
      exact hj
    · exact Or.inr (hnext j hj)
  · rcases hjobs.kept j hj with rfl | hj
    · exact Or.inl rfl
    · exact Or.inr (List.mem_append_right _ hj)

theorem heeded_step (hp : Heeded root maxDepth p)
    (h : GrowthStep root maxDepth callback p q job) : Heeded root maxDepth q := by
  obtain ⟨d, hjobs, heffect⟩ := h
  obtain ⟨hkept, hnext⟩ := pending_step hjobs heffect
  intro dir hdir
  rw [hjobs.state] at hdir ⊢
  rw [heffect.disk] at hdir
  rcases hp dir hdir with hknown | ⟨j, hj, hheeds⟩
  · exact Or.inl (heffect.onward.known hknown)
  · rcases hkept j hj with rfl | hj
    · rcases heffect.heeded dir hdir hheeds with hknown | ⟨j', hj', hheeds'⟩
      · exact Or.inl hknown
      · exact Or.inr ⟨j', hnext j' hj', hheeds'⟩
    · exact Or.inr ⟨j, hj, heffect.onward.heeds hheeds⟩

theorem owed_step (hw : Watching root maxDepth callback p.state) (hshort : dir.Short)
    (hp : Owed callback dir n p) (h : GrowthStep root maxDepth callback p q job)
    (hlaunches : launches job = false) : Owed callback dir n q := by
  obtain ⟨d, hjobs, heffect⟩ := h
  obtain ⟨hkept, hnext⟩ := pending_step hjobs heffect
  obtain ⟨t, -, ht⟩ := hw.tree
  obtain ⟨e, he⟩ := Option.isSome_iff_exists.mp hp.entry
  have hnames := ht.order.names (ht.order.above he).2
  have hpickup : ∀ caller agenda registered, job ≠ .walk (.start caller) agenda registered := by
    rintro caller agenda registered rfl
    exact absurd hlaunches (by simp [launches])
  constructor
  · rw [hjobs.state, heffect.disk]
    exact hp.entry
  · rw [hjobs.state]
    rcases hp.left with ⟨context, hran, hcontext⟩ | ⟨j, hj, hpromises⟩ | hfree
    · exact Or.inl ⟨context, heffect.notes _ hran, hcontext⟩
    · -- the job that promised the entry is done, or it is still to be done
      rcases hkept j hj with rfl | hj
      · rcases heffect.promised dir n hshort hp.entry hpromises with htold | ⟨j', hj', hpromises'⟩
        · exact Or.inl htold
        · exact Or.inr (Or.inl ⟨j', hnext j' hj', hpromises'⟩)
      · exact Or.inr (Or.inl ⟨j, hj, heffect.onward.promises hpromises⟩)
    · -- the job that registers the directory lists it later
      by_cases hknown : Known d.state.ground.service dir
      · rcases heffect.fresh hpickup dir n hnames hknown with hold | ⟨j, hj, hpromises⟩
        · exact absurd hold hfree
        · exact Or.inr (Or.inl ⟨j, hnext j hj, hpromises⟩)
      · exact Or.inr (Or.inr hknown)

/-! ### Additions to what is owed -/

/-- What was pending is pending still when something is added. -/
theorem pending_added (hw : Watching root maxDepth callback p.state)
    (h : outside a p = some q) :
    q.state = p.state.withGround (a.apply p.state.ground) ∧ q.threads = p.threads ∧
      a.fits p.state.ground.disk = true ∧ (∀ j ∈ pending p, j ∈ pending q) ∧
      (Known q.state.ground.service a.dir → ∃ key,
        q.state.ground.service.keyOf? a.dir.toPath = some key ∧
          .handle key ⟨.create, some ⟨a.name⟩⟩ ∈ pending q) := by
  unfold outside at h
  split at h
  · next hfits =>
    obtain rfl := Option.some.inj h
    obtain ⟨t, -, ht⟩ := hw.tree
    obtain ⟨s, hs, -, -⟩ := ht.service
    obtain ⟨hkept, hnew, -⟩ := @Addition.waiting_heard a s
    have hservice : (p.modify fun w => w.withGround (a.apply w.ground)).state.ground.service =
        a.heard (.memory s) := by
      show a.heard p.state.ground.service = _
      rw [hs]
    refine ⟨rfl, rfl, hfits, ?_, ?_⟩
    · intro j hj
      unfold pending at hj ⊢
      rw [hservice]
      rcases List.mem_append.mp hj with hj | hj
      · rw [hs] at hj
        exact List.mem_append_left _ (hkept j hj)
      · exact List.mem_append_right _ hj
    · -- the new entry is reported under the key of its directory
      intro hknown
      unfold pending
      rw [Known, hservice, Addition.keyOf?_heard] at hknown
      rw [hservice, Addition.keyOf?_heard]
      obtain ⟨key, hkey⟩ := Option.isSome_iff_exists.mp hknown
      exact ⟨key, hkey, List.mem_append_left _ (hnew key hkey)⟩
  · exact absurd h (by simp)

/-- A directory that is added is heeded: by its event if the directory it is added to
is registered, and else by whatever heeds that one. -/
theorem heeded_added (hw : Watching root maxDepth callback p.state) (hp : Heeded root maxDepth p)
    (h : outside a p = some q) : Heeded root maxDepth q := by
  obtain ⟨hstate, -, hfits, hkept, hevent⟩ := pending_added hw h
  obtain ⟨-, -, hdir, hfree⟩ := Addition.of_fits hfits
  obtain ⟨t, -, ht⟩ := hw.tree
  have honward : Onward p.state.ground q.state.ground := by
    rw [hstate]
    exact Addition.onward hfits
  have hold : ∀ dir, Wanted root maxDepth p.state.ground.disk dir →
      Known q.state.ground.service dir ∨
        ∃ j ∈ pending q, Heeds root q.state.ground dir j := by
    intro dir hdir
    rcases hp dir hdir with hknown | ⟨j, hj, hheeds⟩
    · exact Or.inl (honward.known hknown)
    · exact Or.inr ⟨j, hkept j hj, honward.heeds hheeds⟩
  intro dir hwanted
  have hstands :
      Disk.entry? (p.state.ground.disk.put (a.dir ++ [a.name]) a.entry) dir = some .dir := by
    have hstands := hwanted.stands
    rw [hstate] at hstands
    exact hstands
  rw [Disk.entry?_put hfree] at hstands
  split at hstands
  · -- the directory is the one that is added
    next heq =>
    subst heq
    obtain ⟨rel, hrel, hle⟩ := hwanted.below
    have habove : Wanted root maxDepth p.state.ground.disk a.dir := by
      refine ⟨?_, hdir, hwanted.short.of_append⟩
      rcases List.eq_nil_or_concat rel with rfl | ⟨rel, m, rfl⟩
      · -- the root stood there before
        rw [List.append_nil] at hrel
        have hroot := ht.stands
        rw [← hrel] at hroot
        exact absurd (hfree.symm.trans hroot) (by simp)
      · rw [List.concat_eq_append, ← List.append_assoc] at hrel
        rw [List.concat_eq_append, List.length_append] at hle
        exact ⟨rel, (List.append_inj' hrel rfl).1, by omega⟩
    rcases hold a.dir habove with hknown | ⟨j, hj, hheeds⟩
    · obtain ⟨key, hkey, hmem⟩ := hevent hknown
      exact Or.inr ⟨_, hmem, a.dir, a.name, [], hkey, rfl, rfl⟩
    · exact Or.inr ⟨j, hj, hheeds.below a.name⟩
  · obtain ⟨hbelow, -, hshort⟩ := hwanted
    exact hold dir ⟨hbelow, hstands, hshort⟩

/-- What is owed is owed still when something is added. -/
theorem owed_kept (hw : Watching root maxDepth callback p.state) (hp : Owed callback dir n p)
    (h : outside a p = some q) : Owed callback dir n q := by
  obtain ⟨hstate, -, hfits, hkept, -⟩ := pending_added hw h
  have honward : Onward p.state.ground q.state.ground := by
    rw [hstate]
    exact Addition.onward hfits
  obtain ⟨e, he⟩ := Option.isSome_iff_exists.mp hp.entry
  constructor
  · rw [honward.disk _ _ he]
    rfl
  · rcases hp.left with ⟨context, hran, hcontext⟩ | ⟨j, hj, hpromises⟩ | hfree
    · refine Or.inl ⟨context, ?_, hcontext⟩
      rw [hstate]
      exact hran
    · exact Or.inr (Or.inl ⟨j, hkept j hj, honward.promises hpromises⟩)
    · refine Or.inr (Or.inr fun hknown => hfree ?_)
      rw [hstate] at hknown
      have hkey := a.keyOf?_heard p.state.ground.service dir.toPath
      unfold Known
      rw [← hkey]
      exact hknown

/-- What is added is owed. -/
theorem owed_added (hw : Watching root maxDepth callback p.state) (h : outside a p = some q) :
    Owed callback a.dir a.name q := by
  obtain ⟨hstate, -, hfits, -, hevent⟩ := pending_added hw h
  obtain ⟨-, -, -, hfree⟩ := Addition.of_fits hfits
  constructor
  · have hentry : Disk.entry? (p.state.ground.disk.put (a.dir ++ [a.name]) a.entry)
        (a.dir ++ [a.name]) = some a.entry := by
      rw [Disk.entry?_put hfree, if_pos rfl]
    rw [hstate]
    exact Option.isSome_of_mem hentry
  · by_cases hknown : Known q.state.ground.service a.dir
    · obtain ⟨key, hkey, hmem⟩ := hevent hknown
      exact Or.inr (Or.inl ⟨_, hmem, hkey, rfl⟩)
    · exact Or.inr (Or.inr hknown)

/-! ### Runs -/

/-- A watch that is being started or runs its loop, and all of whose directories are
registered or will be. -/
structure Sound (root : Location) (maxDepth : Nat) (callback : Callback) (p : Running) : Prop where
  watching : Watching root maxDepth callback p.state
  stage : (Starting root p.state p.threads ∧
      .started .owner none ∉ p.state.desk.journal.notes) ∨ Looping root p.state p.threads
  heeded : Heeded root maxDepth p

/-- A loop goes on when something is added. -/
theorem looping_added (hp : Looping root p.state p.threads) {q : Running}
    (hstate : q.state = p.state.withGround (a.apply p.state.ground)) (hthreads : q.threads = p.threads)
    (hfits : a.fits p.state.ground.disk = true) : Looping root q.state q.threads := by
  obtain ⟨hstarted, owner, loop, hlist, howner, hloop, hfit⟩ := hp
  rw [hstate, hthreads]
  exact ⟨hstarted, owner, loop, hlist, howner, hloop,
    fun j hj => (Addition.onward hfits).fit (hfit j hj)⟩

/-- A start goes on when something is added. -/
theorem starting_added (hp : Starting root p.state p.threads) {q : Running}
    (hstate : q.state = p.state.withGround (a.apply p.state.ground)) (hthreads : q.threads = p.threads)
    (hfits : a.fits p.state.ground.disk = true) : Starting root q.state q.threads := by
  rw [hstate, hthreads]
  generalize p.threads = threads at hp
  cases hp with
  | opening hnot => exact .opening hnot
  | launching hstarted hlaunches hfit =>
    exact .launching hstarted hlaunches ((Addition.onward hfits).fit hfit)

theorem sound_move {m : Move Addition} (hp : Sound root maxDepth callback p)
    (h : (setting behaviour).move m p = some q) : Ended q ∨ Sound root maxDepth callback q := by
  cases m with
  | job i =>
    have hstep : p.step (machine behaviour) i = some q := h
    rcases hp.stage with ⟨hstarting, hsilent⟩ | hlooping
    · rcases start_step hp.watching hstarting hsilent hstep with hended | ⟨job, hgrowth, hstage⟩
      · exact Or.inl hended
      · obtain ⟨d, hjobs, heffect⟩ := hgrowth
        exact Or.inr ⟨hjobs.state ▸ heffect.watching, hstage,
          heeded_step hp.heeded ⟨d, hjobs, heffect⟩⟩
    · rcases loop_step hp.watching hlooping hstep with hended | ⟨job, hgrowth, -, hnext⟩
      · exact Or.inl hended
      · obtain ⟨d, hjobs, heffect⟩ := hgrowth
        exact Or.inr ⟨hjobs.state ▸ heffect.watching, Or.inr hnext,
          heeded_step hp.heeded ⟨d, hjobs, heffect⟩⟩
  | outside a =>
    have hadded : outside a p = some q := h
    obtain ⟨hstate, hthreads, hfits, -⟩ := pending_added hp.watching hadded
    refine Or.inr ⟨hstate ▸ hp.watching.added hfits, ?_, heeded_added hp.watching hp.heeded hadded⟩
    rcases hp.stage with ⟨hstarting, hsilent⟩ | hlooping
    · refine Or.inl ⟨starting_added hstarting hstate hthreads hfits, ?_⟩
      rw [hstate]
      exact hsilent
    · exact Or.inr (looping_added hlooping hstate hthreads hfits)

/-- What has ended stays so. -/
theorem ended_move {m : Move Addition} (hp : Ended p)
    (h : (setting behaviour).move m p = some q) : Ended q := by
  cases m with
  | job i => exact ended_step hp h
  | outside a =>
    have hadded : outside a p = some q := h
    unfold outside at hadded
    split at hadded
    · obtain rfl := Option.some.inj hadded
      exact ⟨hp.started, hp.jobs⟩
    · exact absurd hadded (by simp)

theorem sound_run {moves : List (Move Addition)} (hp : Sound root maxDepth callback p)
    (h : (setting behaviour).run? moves p = some q) : Ended q ∨ Sound root maxDepth callback q := by
  have hmove : ∀ p m q, (Ended p ∨ Sound root maxDepth callback p) →
      (setting behaviour).move m p = some q → Ended q ∨ Sound root maxDepth callback q := by
    rintro p m q (hended | hsound) hm
    · exact Or.inl (ended_move hended hm)
    · exact sound_move hsound hm
  exact Setting.preserved hmove (Or.inr hp) h

/-- From the answer of the start on the loop runs, and what is owed is owed still. -/
theorem owed_move {m : Move Addition} (hp : Sound root maxDepth callback p)
    (hloop : Looping root p.state p.threads) (h : (setting behaviour).move m p = some q) :
    Ended q ∨ (Looping root q.state q.threads ∧
      (∀ dir n, dir.Short → Owed callback dir n p → Owed callback dir n q) ∧
      ∀ a, m = .outside a → Owed callback a.dir a.name q) := by
  cases m with
  | job i =>
    have hstep : p.step (machine behaviour) i = some q := h
    rcases loop_step hp.watching hloop hstep with hended | ⟨job, hgrowth, hlaunches, hnext⟩
    · exact Or.inl hended
    · exact Or.inr ⟨hnext, fun dir n hshort howed =>
        owed_step hp.watching hshort howed hgrowth hlaunches, fun a ha => absurd ha (by simp)⟩
  | outside a =>
    have hadded : outside a p = some q := h
    obtain ⟨hstate, hthreads, hfits, -⟩ := pending_added hp.watching hadded
    refine Or.inr ⟨looping_added hloop hstate hthreads hfits,
      fun dir n _ howed => owed_kept hp.watching howed hadded, ?_⟩
    intro a' ha
    obtain rfl := Move.outside.inj ha
    exact owed_added hp.watching hadded

/-- All that is added during a run of the loop is owed at its end, and all that was
owed before. -/
theorem owed_run {moves : List (Move Addition)} : ∀ {p q : Running},
    Sound root maxDepth callback p → Looping root p.state p.threads →
      (setting behaviour).run? moves p = some q → Ended q ∨
        ((∀ dir n, dir.Short → Owed callback dir n p → Owed callback dir n q) ∧
          ∀ a, .outside a ∈ moves → a.dir.Short → Owed callback a.dir a.name q) := by
  induction moves with
  | nil =>
    intro p q _ _ h
    obtain rfl := Option.some.inj h
    exact Or.inr ⟨fun _ _ _ howed => howed, fun _ ha => absurd ha List.not_mem_nil⟩
  | cons m rest ih =>
    intro p q hp hloop h
    obtain ⟨r, hr, hrest⟩ := Setting.run?_cons.mp h
    have hended : Ended r → Ended q := fun hr' =>
      Setting.preserved (fun _ _ _ h hm => ended_move h hm) hr' hrest
    rcases sound_move hp hr with hdone | hsound
    · exact Or.inl (hended hdone)
    · rcases owed_move hp hloop hr with hdone | ⟨hloop', hkept, hnew⟩
      · exact Or.inl (hended hdone)
      · rcases ih hsound hloop' hrest with hdone | ⟨hkept', hnew'⟩
        · exact Or.inl hdone
        · refine Or.inr ⟨fun dir n hshort howed => hkept' dir n hshort (hkept dir n hshort howed), ?_⟩
          intro a ha hshort
          rcases List.mem_cons.mp ha with heq | ha
          · exact hkept' a.dir a.name hshort (hnew a heq.symm)
          · exact hnew' a ha hshort

/-! ### Nothing is missed -/

/-- The queue is empty, and the loop waits for it. -/
def Idle (p : Running) : Prop :=
  p.state.ground.service.signals = [] ∧ ([.take] ∈ p.threads ∨ [.receive] ∈ p.threads)

/-- A loop that is idle has not ended. -/
theorem Ended.not_idle (hp : Ended p) : ¬ Idle p := by
  have hno : ∀ j : Job, j ∈ p.jobs → j ≠ .take ∧ j ≠ .receive := by
    intro j hj
    rcases hp.jobs j hj with hwithin | ⟨rfl, -⟩
    · constructor <;> rintro rfl <;> exact absurd hwithin (by simp [within, Job.inner])
    · exact ⟨Job.noConfusion, Job.noConfusion⟩
  rintro ⟨-, hmem | hmem⟩
  · exact (hno .take (Pool.mem_jobs.mpr ⟨_, hmem, List.mem_singleton_self _⟩)).1 rfl
  · exact (hno .receive (Pool.mem_jobs.mpr ⟨_, hmem, List.mem_singleton_self _⟩)).2 rfl

/-- When the loop is idle, nothing is to be done that has to do with the tree. -/
theorem Sound.idle (hp : Sound root maxDepth callback p) (hidle : Idle p) :
    ∀ j ∈ pending p, (∃ caller error, j = .started caller error) ∨ j = .take ∨ j = .receive := by
  obtain ⟨hsignals, hthread⟩ := hidle
  have hwaiting : waiting p.state.ground.service = [] := by
    unfold waiting
    rw [hsignals]
    rfl
  unfold pending
  rw [hwaiting, List.nil_append]
  -- the thread of a start neither takes nor waits, so it is the loop that is idle
  rcases hp.stage with ⟨hstarting, -⟩ | ⟨-, owner, loop, hthreads, howner, -, -⟩
  · generalize hlist : p.threads = threads at hstarting
    rw [hlist] at hthread
    cases hstarting with
    | opening => exact absurd hthread (by simp)
    | @launching job _ hlaunches _ =>
      have hjob : job = .take ∨ job = .receive := by
        rcases hthread with hmem | hmem
        · exact Or.inl (List.singleton_inj.mp (List.mem_singleton.mp hmem)).symm
        · exact Or.inr (List.singleton_inj.mp (List.mem_singleton.mp hmem)).symm
      rcases hjob with rfl | rfl <;> exact absurd hlaunches (by simp [launches])
  · have hloop : loop = [.take] ∨ loop = [.receive] := by
      have hnot : ∀ j : Job, (∀ caller error, j ≠ .started caller error) → [j] ≠ owner := by
        rintro j hj rfl
        obtain ⟨caller, error, heq⟩ := howner j (List.mem_singleton_self _)
        exact hj caller error heq
      rw [hthreads] at hthread
      rcases hthread with hmem | hmem
      · rcases List.mem_cons.mp hmem with heq | hmem
        · exact absurd heq (hnot _ fun _ _ => Job.noConfusion)
        · exact Or.inl (List.mem_singleton.mp hmem).symm
      · rcases List.mem_cons.mp hmem with heq | hmem
        · exact absurd heq (hnot _ fun _ _ => Job.noConfusion)
        · exact Or.inr (List.mem_singleton.mp hmem).symm
    intro j hj
    obtain ⟨thread, hmem, hj⟩ := Pool.mem_jobs.mp hj
    rw [hthreads] at hmem
    rcases List.mem_cons.mp hmem with rfl | hmem
    · exact Or.inl (howner j hj)
    · rw [List.mem_singleton.mp hmem] at hj
      rcases hloop with rfl | rfl
      · exact Or.inr (Or.inl (List.mem_singleton.mp hj))
      · exact Or.inr (Or.inr (List.mem_singleton.mp hj))

/-- When the loop is idle, every directory within bounds is registered. -/
theorem Sound.known (hp : Sound root maxDepth callback p) (hidle : Idle p)
    (hdir : Wanted root maxDepth p.state.ground.disk dir) : Known p.state.ground.service dir := by
  rcases hp.heeded dir hdir with hknown | ⟨j, hj, hheeds⟩
  · exact hknown
  · rcases hp.idle hidle j hj with ⟨caller, error, rfl⟩ | rfl | rfl <;> exact absurd hheeds id

/-- When the loop is idle, every entry that is owed is told, if its directory is
within bounds. -/
theorem Sound.told (hp : Sound root maxDepth callback p) (hidle : Idle p)
    (hdir : Wanted root maxDepth p.state.ground.disk dir) (howed : Owed callback dir n p) :
    Told p.state callback dir n := by
  rcases howed.left with htold | ⟨j, hj, hpromises⟩ | hfree
  · exact htold
  · rcases hp.idle hidle j hj with ⟨caller, error, rfl⟩ | rfl | rfl <;> exact absurd hpromises id
  · exact absurd (hp.known hidle hdir) hfree

/-- A watch over a tree that is not yet started, with a callback for creations, a disk
in order, and a fresh service that refuses nothing. -/
structure Prepared (root : Location) (maxDepth : Nat) (callback : Callback) (w : Watch) : Prop where
  strategy : w.strategy = ⟨.tree ⟨root.toPath, maxDepth, []⟩, .none⟩
  handler : w.handlers.create = some callback
  order : w.ground.disk.InOrder
  stands : w.ground.disk.entry? root = some .dir
  service : ∃ faults, w.ground.service = .memory (.new faults) ∧ faults.refused = [] ∧
    faults.vanishing = []
  fresh : w.started = false ∧ w.stopped = false
  notes : w.desk.journal.notes = []

theorem Prepared.sound (hw : Prepared root maxDepth callback w) :
    Sound root maxDepth callback ⟨w, [[.start .owner]]⟩ := by
  obtain ⟨faults, hservice, hrefused, hvanishing⟩ := hw.service
  have hsignals : w.ground.service.signals = [] := by
    rw [hservice]
    rfl
  have hwaiting : waiting w.ground.service = [] := by
    unfold waiting
    rw [hsignals]
    rfl
  have hrooted : Rooted root maxDepth w.ground ⟨root.toPath, maxDepth, []⟩ :=
    ⟨hw.order, rfl, rfl, hw.stands, _, hservice, ⟨rfl, hrefused, hvanishing⟩,
      fun _ he => absurd he List.not_mem_nil⟩
  refine ⟨⟨⟨_, by rw [hw.strategy], hrooted⟩, by rw [hw.strategy], hw.handler, hw.fresh.2, ?_, ?_⟩,
    Or.inl ⟨.opening hw.fresh.1, ?_⟩, ?_⟩
  · show ∀ signal ∈ w.ground.service.signals, _
    rw [hsignals]
    exact fun _ h => absurd h List.not_mem_nil
  · show ∀ j ∈ waiting w.ground.service, _
    rw [hwaiting]
    exact fun _ h => absurd h List.not_mem_nil
  · show _ ∉ w.desk.journal.notes
    rw [hw.notes]
    exact List.not_mem_nil
  · intro dir hdir
    obtain ⟨rel, hrel, -⟩ := hdir.below
    refine Or.inr ⟨.start .owner, ?_, rfl, rel, hrel⟩
    exact List.mem_append_right _ (List.mem_singleton_self _)

/-- Nothing that is added to a tree is missed, whenever it is added.  When the queue
is empty and the loop is idle, every directory within bounds is registered and kept
in the tree, and the callback was given every entry that was added to one of them
after the start was answered, unless the path of the directory is too long to be asked
for. -/
theorem growing_tree_is_watched {p₁ p₂ : Running} {before after : List (Move Addition)}
    (hw : Prepared root maxDepth callback w)
    (h₁ : (setting behaviour).run? before ⟨w, [[.start .owner]]⟩ = some p₁)
    (h₂ : (setting behaviour).run? after p₁ = some p₂) (hidle : Idle p₂) :
    (∃ t, p₂.state.strategy.target = .tree t ∧
      ∀ rel, rel.length ≤ maxDepth → p₂.state.ground.disk.entry? (root ++ rel) = some .dir →
        Location.Short (root ++ rel) →
          ∃ key, p₂.state.ground.service.keyOf? (Location.toPath (root ++ rel)) = some key ∧
            t.node? key = some ⟨Location.toPath (root ++ rel), rel.length⟩) ∧
    (.started .owner none ∈ p₁.state.desk.journal.notes →
      ∀ a, .outside a ∈ after → ∀ rel, a.dir = root ++ rel → rel.length ≤ maxDepth →
        a.dir.Short → ∃ context, .ran callback context ∈ p₂.state.desk.journal.notes ∧
          context.kind = .create ∧ context.path = a.place.toPath) := by
  obtain ⟨hsound₁, hsound₂⟩ : Sound root maxDepth callback p₁ ∧ Sound root maxDepth callback p₂ := by
    -- an ended watch is not idle, so neither run ended
    have hnot := fun hended : Ended p₂ => hended.not_idle hidle
    rcases sound_run hw.sound h₁ with hended | hsound₁
    · exact absurd (Setting.preserved (fun _ _ _ h hm => ended_move h hm) hended h₂) hnot
    · rcases sound_run hsound₁ h₂ with hended | hsound₂
      · exact absurd hended hnot
      · exact ⟨hsound₁, hsound₂⟩
  constructor
  · -- what is wanted is known once nothing is left to do
    obtain ⟨t, htarget, ht⟩ := hsound₂.watching.tree
    refine ⟨t, htarget, fun rel hle hstands hshort => ?_⟩
    have hwanted : Wanted root maxDepth p₂.state.ground.disk (root ++ rel) :=
      ⟨⟨rel, rfl, hle⟩, hstands, hshort⟩
    obtain ⟨key, hkey⟩ := Option.isSome_iff_exists.mp (hsound₂.known hidle hwanted)
    obtain ⟨rel', hrel, -, hnode⟩ := ht.node (ht.order.names hstands) hkey
    obtain rfl := List.append_cancel_left hrel
    exact ⟨key, hkey, hnode⟩
  · -- what is added while the loop runs is owed from then on, and told when all is done
    intro hstarted a ha rel hrel hle hshort
    have hloop : Looping root p₁.state p₁.threads := by
      rcases hsound₁.stage with ⟨-, hsilent⟩ | hloop
      · exact absurd hstarted hsilent
      · exact hloop
    rcases owed_run hsound₁ hloop h₂ with hended | ⟨-, hall⟩
    · exact absurd hidle hended.not_idle
    · have howed := hall a ha hshort
      obtain ⟨e, he⟩ := Option.isSome_iff_exists.mp howed.entry
      obtain ⟨t, -, ht⟩ := hsound₂.watching.tree
      exact hsound₂.told hidle ⟨⟨rel, hrel, hle⟩, (ht.order.above he).2, hshort⟩ howed

/-- A directory is added and a file in it before the loop begins: the file is found
when the directory is picked up. -/
theorem early_file_is_told :
    let w : Watch := {
      strategy := ⟨.tree ⟨Location.toPath [[119]], 1, []⟩, .none⟩
      handlers := ⟨some ⟨0⟩, none, none, none⟩
      kinds := [.create], delay := .zero, backend := .default
      ground := ⟨.memory (.new .none), Disk.empty.put [[119]] .dir⟩
      executor := .new .ownThread, desk := ⟨none, .empty⟩
      started := false, stopped := false, handled := 0 }
    let before : List (Move Addition) := List.replicate 9 (.job 0)
    let after : List (Move Addition) :=
      [.outside ⟨[[119]], [97], .dir⟩, .outside ⟨[[119], [97]], [98], .file []⟩] ++
        List.replicate 17 (.job 1)
    ∃ p₁ p₂, (setting fun _ _ _ => .none).run? before ⟨w, [[.start .owner]]⟩ = some p₁ ∧
      (setting fun _ _ _ => .none).run? after p₁ = some p₂ ∧ Idle p₂ ∧
      (∃ key, p₂.state.ground.service.keyOf? (Location.toPath [[119], [97]]) = some key) ∧
      ∃ context, .ran ⟨0⟩ context ∈ p₂.state.desk.journal.notes ∧ context.kind = .create ∧
        context.path = Location.toPath [[119], [97], [98]] := by
  intro w before after
  have hfree : Disk.empty.entry? ([] ++ [[119]]) = none := rfl
  have hw : Prepared [[119]] 1 ⟨0⟩ w := by
    refine ⟨rfl, rfl, ?_, rfl, ⟨_, rfl, rfl, rfl⟩, ⟨rfl, rfl⟩, rfl⟩
    have hempty : Disk.empty.InOrder := ⟨List.nodup_nil, fun _ _ h => absurd h List.not_mem_nil⟩
    exact hempty.put rfl hfree (by decide)
  -- the run, computed once for all that is read off it
  have hrun : ((setting fun _ _ _ => .none).run? before ⟨w, [[.start .owner]]⟩).bind (fun p₁ =>
      ((setting fun _ _ _ => .none).run? after p₁).map fun p₂ =>
        (p₁.state.desk.journal.notes, p₂.threads, p₂.state.ground.service.signals,
          p₂.state.ground.disk.entry? [[119], [97]])) =
      some ([.started .owner none], [[], [.receive]], [], some .dir) := by
    decide +kernel
  obtain ⟨p₁, h₁, hrest⟩ := Option.bind_eq_some_iff.mp hrun
  obtain ⟨p₂, h₂, hfacts⟩ := Option.map_eq_some_iff.mp hrest
  obtain ⟨hnotes, hfacts⟩ := Prod.mk.inj hfacts
  obtain ⟨hthreads, hfacts⟩ := Prod.mk.inj hfacts
  obtain ⟨hsignals, hstands⟩ := Prod.mk.inj hfacts
  have hidle : Idle p₂ := by
    refine ⟨hsignals, Or.inr ?_⟩
    rw [hthreads]
    exact List.mem_cons_of_mem _ (List.mem_singleton_self _)
  have hstarted : .started .owner none ∈ p₁.state.desk.journal.notes := by
    rw [hnotes]
    exact List.mem_singleton_self _
  obtain ⟨⟨t, -, hknown⟩, htold⟩ := growing_tree_is_watched hw h₁ h₂ hidle
  refine ⟨p₁, p₂, h₁, h₂, hidle, ?_, ?_⟩
  · obtain ⟨key, hkey, -⟩ := hknown [[97]] (by decide) hstands (by decide)
    exact ⟨key, hkey⟩
  · exact htold hstarted ⟨[[119], [97]], [98], .file []⟩ (by decide) [[97]] rfl (by decide) (by decide)

/-! ### Paths that are too long -/

/-- A name as long as names may be. -/
def longName : Bytes :=
  List.replicate Disk.nameLimit 97

/-- A place so many long names deep. -/
def column (k : Nat) : Location :=
  List.replicate k longName

/-- A disk with directories of long names, each in the one before. -/
def columnDisk : Nat → Disk
  | 0 => .empty
  | k + 1 => (columnDisk k).put (column k ++ [longName]) .dir

theorem column_succ (k : Nat) : column (k + 1) = column k ++ [longName] :=
  List.replicate_succ'

theorem columnDisk_spec (k : Nat) : (columnDisk k).InOrder ∧
    Disk.entry? (columnDisk k) (column k) = some .dir ∧
    ∀ place e, Disk.entry? (columnDisk k) place = some e → ∃ m, m ≤ k ∧ place = column m := by
  induction k with
  | zero =>
    -- there is nothing but the root
    refine ⟨⟨List.nodup_nil, fun _ _ h => absurd h List.not_mem_nil⟩, rfl, ?_⟩
    intro place e h
    by_cases hroot : place = []
    · exact ⟨0, Nat.le_refl _, hroot⟩
    · rw [Disk.entry?_of_ne_nil hroot] at h
      exact absurd h (by simp [columnDisk, Disk.empty])
  | succ k ih =>
    obtain ⟨horder, hdir, hall⟩ := ih
    have hfree : Disk.entry? (columnDisk k) (column k ++ [longName]) = none := by
      cases h : Disk.entry? (columnDisk k) (column k ++ [longName]) with
      | none => rfl
      | some e =>
        obtain ⟨m, hm, heq⟩ := hall _ e h
        rw [← column_succ] at heq
        have hlength := congrArg List.length heq
        simp only [column, List.length_replicate] at hlength
        omega
    refine ⟨horder.put hdir hfree (by decide +kernel), ?_, ?_⟩
    · rw [column_succ]
      show Disk.entry? ((columnDisk k).put _ _) _ = _
      rw [Disk.entry?_put hfree, if_pos rfl]
    · intro place e h
      have h : Disk.entry? ((columnDisk k).put (column k ++ [longName]) .dir) place = some e := h
      rw [Disk.entry?_put hfree] at h
      split at h
      · next heq => exact ⟨k + 1, Nat.le_refl _, by rw [heq, column_succ]⟩
      · obtain ⟨m, hm, heq⟩ := hall place e h
        exact ⟨m, Nat.le_succ_of_le hm, heq⟩

/-- A watch over the last directory but one whose path can still be asked for, with
a directory two levels below. -/
def columnWatch : Watch where
  strategy := ⟨.tree ⟨(column 15).toPath, 2, []⟩, .none⟩
  handlers := ⟨some ⟨0⟩, none, none, none⟩
  kinds := [.create]
  delay := .zero
  backend := .default
  ground := ⟨.memory (.new .none), (columnDisk 16).put (column 16 ++ [[98]]) .dir⟩
  executor := .new .ownThread
  desk := ⟨none, .empty⟩
  started := false
  stopped := false
  handled := 0

/-- A directory whose path is too long cannot be listed: nothing is added, the loop is
idle, and a directory within bounds is not registered. -/
theorem long_path_is_missed : ∃ before p, Prepared (column 15) 2 ⟨0⟩ columnWatch ∧
    (setting fun _ _ _ => .none).run? before ⟨columnWatch, [[.start .owner]]⟩ = some p ∧ Idle p ∧
    ∃ rel, rel.length ≤ 2 ∧ p.state.ground.disk.entry? (column 15 ++ rel) = some .dir ∧
      p.state.ground.service.keyOf? (Location.toPath (column 15 ++ rel)) = none := by
  let before : List (Move Addition) := List.replicate 10 (.job 0) ++ [.job 1]
  have hprepared : Prepared (column 15) 2 ⟨0⟩ columnWatch := by
    obtain ⟨horder, hdir, hall⟩ := columnDisk_spec 16
    have hfree : Disk.entry? (columnDisk 16) (column 16 ++ [[98]]) = none := by
      cases h : Disk.entry? (columnDisk 16) (column 16 ++ [[98]]) with
      | none => rfl
      | some e =>
        obtain ⟨m, hm, heq⟩ := hall _ e h
        have hlength := congrArg List.length heq
        simp only [column, List.length_append, List.length_replicate, List.length_singleton]
          at hlength
        omega
    have habove : Disk.entry? (columnDisk 16) (column 15) = some .dir := by
      rw [column_succ] at hdir
      exact (horder.above hdir).2
    have hname : IsName [98] := by decide
    exact ⟨rfl, rfl, horder.put hdir hfree hname, Disk.entry?_put_of_some hfree habove,
      ⟨_, rfl, rfl, rfl⟩, ⟨rfl, rfl⟩, rfl⟩
  have hrun : ((setting fun _ _ _ => .none).run? before ⟨columnWatch, [[.start .owner]]⟩).map
      (fun p => (p.threads, p.state.ground.service.signals,
        p.state.ground.disk.entry? (column 15 ++ [longName, [98]]),
        p.state.ground.service.keyOf? (Location.toPath (column 15 ++ [longName, [98]])))) =
      some ([[], [.take]], [], some .dir, none) := by
    decide +kernel
  obtain ⟨p, hp, hfacts⟩ := Option.map_eq_some_iff.mp hrun
  obtain ⟨hthreads, hfacts⟩ := Prod.mk.inj hfacts
  obtain ⟨hsignals, hfacts⟩ := Prod.mk.inj hfacts
  obtain ⟨hstands, hkey⟩ := Prod.mk.inj hfacts
  refine ⟨before, p, hprepared, hp, ⟨hsignals, Or.inl ?_⟩, [longName, [98]], Nat.le_refl _, hstands,
    hkey⟩
  rw [hthreads]
  exact List.mem_cons_of_mem _ (List.mem_singleton_self _)

end ChangeWatch.Growing
