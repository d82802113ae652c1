import ChangeWatch.Proofs.Watch.Lifecycle.Calls

/-!
# What a start that succeeds has registered

A watch needs the directory at the base of its target: the root of a tree, or the
directory that holds a file.  A call of `start` that succeeds has registered it
with the service, except where a tree is to be watched and something other than a
directory stands at its root when the walk looks there (`start_secures_base`).  In
that case, of a root that was removed or replaced meanwhile, the call succeeds all
the same, and nothing is watched (`removed_root_is_started`).

The jobs of a start under way are on course (`Course`): either the base is secured
already (`Secured`), or the walk has still to look at the root or to enter it.
-/

namespace ChangeWatch.Lifecycle

open Watch

variable {behaviour : Behaviour Wish} {w : Watch} {job : Job} {d : Done Watch Job} {i : Nat}
  {p q : Running} {told more : List Seen} {target : Target} {moves : List (Move Outside)}

/-- The directory without which a target cannot be watched. -/
def base : Target → Path
  | .file t => t.parent
  | .tree t => t.root

/-- The service has accepted the base, or no directory was found at the root of a
tree. -/
def Secured (target : Target) (told : List Seen) : Prop :=
  (∃ key, .enrolled (base target) 0 key ∈ told) ∨
    ∃ t f, target = .tree t ∧ f ≠ .directory ∧ .looked t.root f ∈ told

/-- A job of a start leads to success only if the base is secured, or is about to be. -/
def Course (target : Target) (told : List Seen) : Job → Prop
  | .walk (.start _) agenda _ => Secured target told ∨
      ∃ t, target = .tree t ∧ (agenda = [.look t.root 0] ∨ agenda = [.enter t.root 0])
  | .submit _ | .started _ none => Secured target told
  | _ => True

theorem Secured.mono (h : Secured target told) (hmore : ∀ x ∈ told, x ∈ more) :
    Secured target more := by
  rcases h with ⟨key, hkey⟩ | ⟨t, f, htarget, hf, hlooked⟩
  · exact Or.inl ⟨key, hmore _ hkey⟩
  · exact Or.inr ⟨t, f, htarget, hf, hmore _ hlooked⟩

theorem Secured.course (h : Secured target told) (job : Job) : Course target told job := by
  cases job with
  | walk purpose agenda registered =>
    cases purpose with
    | start caller => exact Or.inl h
    | pickup event path => trivial
  | submit caller => exact h
  | started caller error =>
    cases error with
    | none => exact h
    | some e => trivial
  | _ => trivial

theorem Course.mono (h : Course target told job) (hmore : ∀ x ∈ told, x ∈ more) :
    Course target more job := by
  cases job with
  | walk purpose agenda registered =>
    cases purpose with
    | start caller => exact h.imp_left fun hs => hs.mono hmore
    | pickup event path => trivial
  | submit caller => exact Secured.mono h hmore
  | started caller error =>
    cases error with
    | none => exact Secured.mono h hmore
    | some e => trivial
  | _ => trivial

theorem course_of_not_opens (target : Target) (told : List Seen) (h : job.opens = false) :
    Course target told job := by
  cases job with
  | walk purpose agenda registered =>
    cases purpose with
    | start caller => exact absurd h (by simp [Job.opens])
    | pickup event path => trivial
  | submit caller => exact absurd h (by simp [Job.opens])
  | started caller error => exact absurd h (by simp [Job.opens])
  | _ => trivial

theorem course_startFailed (target : Target) (told : List Seen) (caller : Caller)
    (e : WatchError) : ∀ j ∈ startFailed caller e, Course target told j := by
  intro j hj
  rcases List.mem_cons.mp hj with rfl | hj
  · trivial
  · rw [List.mem_singleton.mp hj]
    trivial

/-! ### A step -/

/-- The root is about to be registered. -/
theorem course_registerRoot (caller : Caller) (hsame : Regrown target w.strategy.target) :
    ∀ j ∈ (w.registerRoot caller).next, Course target (seen (.registerRoot caller) w) j := by
  unfold registerRoot
  simp only [seen]
  cases hnow : w.strategy.target with
  | tree t =>
    rw [hnow] at hsame
    cases target with
    | file t₀ => exact hsame.elim
    | tree t₀ =>
      intro j hj
      obtain rfl := List.mem_singleton.mp hj
      exact Or.inr ⟨t₀, rfl, Or.inl (by rw [hsame.1])⟩
  | file t =>
    rw [hnow] at hsame
    cases target with
    | tree t₀ => exact hsame.elim
    | file t₀ =>
      obtain rfl : t₀ = t := hsame
      dsimp only
      rcases t₀.register w.ground w.kinds with ⟨r, ground⟩
      cases r with
      | ok key =>
        have hsecured : Secured (.file t₀)
            [.registering, .enrolled t₀.parent 0 key, .registered none] :=
          Or.inl ⟨key, by simp [base]⟩
        exact fun j _ => hsecured.course j
      | error e => exact course_startFailed _ _ caller e

/-- The walk looks at the root, or enters it. -/
theorem course_walkOn {t : DirTree} {errand : DirTree.Errand} (caller : Caller)
    (registered : List Path) (hroot : target = .tree t)
    (herrand : errand = .look t.root 0 ∨ errand = .enter t.root 0) (tree : DirTree) :
    ∀ j ∈ (w.walkOn (.start caller) errand [] registered tree).next,
      Course target (glimpsed w errand) j := by
  subst hroot
  unfold walkOn
  dsimp only
  rcases herrand with rfl | rfl
  · simp only [DirTree.advance, DirTree.Walk.start, Nat.not_lt_zero, if_false, glimpsed]
    show ∀ j ∈ _, Course _ [.looked t.root (DirTree.footing w.ground.disk t.root)] j
    have hfoot : DirTree.footing (Site.disk w.ground) t.root =
        DirTree.footing w.ground.disk t.root := rfl
    rw [hfoot]
    cases hf : DirTree.footing w.ground.disk t.root with
    | directory =>
      intro j hj
      obtain rfl := List.mem_singleton.mp hj
      exact Or.inr ⟨t, rfl, Or.inr rfl⟩
    | _ =>
      intro j _
      exact Secured.course (Or.inr ⟨t, _, rfl, by simp, List.mem_singleton_self _⟩) j
  · simp only [DirTree.advance, DirTree.enter, DirTree.Walk.start, glimpsed]
    rcases Site.register t.root w.kinds w.ground with ⟨r, site⟩
    cases r with
    | ok key =>
      intro j _
      exact Secured.course (Or.inl ⟨key, List.mem_singleton_self _⟩) j
    | error e => exact course_startFailed _ _ caller e

/-- What follows all other jobs leads to a success only from a submission. -/
theorem LifecycleEffect.course (h : LifecycleEffect w job told d)
    (hroot : ∀ c, job ≠ .registerRoot c)
    (hwalk : ∀ c agenda registered, job ≠ .walk (.start c) agenda registered)
    (hjob : Course target more job) : ∀ j ∈ d.next, Course target more j := by
  cases h with
  | registers => exact absurd rfl (hroot _)
  | walks => exact absurd rfl (hwalk _ _ _)
  | runs caller hparked => exact fun j _ => Secured.course hjob j
  | parks caller hparked => exact fun j _ => Secured.course hjob j
  | refuses caller e hparked => exact course_startFailed _ _ caller e
  | closes step =>
    intro j hj
    obtain ⟨next, -, rfl⟩ := List.mem_map.mp hj
    trivial
  | isAside haside hsame hspawned hnext =>
    exact fun j hj => course_of_not_opens _ _ (hnext j hj).1
  | _ => simp [Done.andThen, Done.just, Course]

/-- What follows a job that is on course is on course. -/
theorem perform_course (hd : perform behaviour job w = some d)
    (hsame : Regrown target w.strategy.target) (hjob : Course target told job) :
    ∀ j ∈ d.next, Course target (told ++ seen job w) j := by
  have hleft : ∀ x ∈ told, x ∈ told ++ seen job w := fun x hx => List.mem_append_left _ hx
  have hright : ∀ x ∈ seen job w, x ∈ told ++ seen job w := fun x hx => List.mem_append_right _ hx
  -- the registration of the root and the walk of a start secure something; other jobs hand
  -- on what was secured
  cases job with
  | registerRoot caller =>
    obtain rfl := Option.some.inj hd
    exact fun j hj => (course_registerRoot caller hsame j hj).mono hright
  | walk purpose agenda registered =>
    cases purpose with
    | pickup event path =>
      have h := (perform_lifecycleEffect hd).course (by simp) (by simp) hjob
      exact fun j hj => (h j hj).mono hleft
    | start caller =>
      rcases hjob with hsecured | ⟨t, rfl, hagenda⟩
      · exact fun j _ => (hsecured.mono hleft).course j
      · cases hnow : w.strategy.target with
        | file t' =>
          rw [hnow] at hsame
          exact hsame.elim
        | tree t' =>
          -- until the root is secured the agenda is one errand, at the root
          obtain ⟨errand, rfl, herrand⟩ : ∃ errand, agenda = [errand] ∧
              (errand = .look t.root 0 ∨ errand = .enter t.root 0) := by
            rcases hagenda with rfl | rfl
            · exact ⟨_, rfl, Or.inl rfl⟩
            · exact ⟨_, rfl, Or.inr rfl⟩
          simp only [perform, hnow] at hd
          obtain rfl := Option.some.inj hd
          intro j hj
          refine (course_walkOn caller registered rfl herrand t' j hj).mono fun x hx => hright x ?_
          simp only [seen, hnow]
          exact List.mem_append_left _ hx
  | _ =>
    have h := (perform_lifecycleEffect hd).course (by simp) (by simp) hjob
    exact fun j hj => (h j hj).mono hleft

/-! ### All runs -/

/-- Every job that is still to be done is on course. -/
structure OnCourse (target : Target) (L : List (Nat × Seen)) (p : Running) : Prop where
  setup : Regrown target p.state.strategy.target
  jobs : ∀ j ∈ p.jobs, Course target (L.map (·.2)) j
  parked : ∀ j ∈ p.state.executor.parked, j = .run

theorem move_onCourse {L : List (Nat × Seen)} {a : Move Outside} (hp : OnCourse target L p)
    (hmove : (setting behaviour).move a p = some q) :
    OnCourse target (L ++ Setting.noted note a p) q := by
  cases a with
  | job i =>
    obtain ⟨job, rest, d, hi, hd, rfl⟩ := Pool.step_eq_some hmove
    have hjobs : Pool.JobStep p ⟨d.state, p.threads.set i (d.next ++ rest) ++ d.spawned⟩ job d :=
      Pool.jobs_of_set hi
    have hearns := (perform_lifecycleEffect hd).earns
    rw [Setting.noted_job hi]
    -- what was secured stays so, as the log only grows
    refine ⟨hp.setup.trans (perform_sameSetup hd).target, ?_, ?_⟩
    · intro j hj
      rw [List.map_append, map_snd_note]
      rcases hjobs.known j hj with hj | hj | ⟨t, ht, hjt⟩
      · exact perform_course hd hp.setup (hp.jobs job hjobs.before) j hj
      · exact (hp.jobs j hj).mono fun x hx => List.mem_append_left _ hx
      · rw [(hearns.spawned t ht j hjt).1]
        trivial
    · intro j hj
      rcases hearns.parked j hj with hj | ⟨hrun, -, -⟩
      · exact hp.parked j hj
      · exact hrun
  | outside e =>
    obtain ⟨more, harrival⟩ := outside_arrival hmove
    rw [Setting.noted_outside, List.append_nil]
    refine ⟨hp.setup.trans harrival.setup.target, ?_,
      fun j hj => hp.parked j (harrival.parked j hj)⟩
    intro j hj
    rw [harrival.jobs] at hj
    rcases List.mem_append.mp hj with hj | hj
    · exact hp.jobs j hj
    · exact course_of_not_opens _ _ (harrival.aside hp.parked j hj).1

theorem run_onCourse {strategy : Strategy} {handlers : Handlers} {options : Watch.Options}
    {disk : Disk} (hnew : Watch.new strategy handlers options disk = .ok w)
    (hrun : (setting behaviour).run? moves (Running.ofWatch w) = some p) :
    OnCourse strategy.target (log behaviour moves (Running.ofWatch w)) p := by
  have hbegin : OnCourse strategy.target [] (Running.ofWatch w) := by
    have hfresh := fresh_of_new hnew
    refine ⟨?_, fun j hj => absurd hj List.not_mem_nil, ?_⟩
    · show Regrown strategy.target w.strategy.target
      rw [hfresh.strategy_eq]
      exact .refl _
    · show ∀ j ∈ w.executor.parked, j = .run
      rw [hfresh.parked_eq]
      exact fun j hj => absurd hj List.not_mem_nil
  exact Setting.preserved_log (I := OnCourse strategy.target)
    (fun _ _ _ _ hp hmove => move_onCourse hp hmove) hbegin hrun

/-! ### What is refused and what is accepted -/

/-- What is seen of a job that ends in a refusal: nothing more but the end of the
registration. -/
theorem behind_refused {dir dir' : Path} {e e' : WatchError} {first before behind : List Seen}
    (h : first ++ [.refused dir' e', .registered (some e')] = before ++ .refused dir e :: behind)
    (hfirst : ∀ x ∈ first, x.isGlimpse = false) : e' = e ∧ Unanswered behind := by
  induction first generalizing before with
  | nil =>
    cases before with
    | nil =>
      obtain ⟨hrefused, rfl⟩ := List.cons.inj h
      exact ⟨(Seen.refused.inj hrefused).2, by simp [Unanswered, Seen.isAnswer]⟩
    | cons y before =>
      obtain ⟨-, hrest⟩ := List.cons.inj h
      obtain ⟨-, heq, -⟩ := Setting.eq_of_singleton hrest
      exact absurd heq (by simp)
  | cons y first ih =>
    cases before with
    | nil =>
      obtain ⟨rfl, -⟩ := List.cons.inj h
      exact absurd (hfirst _ List.mem_cons_self) (by simp [Seen.isGlimpse])
    | cons z before =>
      obtain ⟨-, hrest⟩ := List.cons.inj h
      exact ih hrest fun x hx => hfirst x (List.mem_cons_of_mem _ hx)

/-- A glimpse is seen of nothing but a registration. -/
theorem LifecycleEffect.origin {x : Seen} (h : LifecycleEffect w job told d) (hmem : x ∈ told)
    (hx : x.isGlimpse = true) : (∃ caller, job = .registerRoot caller) ∨
      ∃ caller agenda registered, job = .walk (.start caller) agenda registered := by
  cases h with
  | registers => exact Or.inl ⟨_, rfl⟩
  | walks => exact Or.inr ⟨_, _, _, rfl⟩
  | closes step =>
    split at hmem
    · rw [List.mem_singleton.mp hmem] at hx
      exact absurd hx (by simp [Seen.isGlimpse])
    · exact absurd hmem List.not_mem_nil
  | isAside =>
    split at hmem
    · rw [List.mem_singleton.mp hmem] at hx
      exact absurd hx (by simp [Seen.isGlimpse])
    · exact absurd hmem List.not_mem_nil
  | comesLate => exact absurd hmem List.not_mem_nil
  | comesInTime => exact absurd hmem List.not_mem_nil
  | _ =>
    rw [List.mem_singleton.mp hmem] at hx
    exact absurd hx (by simp [Seen.isGlimpse])

/-- A call that succeeds has had no error to return. -/
theorem LifecycleEffect.answers_none (h : LifecycleEffect w job told d)
    (hmem : .answered none ∈ told) :
    ∃ caller, job = .started caller none := by
  cases h with
  | answers caller error =>
    obtain rfl : error = none := (Seen.answered.inj (List.mem_singleton.mp hmem)).symm
    exact ⟨caller, rfl⟩
  | registers hsame hglimpses hregistration =>
    have hnone := not_mem_glimpses (x := .answered none) rfl hglimpses
    cases hregistration <;> exact absurd hmem (by simp [hnone])
  | walks hsame hglimpses hregistration =>
    have hnone := not_mem_glimpses (x := .answered none) rfl hglimpses
    cases hregistration <;> exact absurd hmem (by simp [hnone])
  | closes step => split at hmem <;> exact absurd hmem (by simp)
  | isAside => split at hmem <;> exact absurd hmem (by simp)
  | _ => exact absurd hmem (by simp)

/-- What a directory that is registered in the course of a start comes to: it is known
to the service and kept as a node, or the call fails. -/
inductive Enlists (w : Watch) (told : List Seen) (d : Done Watch Job) : Prop
  | accepted (dir : Path) (depth : Nat) (key : Key) :
      (∀ x ∈ told, x.isGlimpse = true → x = .enrolled dir depth key) →
      d.state.ground.service.keyOf? dir = some key →
      (∀ t, d.state.strategy.target = .tree t → t.node? key = some ⟨dir, depth⟩) →
        Enlists w told d
  | refused (dir : Path) (e : WatchError) (caller : Caller) (first : List Seen) :
      told = first ++ [.refused dir e, .registered (some e)] →
      (∀ x ∈ first, x.isGlimpse = false) → d.next = startFailed caller e → Enlists w told d
  /-- Nothing is registered. -/
  | looks (start : Path) (footing : DirTree.Footing) :
      (∀ x ∈ told, x.isGlimpse = true → x = .looked start footing) → Enlists w told d

theorem enlists_registerRoot (caller : Caller) :
    Enlists w (seen (.registerRoot caller) w) (w.registerRoot caller) := by
  unfold registerRoot
  simp only [seen]
  cases hnow : w.strategy.target with
  | tree t => exact .looks .here .directory (by simp [Seen.isGlimpse])
  | file t =>
    have hknown := fun key =>
      @Service.register_known w.ground.service w.ground.disk t.parent w.kinds key
    have hregister : t.register w.ground w.kinds =
        ((w.ground.service.register w.ground.disk t.parent w.kinds).1,
          ⟨(w.ground.service.register w.ground.disk t.parent w.kinds).2.1,
            (w.ground.service.register w.ground.disk t.parent w.kinds).2.2⟩) := rfl
    dsimp only
    rw [hregister]
    cases hr : (w.ground.service.register w.ground.disk t.parent w.kinds).1 with
    | ok key =>
      refine .accepted t.parent 0 key ?_ (hknown key hr) ?_
      · simp [enlisted, Seen.isGlimpse]
      · intro t' ht'
        exact absurd (hnow.symm.trans ht') (by simp)
    | error e =>
      exact .refused t.parent e caller [.registering] rfl (by simp [Seen.isGlimpse]) rfl

theorem enlists_walkOn (caller : Caller) (errand : DirTree.Errand) (rest : List DirTree.Errand)
    (registered : List Path) (t : DirTree) :
    Enlists w (glimpsed w errand ++
        (DirTree.advance w.kinds errand (.start w.ground t)).2.failure.toList.map
          fun e => .registered (some e))
      (w.walkOn (.start caller) errand rest registered t) := by
  -- looking and listing register nothing and never fail
  cases errand with
  | look start depth =>
    have hnone : (DirTree.advance w.kinds (.look start depth) (.start w.ground t)).2.failure =
        none := by
      simp only [DirTree.advance]
      split
      · rfl
      · split <;> rfl
    rw [hnone]
    exact .looks start (DirTree.footing w.ground.disk start) (by simp [glimpsed])
  | list dir depth =>
    have hnone : (DirTree.advance w.kinds (.list dir depth) (.start w.ground t)).2.failure =
        none := by
      simp only [DirTree.advance]
      split <;> rfl
    rw [hnone]
    exact .looks dir .directory (by simp [glimpsed])
  | enter dir depth =>
    -- entering a directory fails, or registers it and keeps the node
    have hknown := fun key =>
      @Service.register_known w.ground.service w.ground.disk dir w.kinds key
    have hregister : Site.register dir w.kinds w.ground =
        ((w.ground.service.register w.ground.disk dir w.kinds).1,
          ⟨(w.ground.service.register w.ground.disk dir w.kinds).2.1,
            (w.ground.service.register w.ground.disk dir w.kinds).2.2⟩) := rfl
    unfold walkOn
    simp only [DirTree.advance, DirTree.enter, DirTree.Walk.start, glimpsed, hregister]
    cases hr : (w.ground.service.register w.ground.disk dir w.kinds).1 with
    | error e => exact .refused dir e caller [] rfl (by simp) rfl
    | ok key =>
      have hnode : ∀ tree, Target.tree (t.setNode key ⟨dir, depth⟩) = .tree tree →
          tree.node? key = some ⟨dir, depth⟩ := by
        rintro tree heq
        obtain rfl := Target.tree.inj heq
        rw [DirTree.node?_setNode, if_pos rfl]
      have hcell : ∀ x ∈ [enlisted dir depth (.ok key)] ++
          ([] : List WatchError).map (fun e => Seen.registered (some e)), x.isGlimpse = true →
          x = .enrolled dir depth key := by
        intro x hx _
        exact List.mem_singleton.mp hx
      -- whether the walk goes on below it makes no difference to what is seen
      by_cases hdeep : (t.setNode key ⟨dir, depth⟩).maxDepth ≤ depth
      · simp only [hdeep, if_true]
        exact .accepted dir depth key hcell (hknown key hr) hnode
      · by_cases hopened : (Site.disk w.ground).isDir dir = true
        · simp only [hdeep, hopened, if_false, if_true]
          exact .accepted dir depth key hcell (hknown key hr) hnode
        · simp only [hdeep, hopened, if_false]
          exact .accepted dir depth key hcell (hknown key hr) hnode

/-- Whatever is glimpsed is glimpsed of a directory that is registered or looked at. -/
theorem perform_enlists {x : Seen} (hd : perform behaviour job w = some d)
    (hmem : x ∈ seen job w) (hx : x.isGlimpse = true) : Enlists w (seen job w) d := by
  rcases (perform_lifecycleEffect hd).origin hmem hx with
    ⟨caller, rfl⟩ | ⟨caller, agenda, registered, rfl⟩
  · obtain rfl := Option.some.inj hd
    exact enlists_registerRoot caller
  · cases agenda with
    | nil =>
      rw [List.mem_singleton.mp hmem] at hx
      exact absurd hx (by simp [Seen.isGlimpse])
    | cons errand rest =>
      cases hnow : w.strategy.target with
      | file t =>
        simp only [seen, hnow] at hmem
        rw [List.mem_singleton.mp hmem] at hx
        exact absurd hx (by simp [Seen.isGlimpse])
      | tree t =>
        simp only [perform, hnow] at hd
        obtain rfl := Option.some.inj hd
        simp only [seen, hnow]
        exact enlists_walkOn caller errand rest registered t

/-- A call of `start` that succeeds has secured the base; one for which a directory is
refused returns that error and stops the watch; and a directory that was accepted is
registered with the service, and a node of the tree at its depth. -/
theorem start_secures_base {strategy : Strategy} {handlers : Handlers} {options : Watch.Options}
    {disk : Disk} (hnew : Watch.new strategy handlers options disk = .ok w)
    (hrun : (setting behaviour).run? moves (Running.ofWatch w) = some p) :
    (∀ front i back,
      log behaviour moves (Running.ofWatch w) = front ++ (i, .answered none) :: back →
        Secured strategy.target (front.map (·.2))) ∧
    (∀ front i dir e back,
      log behaviour moves (Running.ofWatch w) = front ++ (i, .refused dir e) :: back →
        Unanswered (onThread i back) ∨
          AnsweredWith e (onThread i back) ∧ p.state.stopped = true) ∧
    ∀ front i dir depth key back,
      log behaviour moves (Running.ofWatch w) = front ++ (i, .enrolled dir depth key) :: back →
        ∃ earlier later r r', (setting behaviour).run? earlier (Running.ofWatch w) = some r ∧
          (setting behaviour).move (.job i) r = some r' ∧
          (setting behaviour).run? later r' = some p ∧
          r'.state.ground.service.keyOf? dir = some key ∧
          ∀ t, r'.state.strategy.target = .tree t → t.node? key = some ⟨dir, depth⟩ := by
  refine ⟨?_, ?_, ?_⟩
  · -- an answer without an error stands at the end of a course that secured the base
    intro front i back hlog
    obtain ⟨m⟩ := moment_of_log hrun hlog
    obtain ⟨caller, hjob⟩ : ∃ caller, m.job = .started caller none :=
      m.lifecycleEffect.answers_none m.mem_seen
    have hcourse := (run_onCourse hnew m.run_earlier).jobs m.job m.job_mem
    rw [hjob] at hcourse
    rw [m.front_eq, List.map_append]
    exact Secured.mono hcourse fun x hx => List.mem_append_left _ hx
  · -- of the three ways to enlist a directory only the refusal is seen as one
    intro front i dir e back hlog
    obtain ⟨m⟩ := moment_of_log hrun hlog
    cases perform_enlists m.performed m.mem_seen rfl with
    | accepted dir' depth key honly => exact absurd (honly _ m.mem_seen rfl) (by simp)
    | looks start footing honly => exact absurd (honly _ m.mem_seen rfl) (by simp)
    | refused dir' e' caller first htold hfirst hnext =>
      obtain ⟨rfl, hbehind⟩ := behind_refused (htold.symm.trans m.seen_eq) hfirst
      exact m.fails hnext hbehind
  · -- the step that enlisted the directory is the move from `m.here` to `m.after`
    intro front i dir depth key back hlog
    obtain ⟨m⟩ := moment_of_log hrun hlog
    cases perform_enlists m.performed m.mem_seen rfl with
    | looks start footing honly => exact absurd (honly _ m.mem_seen rfl) (by simp)
    | refused dir' e' caller first htold hfirst hnext =>
      have hmem := m.mem_seen
      rw [htold] at hmem
      rcases List.mem_append.mp hmem with hmem | hmem
      · exact absurd (hfirst _ hmem) (by simp [Seen.isGlimpse])
      · exact absurd hmem (by simp)
    | accepted dir' depth' key' honly hknown hnode =>
      obtain ⟨rfl, rfl, rfl⟩ := Seen.enrolled.inj (honly _ m.mem_seen rfl)
      refine ⟨m.earlier, m.later, m.here, m.after, m.run_earlier, m.move, m.run_later, ?_, ?_⟩
      · rw [m.state]
        exact hknown
      · rw [m.state]
        exact hnode

/-- A start of a tree whose root is there secures it: the root is accepted, and known to
the service under its key. -/
theorem root_of_tree_is_secured : ∃ w p moves,
    Watch.new ⟨.tree ⟨.here, 1, []⟩, .none⟩ ⟨some ⟨0⟩, none, none, none⟩
      ⟨.zero, .default, none, none, some (.memory (.new .none))⟩ .empty = .ok w ∧
    (setting fun _ _ _ => .none).run? moves (Running.ofWatch w) = some p ∧
    Secured (.tree ⟨.here, 1, []⟩)
      ((log (fun _ _ _ => .none) moves (Running.ofWatch w)).dropLast.map (·.2)) ∧
    ∃ later r, (setting fun _ _ _ => .none).run? later r = some p ∧
      r.state.ground.service.keyOf? .here = some ⟨0⟩ := by
  let moves : List (Move Outside) := .outside .start :: List.replicate 9 (.job 0)
  have hrun : ∃ w p,
      Watch.new ⟨.tree ⟨.here, 1, []⟩, .none⟩ ⟨some ⟨0⟩, none, none, none⟩
        ⟨.zero, .default, none, none, some (.memory (.new .none))⟩ .empty = .ok w ∧
      (setting fun _ _ _ => .none).run? moves (Running.ofWatch w) = some p ∧
      log (fun _ _ _ => .none) moves (Running.ofWatch w) =
        [(0, .called), (0, .registering), (0, .looked .here .directory),
          (0, .enrolled .here 0 ⟨0⟩), (0, .registered none), (0, .submitted none),
          (0, .answered none)] :=
    ⟨_, _, rfl, rfl, rfl⟩
  obtain ⟨w, p, hnew, hrun, hlog⟩ := hrun
  obtain ⟨hsecured, -, hknown⟩ := start_secures_base hnew hrun
  refine ⟨w, p, moves, hnew, hrun, ?_, ?_⟩
  · rw [hlog]
    exact hsecured [(0, .called), (0, .registering), (0, .looked .here .directory),
      (0, .enrolled .here 0 ⟨0⟩), (0, .registered none), (0, .submitted none)] 0 [] hlog
  · obtain ⟨-, later, -, r, -, -, hlater, hkey, -⟩ := hknown
      [(0, .called), (0, .registering), (0, .looked .here .directory)] 0 .here 0 ⟨0⟩
      [(0, .registered none), (0, .submitted none), (0, .answered none)] hlog
    exact ⟨later, r, hlater, hkey⟩

/-- A tree whose root was removed after it was made ready is started all the same: the
call succeeds, the watch is running, and no directory is registered. -/
theorem removed_root_is_started : ∃ tree w p moves,
    DirTree.prepare (Disk.empty.put [[119]] .dir) (Location.toPath [[119]]) 1 =
      (.ok tree, Disk.empty.put [[119]] .dir) ∧
    Watch.new ⟨.tree tree, .none⟩ ⟨some ⟨0⟩, none, none, none⟩
      ⟨.zero, .default, none, none, some (.memory (.new .none))⟩ (Disk.empty.put [[119]] .dir) =
      .ok w ∧
    (setting fun _ _ _ => .none).run? moves (Running.ofWatch w) = some p ∧
    (0, .answered none) ∈ log (fun _ _ _ => .none) moves (Running.ofWatch w) ∧
    p.state.isRunning = true ∧
    ∀ i dir depth key,
      (i, .enrolled dir depth key) ∉ log (fun _ _ _ => .none) moves (Running.ofWatch w) := by
  let moves : List (Move Outside) :=
    [.outside (.ground ⟨.memory (.new .none), .empty⟩), .outside .start] ++
      List.replicate 7 (.job 0)
  have hrun : ∃ tree w p,
      DirTree.prepare (Disk.empty.put [[119]] .dir) (Location.toPath [[119]]) 1 =
        (.ok tree, Disk.empty.put [[119]] .dir) ∧
      Watch.new ⟨.tree tree, .none⟩ ⟨some ⟨0⟩, none, none, none⟩
        ⟨.zero, .default, none, none, some (.memory (.new .none))⟩ (Disk.empty.put [[119]] .dir) =
        .ok w ∧
      (setting fun _ _ _ => .none).run? moves (Running.ofWatch w) = some p ∧
      log (fun _ _ _ => .none) moves (Running.ofWatch w) =
        [(0, .called), (0, .registering), (0, .looked (Location.toPath [[119]]) .unreadable),
          (0, .registered none), (0, .submitted none), (0, .answered none)] ∧
      p.state.isRunning = true :=
    ⟨_, _, _, rfl, rfl, rfl, rfl, rfl⟩
  obtain ⟨tree, w, p, hprepare, hnew, hrun, hlog, hrunning⟩ := hrun
  refine ⟨tree, w, p, moves, hprepare, hnew, hrun, ?_, hrunning, ?_⟩
  · rw [hlog]
    simp
  · intro i dir depth key
    rw [hlog]
    simp

end ChangeWatch.Lifecycle
