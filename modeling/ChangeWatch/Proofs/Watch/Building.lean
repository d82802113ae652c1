import ChangeWatch.Proofs.Strategy.FileTarget
import ChangeWatch.Watch.Builder
import Mathlib.Data.List.Induction

/-!
# What choices come to

Every choice of a builder is made by calls, and the last call that makes it counts
(`apply_last`): one for the delay, one for the backend, and one for the callback of each kind.
So a delay of zero is a mistake only where it was asked for last, and settings given last never
are one.

A build looks for mistakes first.  There are three: no callback, a delay of zero, and a file
without a name; and a build is refused as misconfigured for these alone.  The target is prepared
after that, so a build that is refused as misconfigured, or because something else is in place of
the target, leaves the disk as it is (`build_checks_choices_first`).
-/

namespace ChangeWatch.Builder

/-! ### The last choice -/

namespace Call

/-- A call that chooses the delay. -/
def setsDelay : Call → Bool
  | .delay _ | .withoutDebounce | .withSettings _ => true
  | _ => false

/-- A call that chooses the options of the backend. -/
def setsBackend : Call → Bool
  | .backend _ | .withSettings _ => true
  | _ => false

/-- A call that chooses the callback of a kind. -/
def setsCallback (kind : EventKind) : Call → Bool
  | .on k _ => k = kind
  | _ => false

/-- What a call makes of the delay, if it chooses it. -/
def delayChoice : Call → DelayChoice
  | .delay d => .custom d
  | .withSettings s => delayOf s
  | _ => .disabled

def backendChoice : Call → BackendOptions
  | .backend options => options
  | .withSettings s => s.backendOptions
  | _ => .default

def callbackChoice : Call → Option Callback
  | .on _ callback => some callback
  | _ => none

end Call

/-- The last of some calls of a sort. -/
def lastOf (sort : Call → Bool) (calls : List Call) : Option Call :=
  (calls.filter sort).getLast?

/-- The delay that the last choice of one comes to. -/
def chosenDelay (calls : List Call) : Duration :=
  match lastOf Call.setsDelay calls with
  | none => .ofMillis 200
  | some (.delay d) => d
  | some (.withSettings s) => s.delay
  | some _ => .zero

/-- The options that were chosen last for the backend. -/
def chosenBackend (calls : List Call) : BackendOptions :=
  match lastOf Call.setsBackend calls with
  | some (.backend options) => options
  | some (.withSettings s) => s.backendOptions
  | _ => .default

/-- The callback that was chosen last for a kind. -/
def chosenCallback (kind : EventKind) (calls : List Call) : Option Callback :=
  match lastOf (Call.setsCallback kind) calls with
  | some (.on _ callback) => some callback
  | _ => none

variable {subject : Subject} {calls : List Call} {disk made : Disk} {b : Builder}

theorem lastOf_concat (sort : Call → Bool) (calls : List Call) (call : Call) :
    lastOf sort (calls ++ [call]) = if sort call then some call else lastOf sort calls := by
  unfold lastOf
  rw [List.filter_append]
  split
  · next h => rw [List.filter_singleton, h, Bool.cond_true, List.getLast?_concat]
  · next h =>
    rw [List.filter_singleton, Bool.eq_false_iff.mpr h, Bool.cond_false, List.append_nil]

theorem mem_of_lastOf {sort : Call → Bool} {call : Call} (h : lastOf sort calls = some call) :
    call ∈ calls ∧ sort call = true :=
  List.mem_filter.mp (List.mem_of_getLast? h)

/-- What calls of a sort choose is what the last of them chooses. -/
theorem apply_last {α : Type} (field : Builder → α) (sort : Call → Bool) (choice : Call → α)
    (h : ∀ b call, field (apply b call) = if sort call then choice call else field b)
    (b : Builder) (calls : List Call) :
    field (b.applyAll calls) = ((lastOf sort calls).map choice).getD (field b) := by
  induction calls using List.reverseRecOn with
  | nil => rfl
  | append_singleton calls call ih =>
    have hlast : b.applyAll (calls ++ [call]) = apply (b.applyAll calls) call := by
      unfold applyAll
      rw [List.foldl_append]
      rfl
    rw [hlast, h, lastOf_concat]
    split
    · rfl
    · exact ih

/-- The delay of a builder comes to a mistake if zero was asked for last, and else to the delay
chosen. -/
theorem resolveDelay_applyAll (subject : Subject) (calls : List Call) :
    resolveDelay ((new subject).applyAll calls).delay =
      if lastOf Call.setsDelay calls = some (.delay .zero) then .error .zeroDelay
      else .ok (chosenDelay calls) := by
  have hdelay := apply_last Builder.delay Call.setsDelay Call.delayChoice
    (fun b call => by cases call <;> rfl) (new subject) calls
  rw [hdelay]
  unfold chosenDelay
  cases hlast : lastOf Call.setsDelay calls with
  | none => rfl
  | some call =>
    cases call with
    | delay d =>
      have hzero : (some (Call.delay d) = some (.delay .zero)) ↔ d.isZero = true := by
        unfold Duration.isZero Duration.zero
        rw [decide_eq_true_iff]
        cases d
        simp
      show (if d.isZero then Except.error WatchError.zeroDelay else Except.ok d) = _
      simp only [hzero]
    | withSettings s =>
      rw [if_neg (by simp)]
      show resolveDelay (delayOf s) = .ok s.delay
      unfold delayOf
      split
      · next hzero =>
        -- no milliseconds are no time
        unfold Settings.delay Duration.ofMillis
        rw [hzero, Nat.zero_mul]
        rfl
      · next hsome =>
        refine if_neg ?_
        unfold Settings.delay Duration.ofMillis Duration.isZero
        rw [decide_eq_true_iff]
        exact Nat.mul_ne_zero hsome (by decide)
    | withoutDebounce => rfl
    | _ => exact absurd (mem_of_lastOf hlast).2 (by simp [Call.setsDelay])

theorem backend_applyAll (subject : Subject) (calls : List Call) :
    ((new subject).applyAll calls).backend = chosenBackend calls := by
  have hbackend := apply_last Builder.backend Call.setsBackend Call.backendChoice
    (fun b call => by cases call <;> rfl) (new subject) calls
  rw [hbackend]
  unfold chosenBackend
  cases lastOf Call.setsBackend calls with
  | none => rfl
  | some call => cases call <;> rfl

theorem callback_applyAll (subject : Subject) (calls : List Call) (kind : EventKind) :
    ((new subject).applyAll calls).handlers.get kind = chosenCallback kind calls := by
  have hcallback := apply_last (fun b => b.handlers.get kind) (Call.setsCallback kind)
    Call.callbackChoice
    (fun b call => by
      cases call with
      | on k callback =>
        refine (b.handlers.get_set k kind callback).trans ?_
        simp [Call.setsCallback, Call.callbackChoice, eq_comm]
      | _ => rfl) (new subject) calls
  rw [hcallback]
  unfold chosenCallback
  cases lastOf (Call.setsCallback kind) calls with
  | none => cases kind <;> rfl
  | some call => cases call <;> rfl

theorem subject_applyAll (b : Builder) (calls : List Call) :
    (b.applyAll calls).subject = b.subject := by
  induction calls generalizing b with
  | nil => rfl
  | cons call rest ih => exact (ih (apply b call)).trans (by cases call <;> rfl)

/-- There is no callback if none was set. -/
theorem isEmpty_applyAll (subject : Subject) (calls : List Call) :
    ((new subject).applyAll calls).handlers.isEmpty = true ↔
      ∀ kind callback, Call.on kind callback ∉ calls := by
  unfold Handlers.isEmpty Handlers.kinds
  rw [List.isEmpty_iff, List.filter_eq_nil_iff]
  simp only [callback_applyAll, Option.isSome_iff_exists, not_exists]
  constructor
  · intro hnone kind callback hmem
    have hsort : Call.on kind callback ∈ calls.filter (Call.setsCallback kind) :=
      List.mem_filter.mpr ⟨hmem, by simp [Call.setsCallback]⟩
    obtain ⟨last, hlast⟩ :=
      Option.isSome_iff_exists.mp (List.getLast?_isSome.mpr (List.ne_nil_of_mem hsort))
    have hkind := (mem_of_lastOf hlast).2
    cases last with
    | on k c =>
      refine hnone kind (EventKind.mem_all kind) c ?_
      unfold chosenCallback lastOf
      rw [hlast]
    | _ => exact absurd hkind (by simp [Call.setsCallback])
  · intro hnone kind _ callback hchosen
    unfold chosenCallback at hchosen
    split at hchosen
    · next hlast => exact hnone _ _ (mem_of_lastOf hlast).1
    · exact absurd hchosen (by simp)

/-! ### What a build may come to -/

/-- The mistakes that a build looks for. -/
def Mistaken (subject : Subject) (calls : List Call) : Prop :=
  (∀ kind callback, Call.on kind callback ∉ calls) ∨
    lastOf Call.setsDelay calls = some (.delay .zero) ∨
    ∃ p, subject = .file p ∧ p.fileName = none

/-- What the calls have chosen for a watch that is built. -/
structure Chosen (calls : List Call) (w : Watch) : Prop where
  delay : w.delay = chosenDelay calls
  backend : w.backend = chosenBackend calls
  callbacks : ∀ kind, w.handlers.get kind = chosenCallback kind calls

/-- What a build comes to, and the disk after it. -/
inductive Built (subject : Subject) (calls : List Call) (disk : Disk) :
    Except WatchError Watch × Disk → Prop
  | unheard : (∀ kind callback, Call.on kind callback ∉ calls) →
      Built subject calls disk (.error .noCallback, disk)
  | unrestrained : lastOf Call.setsDelay calls = some (.delay .zero) →
      Built subject calls disk (.error .zeroDelay, disk)
  /-- The choices are sound, but there is nothing to watch. -/
  | unprepared {e : WatchError} {made : Disk} :
      (∃ kind callback, Call.on kind callback ∈ calls) →
      lastOf Call.setsDelay calls ≠ some (.delay .zero) →
      prepare disk subject = (.error e, made) → Built subject calls disk (.error e, made)
  | watch {target : Target} {made : Disk} {w : Watch} :
      (∃ kind callback, Call.on kind callback ∈ calls) →
      lastOf Call.setsDelay calls ≠ some (.delay .zero) →
      prepare disk subject = (.ok target, made) → w.strategy.target = target → Chosen calls w →
      w.isRunning = false → Built subject calls disk (.ok w, made)

theorem built (subject : Subject) (calls : List Call) (disk : Disk) :
    Built subject calls disk (((new subject).applyAll calls).build disk) := by
  have hempty := isEmpty_applyAll subject calls
  have hdelay := resolveDelay_applyAll subject calls
  have hsubject : ((new subject).applyAll calls).subject = subject :=
    subject_applyAll (new subject) calls
  have hbackend := backend_applyAll subject calls
  have hcallbacks := callback_applyAll subject calls
  generalize (new subject).applyAll calls = b at hempty hdelay hsubject hbackend hcallbacks ⊢
  -- in the order in which a build asks: callbacks, delay, target
  unfold build
  split
  · next hnone => exact .unheard (hempty.mp hnone)
  · next hsome =>
    have hheard : ∃ kind callback, Call.on kind callback ∈ calls := by
      by_contra hnot
      exact hsome (hempty.mpr fun kind callback hmem => hnot ⟨kind, callback, hmem⟩)
    rw [hdelay]
    split
    · next e hzero =>
      split at hzero
      · next hlast =>
        obtain rfl := Except.error.inj hzero
        exact .unrestrained hlast
      · exact absurd hzero (by simp)
    · next delay hchosen =>
      split at hchosen
      · exact absurd hchosen (by simp)
      · next hlast =>
        obtain rfl := Except.ok.inj hchosen
        rw [hsubject]
        rcases hprepared : prepare disk subject with ⟨answer, made⟩
        cases answer with
        | error e => exact .unprepared hheard hlast hprepared
        | ok target =>
          dsimp only
          unfold Watch.new
          rw [if_neg hsome]
          exact .watch hheard hlast hprepared rfl ⟨rfl, hbackend, hcallbacks⟩ rfl

/-- A target that is not to be had is refused by the disk, or the disk is as it was. -/
theorem prepare_of_error {e : WatchError} (h : prepare disk subject = (.error e, made)) :
    e.errorClass = .io ∨ made = disk ∧ (e.errorClass = .illegalState ∨
      e.errorClass = .config ∧ ∃ p, subject = .file p ∧ p.fileName = none) := by
  unfold prepare at h
  cases subject with
  | file p =>
    dsimp only at h
    rcases hfile : FileTarget.prepare disk p with ⟨target, made'⟩
    rw [hfile] at h
    obtain ⟨herror, rfl⟩ := Prod.mk.inj h
    cases target with
    | ok t => exact absurd herror (by simp [Except.map])
    | error e' =>
      obtain rfl := Except.error.inj herror
      rcases FileTarget.prepare_of_error hfile with
        ⟨hname, rfl, rfl⟩ | ⟨-, ⟨rfl, rfl⟩ | ⟨fault, rfl⟩⟩
      · exact Or.inr ⟨rfl, Or.inr ⟨rfl, p, rfl, hname⟩⟩
      · exact Or.inr ⟨rfl, Or.inl rfl⟩
      · exact Or.inl rfl
  | dir p maxDepth =>
    dsimp only at h
    rcases htree : DirTree.prepare disk p maxDepth with ⟨target, made'⟩
    rw [htree] at h
    obtain ⟨herror, rfl⟩ := Prod.mk.inj h
    cases target with
    | ok t => exact absurd herror (by simp [Except.map])
    | error e' =>
      obtain rfl := Except.error.inj herror
      rcases DirTree.prepare_of_error htree with ⟨rfl, rfl, -⟩ | ⟨fault, rfl⟩
      · exact Or.inr ⟨rfl, Or.inl rfl⟩
      · exact Or.inl rfl

/-- A file without a name is a mistake, whatever is on the disk. -/
theorem prepare_of_nameless {p : Path} (h : p.fileName = none) :
    prepare disk (.file p) = (.error (.namesNoFile p), disk) := by
  unfold prepare FileTarget.prepare
  simp only [h]
  rfl

/-- With a callback set and no delay of zero, the mistake is a file without a name, and there is
nothing to watch. -/
theorem Mistaken.prepare_eq (h : Mistaken subject calls)
    (hheard : ∃ kind callback, Call.on kind callback ∈ calls)
    (hdelay : lastOf Call.setsDelay calls ≠ some (.delay .zero)) (disk : Disk) :
    ∃ p, prepare disk subject = (.error (.namesNoFile p), disk) := by
  rcases h with hnone | hzero | ⟨p, rfl, hname⟩
  · obtain ⟨kind, callback, hmem⟩ := hheard
    exact absurd hmem (hnone kind callback)
  · exact absurd hzero hdelay
  · exact ⟨p, prepare_of_nameless hname⟩

/-- A delay of zero is refused only where it was asked for last. -/
theorem build_ne_zeroDelay (disk : Disk)
    (h : lastOf Call.setsDelay calls ≠ some (.delay .zero)) :
    (((new subject).applyAll calls).build disk).1 ≠ .error .zeroDelay := by
  have hbuilt := built subject calls disk
  generalize ((new subject).applyAll calls).build disk = edit at hbuilt ⊢
  cases hbuilt with
  | unheard => simp
  | unrestrained hzero => exact absurd hzero h
  | unprepared _ _ hprepared =>
    intro heq
    obtain rfl := Except.error.inj heq
    rcases prepare_of_error hprepared with hio | ⟨-, hillegal | ⟨-, p, rfl, hname⟩⟩
    · exact absurd hio (by simp [WatchError.errorClass])
    · exact absurd hillegal (by simp [WatchError.errorClass])
    · rw [prepare_of_nameless hname] at hprepared
      exact absurd (Prod.mk.inj hprepared).1 (by simp)
  | watch => simp

/-! ### How a build ends -/

variable {edit : Except WatchError Watch × Disk}

/-- A build is refused as misconfigured exactly if there is a mistake. -/
theorem Built.config_iff (h : Built subject calls disk edit) :
    (∃ e, edit.1 = .error e ∧ e.errorClass = .config) ↔ Mistaken subject calls := by
  cases h with
  | unheard hnone => exact iff_of_true ⟨_, rfl, rfl⟩ (Or.inl hnone)
  | unrestrained hzero => exact iff_of_true ⟨_, rfl, rfl⟩ (Or.inr (Or.inl hzero))
  | @unprepared e made hheard hdelay hprepared =>
    constructor
    · rintro ⟨e', heq, hclass⟩
      obtain rfl := Except.error.inj heq
      rcases prepare_of_error hprepared with hio | ⟨-, hillegal | ⟨-, hnameless⟩⟩
      · exact absurd (hclass.symm.trans hio) (by simp)
      · exact absurd (hclass.symm.trans hillegal) (by simp)
      · exact Or.inr (Or.inr hnameless)
    · intro hmistaken
      obtain ⟨p, hnameless⟩ := hmistaken.prepare_eq hheard hdelay disk
      obtain rfl := Except.error.inj (Prod.mk.inj (hprepared.symm.trans hnameless)).1
      exact ⟨_, rfl, rfl⟩
  | watch hheard hdelay hprepared =>
    refine iff_of_false ?_ fun hmistaken => ?_
    · rintro ⟨e, heq, -⟩
      exact absurd heq (by simp)
    · obtain ⟨p, hnameless⟩ := hmistaken.prepare_eq hheard hdelay disk
      exact absurd (Prod.mk.inj (hprepared.symm.trans hnameless)).1 (by simp)

/-- A build that is refused for another reason than the disk's leaves the disk as it is. -/
theorem Built.disk_eq (h : Built subject calls disk edit) {e : WatchError}
    (herror : edit.1 = .error e) (hclass : e.errorClass = .config ∨ e.errorClass = .illegalState) :
    edit.2 = disk := by
  cases h with
  | unheard => rfl
  | unrestrained => rfl
  | unprepared _ _ hprepared =>
    obtain rfl := Except.error.inj herror
    rcases prepare_of_error hprepared with hio | ⟨rfl, -⟩
    · rw [hio] at hclass
      exact absurd hclass (by simp)
    · rfl
  | watch => exact absurd herror (by simp)

/-- Without a mistake the target is prepared, and a build is refused exactly if that is. -/
theorem Built.prepares (h : Built subject calls disk edit) (hsound : ¬Mistaken subject calls) :
    edit.2 = (prepare disk subject).2 ∧
      ∀ e, edit.1 = .error e ↔ (prepare disk subject).1 = .error e := by
  cases h with
  | unheard hnone => exact absurd (Or.inl hnone) hsound
  | unrestrained hzero => exact absurd (Or.inr (Or.inl hzero)) hsound
  | unprepared _ _ hprepared =>
    rw [hprepared]
    exact ⟨rfl, fun e => by simp⟩
  | watch _ _ hprepared =>
    rw [hprepared]
    exact ⟨rfl, fun e => iff_of_false (by simp) (by simp)⟩

/-- A watch that is built is one of the target prepared, as it was chosen, and does not run. -/
theorem Built.watch_of_ok (h : Built subject calls disk edit) {w : Watch} (hok : edit.1 = .ok w) :
    (prepare disk subject).1 = .ok w.strategy.target ∧ Chosen calls w ∧ w.isRunning = false := by
  cases h with
  | unheard => exact absurd hok (by simp)
  | unrestrained => exact absurd hok (by simp)
  | unprepared => exact absurd hok (by simp)
  | watch _ _ hprepared htarget hchosen hrunning =>
    obtain rfl := Except.ok.inj hok
    rw [hprepared, htarget]
    exact ⟨rfl, hchosen, hrunning⟩

/-- Whatever is to be watched, whatever calls are made and whatever is on the disk: a build is
refused as misconfigured exactly if there is a mistake in the choices.  A build that is refused as
misconfigured, or because of what is in place of the target, leaves the disk as it is; without a
mistake a build does to the disk what preparing the target does, and is refused exactly if that
is.  A watch that is built is one of the target prepared, has what was chosen last, and is not
running.  Settings given last make no mistake of the delay. -/
theorem build_checks_choices_first (subject : Subject) (calls : List Call) (disk : Disk) :
    let built := ((new subject).applyAll calls).build disk
    ((∃ e, built.1 = .error e ∧ e.errorClass = .config) ↔ Mistaken subject calls) ∧
    (∀ e, built.1 = .error e → e.errorClass = .config ∨ e.errorClass = .illegalState →
      built.2 = disk) ∧
    (¬Mistaken subject calls → built.2 = (prepare disk subject).2 ∧
      ∀ e, built.1 = .error e ↔ (prepare disk subject).1 = .error e) ∧
    (∀ w, built.1 = .ok w → (prepare disk subject).1 = .ok w.strategy.target ∧ Chosen calls w ∧
      w.isRunning = false) ∧
    ∀ s, (((new subject).applyAll (calls ++ [.withSettings s])).build disk).1 ≠
      .error .zeroDelay := by
  intro built
  have hbuilt : Built subject calls disk built := Builder.built subject calls disk
  refine ⟨hbuilt.config_iff, fun e => hbuilt.disk_eq, hbuilt.prepares, fun w => hbuilt.watch_of_ok,
    fun s => ?_⟩
  -- settings given last are the last choice of a delay, and are none of zero
  refine build_ne_zeroDelay disk ?_
  rw [lastOf_concat, if_pos (by rfl)]
  simp

/-- A delay of zero that was asked for is made good by settings, and the later of two callbacks
counts; asked for once more, it is a mistake, and no directory is made. -/
theorem last_choices_count :
    let subject := Subject.dir (.ofString "w") 1
    let calls : List Call := [.delay .zero, .on .create ⟨1⟩,
      .withSettings { Settings.default with delayMs := 0 }, .on .create ⟨2⟩]
    let built := ((new subject).applyAll calls).build .empty
    let mistaken := ((new subject).applyAll (calls ++ [.delay .zero])).build .empty
    built.2 = Disk.empty.put [[119]] .dir ∧
    (∃ w, built.1 = .ok w ∧ w.delay = .zero ∧ w.handlers.get .create = some ⟨2⟩ ∧
      w.isRunning = false) ∧
    (∃ e, mistaken.1 = .error e ∧ e.errorClass = .config) ∧ mistaken.2 = .empty := by
  intro subject calls built mistaken
  have hsound : ¬Mistaken subject calls := by
    rintro (hnone | hzero | ⟨p, hfile, -⟩)
    · exact hnone .create ⟨1⟩ (by decide)
    · exact absurd hzero (by decide)
    · exact absurd hfile (by simp [subject])
  have hmistaken : Mistaken subject (calls ++ [.delay .zero]) := Or.inr (Or.inl (by decide))
  obtain ⟨-, -, hprepares, hwatch, -⟩ := build_checks_choices_first subject calls .empty
  obtain ⟨hconfig, hleft, -⟩ :=
    build_checks_choices_first subject (calls ++ [.delay .zero]) .empty
  obtain ⟨hdisk, herror⟩ := hprepares hsound
  obtain ⟨e, hrefused, hclass⟩ := hconfig.mpr hmistaken
  refine ⟨hdisk.trans (by decide +kernel), ?_, ⟨e, hrefused, hclass⟩,
    hleft e hrefused (Or.inl hclass)⟩
  have hprepared : ∀ e, (prepare .empty subject).1 ≠ .error e := by
    intro e heq
    have hok : (prepare .empty subject).1.isOk = true := by decide +kernel
    rw [heq] at hok
    exact absurd hok (by simp [Except.isOk, Except.toBool])
  cases hanswer : built.1 with
  | error e => exact absurd ((herror e).mp hanswer) (hprepared e)
  | ok w =>
    obtain ⟨-, hchosen, hrunning⟩ := hwatch w hanswer
    exact ⟨w, rfl, hchosen.delay.trans (by decide), (hchosen.callbacks .create).trans (by decide),
      hrunning⟩

end ChangeWatch.Builder
