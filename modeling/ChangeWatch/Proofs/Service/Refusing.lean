import ChangeWatch.Proofs.Service.Translating

/-!
# What a refused registration leaves behind

A registration is written down before the backend is asked.  When the backend refuses a
directory that had none, it is struck out again, and the registry is what it was but for the
counter (`erase_insert`).  When it refuses a directory that is registered, the new entry
stays: the directory keeps its key, but is registered for the kinds of the call that failed
(`Refused.registrations`).

So whatever is reported after a refusal is told as it would have been before it, exactly if
the directory was not registered, or was registered for the same kinds already
(`refused_directory_is_heard_by_the_new_kinds`); and this may fail
(`refused_directory_is_heard_no_more`).  All this holds in whatever state a service is found,
also between two steps of closing it (`Reachable`).
-/

namespace ChangeWatch

/-- A report that says this of a path. -/
def EventKind.reported (kind : EventKind) (path : Path) : Report :=
  let said : ReportKind :=
    match kind with
    | .create => .create
    | .modify => .change
    | .delete => .remove
    | .overflow => .other
  ⟨said, [path], false⟩

namespace Registry

/-! ### Written down and struck out -/

variable {r r' : Registry} {dir : Path} {key : Key} {kinds : List EventKind}

/-- Striking out a registration that was new gives back the registry. -/
theorem erase_insert (hdir : r.registration? dir = none) (hkey : r.dirOf? key = none) :
    ((r.insert dir ⟨key, kinds⟩).eraseDir dir).eraseKey key = r := by
  have hdirs : ∀ entry ∈ r.byDir, entry.1.same dir = false := by
    intro entry hentry
    have hnone := List.find?_eq_none.mp (Option.map_eq_none_iff.mp hdir) entry hentry
    exact Bool.eq_false_iff.mpr hnone
  have hkeys : ∀ entry ∈ r.byKey, entry.1 ≠ key := by
    intro entry hentry heq
    have hnone := List.lookup_eq_none_iff.mp hkey entry hentry
    rw [heq] at hnone
    exact absurd hnone (by simp)
  have hinsert : r.insert dir ⟨key, kinds⟩ =
      ⟨r.byDir ++ [(dir, ⟨key, kinds⟩)], r.byKey ++ [(key, dir)], r.nextKey⟩ := by
    have hset : r.setDir dir ⟨key, kinds⟩ =
        ⟨r.byDir ++ [(dir, ⟨key, kinds⟩)], r.byKey, r.nextKey⟩ := by
      refine if_neg fun hany => ?_
      obtain ⟨entry, hentry, hsame⟩ := List.any_eq_true.mp hany
      exact Bool.false_ne_true ((hdirs entry hentry).symm.trans hsame)
    unfold Registry.insert
    rw [hset]
    refine if_neg fun hany => ?_
    obtain ⟨entry, hentry, hsame⟩ := List.any_eq_true.mp hany
    exact hkeys entry hentry (of_decide_eq_true hsame)
  have hself : dir.same dir = true := decide_eq_true rfl
  rw [hinsert]
  unfold eraseDir eraseKey
  dsimp only
  rw [NotifyingService.filter_append_new (fun entry hentry => by rw [hdirs entry hentry]; rfl)
      (by rw [hself]; rfl),
    NotifyingService.filter_append_new (fun entry hentry => decide_eq_true (hkeys entry hentry))
      (by simp)]

/-- Spellings of one directory have one registration. -/
theorem registration?_congr {p q : Path} (h : p.same q = true) :
    r.registration? p = r.registration? q := by
  unfold registration? Path.same
  rw [Path.same_iff.mp h]

/-- Registries that hold the same entries lead back from a key to spellings of one directory. -/
theorem SameEntries.dirOf? (h : SameEntries r r') (hr : r.Coherent) (hr' : r'.Coherent)
    (key : Key) : (r'.dirOf? key).map Path.components = (r.dirOf? key).map Path.components := by
  refine Option.ext fun c => ?_
  have hleft : (r'.dirOf? key).map Path.components = some c ↔ (key, c) ∈ r'.keyEntries := by
    rw [Option.map_eq_some_iff]
    exact hr'.dirOf?_iff
  have hright : (r.dirOf? key).map Path.components = some c ↔ (key, c) ∈ r.keyEntries := by
    rw [Option.map_eq_some_iff]
    exact hr.dirOf?_iff
  rw [hleft, hright, h.keys]

/-- Registries that hold the same entries know the same directories by the same keys. -/
theorem SameEntries.keyOf? (h : SameEntries r r') (hr : r.Coherent) (hr' : r'.Coherent)
    (dir : Path) : r'.keyOf? dir = r.keyOf? dir := by
  refine Option.ext fun key => ?_
  rw [hr'.keyOf?_iff, hr.keyOf?_iff, h.keys]

/-- Registries that hold the same entries have the same smallest key. -/
theorem SameEntries.firstKey? (h : SameEntries r r') : r'.firstKey? = r.firstKey? := by
  have hkeys : ∀ r : Registry, r.byKey.map (·.1.id) = r.keyEntries.map (·.1.id) := by
    intro r
    rw [keyEntries, List.map_map]
    rfl
  unfold Registry.firstKey?
  rw [hkeys, hkeys, h.keys]

theorem SameEntries.size (h : SameEntries r r') : r'.size = r.size := by
  have hlength : ∀ r : Registry, r.size = r.keyEntries.length := by
    intro r
    rw [keyEntries, List.length_map]
    rfl
  rw [hlength, hlength, h.keys]

/-! ### What shows in reports -/

/-- Reports are told alike by registries with the same keys that place all changes alike. -/
theorem translate_congr (hkeys : ∀ p, r'.keyOf? p = r.keyOf? p)
    (hfirst : r'.firstKey? = r.firstKey?)
    (hlocate : ∀ kind ≠ .overflow, ∀ p, r'.locate (kind, p) = r.locate (kind, p)) (disk : Disk)
    (report : Report) : r'.translate disk report = r.translate disk report := by
  unfold translate rescanKey?
  rw [funext hkeys, hfirst, List.filterMap_congr fun change hchange =>
    hlocate change.1 (report.changes_kind disk change hchange) change.2]

/-- A change of an entry of a registered directory is told if the directory is registered for
its kind, and else nothing is. -/
theorem translate_eq_nil_iff {reg : Registration} (hreg : r.registration? dir = some reg)
    {kind : EventKind} (hkind : kind ≠ .overflow) (disk : Disk) :
    r.translate disk (kind.reported (dir.child [97])) = [] ↔ kind ∉ reg.kinds := by
  have hnormal : Path.Normal [97] := by decide
  have hcomponents := Path.components_child dir hnormal
  have hname := Path.fileName_of_components hcomponents
  obtain ⟨parent, hparent, hparts⟩ := Path.parent_of_fileName hname
  have hsame : parent.components = dir.components := by
    rw [hcomponents] at hparts
    exact (List.append_inj_left' hparts rfl).symm
  have hregistered : r.registration? parent = some reg := by
    rw [registration?_congr (Path.same_iff.mpr hsame)]
    exact hreg
  have hlocate : r.locate (kind, dir.child [97]) =
      if kind ∈ reg.kinds then some (reg.key, ⟨kind, some ⟨[97]⟩⟩) else none := by
    unfold locate
    simp only [hparent, hname, hregistered]
  have htranslate : r.translate disk (kind.reported (dir.child [97])) =
      Batch.group ([(kind, dir.child [97])].filterMap r.locate) := by
    cases kind with
    | overflow => exact absurd rfl hkind
    | create | modify | delete => rfl
  rw [htranslate]
  by_cases hmem : kind ∈ reg.kinds
  · rw [List.filterMap_cons_some (hlocate.trans (if_pos hmem))]
    exact ⟨fun hnil => absurd hnil (List.cons_ne_nil _ _), fun hnot => absurd hmem hnot⟩
  · rw [List.filterMap_cons_none (hlocate.trans (if_neg hmem))]
    exact ⟨fun _ => hmem, fun _ => rfl⟩

end Registry

/-! ### States of a service -/

namespace NotifyingService

/-- The states in which a service can be found, whatever is asked of it while the disk changes,
and however the steps of closing it fall in between. -/
inductive Reachable : NotifyingService → Prop
  | new : Reachable .new
  | register {s : NotifyingService} (disk : Disk) (dir : Path) (kinds : List EventKind) :
      Reachable s → Reachable (s.register disk dir kinds).2
  | reset {s : NotifyingService} (disk : Disk) (key : Key) :
      Reachable s → Reachable (s.reset disk key).2
  | hear {s : NotifyingService} (disk : Disk) (report : Report) :
      Reachable s → Reachable (s.hear disk report)
  | hearFailure {s : NotifyingService} (e : BackendError) :
      Reachable s → Reachable (s.hearFailure e)
  | witness {s : NotifyingService} (disk : Disk) (changes : List Change) :
      Reachable s → Reachable (s.witness disk changes)
  | receive {s s' : NotifyingService} {taken : Taken} :
      Reachable s → s.receive = some (taken, s') → Reachable s'
  | closeStep {s : NotifyingService} (step : CloseStep) :
      Reachable s → Reachable (s.closeStep step).1

variable {s s' : NotifyingService} {disk : Disk} {dir : Path} {kinds : List EventKind}
  {e : WatchError}

/-- The two maps of a service are always inverse to each other. -/
theorem Reachable.coherent (h : Reachable s) : s.registry.Coherent := by
  induction h with
  | new => exact Registry.coherent_empty
  | register disk dir kinds _ ih => exact ((registers ih disk dir kinds).moved ih).coherent ih
  | reset disk key _ ih => exact (reset_moved ih disk key).1.coherent ih
  | @hear s disk report _ ih => rwa [(s.hear_registry disk report).1]
  | @hearFailure s e _ ih => rwa [(s.hearFailure_registry e).1]
  | @witness s disk changes _ ih => rwa [(s.witness_registry disk changes).1]
  | receive _ hreceive ih => rwa [(receive_registry hreceive).1]
  | @closeStep s step _ ih =>
    cases step with
    | forget =>
      have hcleared : Registry.Moved s.registry s.registry.clear := .cleared rfl rfl rfl
      exact hcleared.coherent ih
    | _ => exact ih

/-! ### After a refusal -/

/-- A refused directory was asked of a service that let go of its backend, keeps its key, or
draws one in vain. -/
theorem register_of_error (h : s.registry.Coherent)
    (hanswer : (s.register disk dir kinds).1 = .error e) :
    (s.backend = none ∧ (s.register disk dir kinds).2 = s) ∨
    (s.backend.isSome ∧ ∃ key, s.registry.keyOf? dir = some key ∧
      (s.register disk dir kinds).2 =
        { s with registry := s.registry.insert dir ⟨key, kinds⟩ }) ∨
    (s.backend.isSome ∧ s.registry.keyOf? dir = none ∧
      (s.register disk dir kinds).2 =
        { s with registry := { s.registry with nextKey := s.registry.nextKey + 1 } }) := by
  cases hbackend : s.backend with
  | none => exact Or.inl ⟨rfl, congrArg Prod.snd (s.register_of_released hbackend disk dir kinds)⟩
  | some backend =>
    refine Or.inr ?_
    unfold register at hanswer ⊢
    rw [hbackend] at hanswer ⊢
    dsimp only at hanswer ⊢
    -- the backend refuses, and what is written before that is struck out if the key is new
    cases hwatch : backend.watch disk dir with
    | ok backend' =>
      rw [hwatch] at hanswer
      exact absurd hanswer (by simp)
    | error fault =>
      dsimp only
      cases hkey : s.registry.keyOf? dir with
      | some key => exact Or.inl ⟨rfl, key, rfl, rfl⟩
      | none =>
        have hnew : s.registry.registration? dir = none := Option.map_eq_none_iff.mp hkey
        have hdrawn : s.registry.dirOf? ⟨s.registry.nextKey⟩ = none :=
          Registry.dirOf?_eq_none_iff.mpr h.next_new
        -- writing an entry that was not there and striking it out
        have herase : (((({ s.registry with nextKey := s.registry.nextKey + 1 } : Registry).insert
            dir ⟨⟨s.registry.nextKey⟩, kinds⟩).eraseDir dir).eraseKey ⟨s.registry.nextKey⟩) =
            { s.registry with nextKey := s.registry.nextKey + 1 } :=
          Registry.erase_insert hnew hdrawn
        refine Or.inr ⟨rfl, rfl, ?_⟩
        simp only [Option.isSome_none, Bool.false_eq_true, if_false, Option.getD_none]
        rw [herase]

/-- What is left of a service that was asked to register a directory for some kinds, and
refused. -/
structure Refused (s s' : NotifyingService) (dir : Path) (kinds : List EventKind) : Prop where
  /-- Nothing but the registry is touched. -/
  only : s' = { s with registry := s'.registry }
  /-- At most one key is drawn. -/
  drawn : s.registry.nextKey ≤ s'.registry.nextKey ∧
    s'.registry.nextKey ≤ s.registry.nextKey + 1
  size : s'.registry.size = s.registry.size
  keys : ∀ p, s'.registry.keyOf? p = s.registry.keyOf? p
  dirs : ∀ key, (s'.registry.dirOf? key).map Path.components =
    (s.registry.dirOf? key).map Path.components
  /-- The kinds change for the directory that was refused, and for no other. -/
  registrations : ∀ p, s'.registry.registration? p =
    if s.backend.isSome ∧ dir.same p then (s.registry.registration? p).map ({ · with kinds })
    else s.registry.registration? p
  /-- A directory that was not registered leaves no trace but the key that was drawn. -/
  unregistered : s.registry.registration? dir = none →
    s'.registry = { s.registry with nextKey := s'.registry.nextKey }

/-- A refused directory changes no entry. -/
theorem sameEntries_of_error (h : s.registry.Coherent)
    (hanswer : (s.register disk dir kinds).1 = .error e) :
    Registry.SameEntries s.registry (s.register disk dir kinds).2.registry := by
  have hregisters := registers h disk dir kinds
  rw [hanswer] at hregisters
  exact hregisters.same_of_error

/-- A refusal leaves this behind. -/
theorem refused_of_error (h : s.registry.Coherent)
    (hanswer : (s.register disk dir kinds).1 = .error e) :
    Refused s (s.register disk dir kinds).2 dir kinds := by
  have hmoved := (registers h disk dir kinds).moved h
  have hsame := sameEntries_of_error h hanswer
  have hafter := hmoved.coherent h
  refine ⟨?_, ⟨hmoved.later.counts, hmoved.nextKey_le⟩, hsame.size, hsame.keyOf? h hafter,
    hsame.dirOf? h hafter, ?_, ?_⟩
  · -- the three ways to be refused: only of a known directory something is left
    rcases register_of_error h hanswer with ⟨-, heq⟩ | ⟨-, key, -, heq⟩ | ⟨-, -, heq⟩ <;> rw [heq]
  · intro p
    rcases register_of_error h hanswer with ⟨hnone, heq⟩ | ⟨hsome, key, hkey, heq⟩ |
      ⟨hsome, hnone, heq⟩
    · rw [heq, hnone, if_neg (by simp)]
    · rw [heq, Registry.registration?_insert]
      by_cases hdir : dir.same p = true
      · obtain ⟨reg, hreg, rfl⟩ := Option.map_eq_some_iff.mp hkey
        rw [if_pos hdir, if_pos ⟨hsome, hdir⟩, ← Registry.registration?_congr hdir, hreg]
        rfl
      · rw [if_neg hdir, if_neg fun hboth => hdir hboth.2]
    · rw [heq]
      by_cases hdir : dir.same p = true
      · have hunknown : s.registry.registration? p = none := by
          rw [← Registry.registration?_congr hdir]
          exact Option.map_eq_none_iff.mp hnone
        rw [if_pos ⟨hsome, hdir⟩, hunknown]
        exact hunknown
      · rw [if_neg fun hboth => hdir hboth.2]
        rfl
  · intro hunknown
    have hnone : s.registry.keyOf? dir = none := Option.map_eq_none_iff.mpr hunknown
    rcases register_of_error h hanswer with ⟨-, heq⟩ | ⟨-, key, hkey, -⟩ | ⟨-, -, heq⟩
    · rw [heq]
    · rw [hnone] at hkey
      exact absurd hkey (by simp)
    · rw [heq]

/-! ### What is told after a refusal -/

/-- When a directory is refused, in whatever state of a service, the same directories are
registered under the same keys, and at most one key is drawn; but if the backend refused it, a
directory that is registered is now registered for the kinds that it was refused with.  So all
reports are told as they would have been before the call exactly if the service had let go of
its backend, or the directory was not registered, or the kinds that can be reported are those
that it was registered for. -/
theorem refused_directory_is_heard_by_the_new_kinds (h : Reachable s)
    (hanswer : (s.register disk dir kinds).1 = .error e) :
    Refused s (s.register disk dir kinds).2 dir kinds ∧
      ((∀ disk' report, (s.register disk dir kinds).2.registry.translate disk' report =
          s.registry.translate disk' report) ↔
        s.backend = none ∨ ∀ reg, s.registry.registration? dir = some reg →
          ∀ kind ≠ .overflow, kind ∈ reg.kinds ↔ kind ∈ kinds) := by
  have hrefused := refused_of_error h.coherent hanswer
  have hfirst := (sameEntries_of_error h.coherent hanswer).firstKey?
  generalize (s.register disk dir kinds).2 = s' at hrefused hfirst ⊢
  refine ⟨hrefused, ⟨fun htold => ?_, fun hkinds => ?_⟩⟩
  · cases hbackend : s.backend with
    | none => exact Or.inl rfl
    | some backend =>
      refine Or.inr fun reg hreg kind hkind => ?_
      have hself : dir.same dir = true := decide_eq_true rfl
      have hafter : s'.registry.registration? dir = some { reg with kinds } := by
        rw [hrefused.registrations, if_pos ⟨by rw [hbackend]; rfl, hself⟩, hreg]
        rfl
      -- an entry of the directory that changes tells the kinds apart
      have hbefore := Registry.translate_eq_nil_iff hreg hkind Disk.empty
      rw [← htold, Registry.translate_eq_nil_iff hafter hkind] at hbefore
      exact (not_iff_not.mp hbefore).symm
  · refine Registry.translate_congr hrefused.keys hfirst fun kind hkind p => ?_
    have hplaced : ∀ parent, s'.registry.registration? parent = s.registry.registration? parent ∨
        ∃ reg, s.registry.registration? parent = some reg ∧
          s'.registry.registration? parent = some { reg with kinds } ∧
          (kind ∈ reg.kinds ↔ kind ∈ kinds) := by
      intro parent
      rw [hrefused.registrations]
      split
      · next hboth =>
        obtain ⟨hsome, hdir⟩ := hboth
        cases hreg : s.registry.registration? parent with
        | none => exact Or.inl rfl
        | some reg =>
          have hknown := (Registry.registration?_congr hdir).trans hreg
          refine Or.inr ⟨reg, rfl, rfl, ?_⟩
          rcases hkinds with hnone | hsame
          · rw [hnone] at hsome
            exact absurd hsome (by simp)
          · exact hsame reg hknown kind hkind
      · exact Or.inl rfl
    unfold Registry.locate
    dsimp only
    split
    · next parent name _ _ =>
      rcases hplaced parent with heq | ⟨reg, hreg, hafter, hiff⟩
      · rw [heq]
      · rw [hreg, hafter]
        simp only [hiff]
    · rfl

/-- A service with `/w` registered for creations. -/
def ofOneDirectory : NotifyingService :=
  (new.register (Disk.empty.put [[119]] .dir) (Location.toPath [[119]]) [.create]).2

theorem reachable_ofOneDirectory : ofOneDirectory.Reachable :=
  .register _ _ _ .new

/-- The directory is gone and refused for the kinds that it is registered for: nothing that may
be reported is told otherwise. -/
theorem directory_refused_as_registered :
    let dir := Location.toPath [[119]]
    let refused := (ofOneDirectory.register .empty dir [.create]).2
    ofOneDirectory.Reachable ∧
    (ofOneDirectory.register .empty dir [.create]).1 =
      .error (.backend ⟨.io .notFound, [dir]⟩) ∧
    refused.registry.keyOf? dir = some ⟨0⟩ ∧
    ∀ disk report, refused.registry.translate disk report =
      ofOneDirectory.registry.translate disk report := by
  intro dir refused
  have hanswer : (ofOneDirectory.register .empty dir [.create]).1 =
      .error (.backend ⟨.io .notFound, [dir]⟩) := by decide +kernel
  have hregistered : ofOneDirectory.registry.registration? dir = some ⟨⟨0⟩, [.create]⟩ := by
    decide +kernel
  obtain ⟨hrefused, htold⟩ :=
    refused_directory_is_heard_by_the_new_kinds reachable_ofOneDirectory hanswer
  refine ⟨reachable_ofOneDirectory, hanswer, ?_, htold.mpr (Or.inr fun reg hreg kind _ => ?_)⟩
  · rw [hrefused.keys]
    exact Option.map_eq_some_iff.mpr ⟨_, hregistered, rfl⟩
  · obtain rfl := Option.some.inj (hregistered.symm.trans hreg)
    exact Iff.rfl

/-- The directory is refused for other kinds: it is registered for these from then on, and an
entry that is created in it is not told any more. -/
theorem refused_directory_is_heard_no_more :
    let dir := Location.toPath [[119]]
    let created : Report := ⟨.create, [Location.toPath [[119], [97]]], false⟩
    let refused := (ofOneDirectory.register .empty dir [.modify]).2
    ofOneDirectory.Reachable ∧
    (ofOneDirectory.register .empty dir [.modify]).1 =
      .error (.backend ⟨.io .notFound, [dir]⟩) ∧
    ofOneDirectory.registry.registration? dir = some ⟨⟨0⟩, [.create]⟩ ∧
    refused.registry.registration? dir = some ⟨⟨0⟩, [.modify]⟩ ∧
    ofOneDirectory.registry.translate .empty created =
      [⟨⟨0⟩, [⟨.create, some ⟨[97]⟩⟩]⟩] ∧
    refused.registry.translate .empty created = [] := by
  intro dir created refused
  refine ⟨reachable_ofOneDirectory, ?_, ?_, ?_, ?_, ?_⟩ <;> decide +kernel

end NotifyingService

end ChangeWatch
