import ChangeWatch.Proofs.Service.Translating

/-!
# How a report is split among directories

What a report comes to can be said path by path: the kind of change goes by the report and by
the place of the path in it (`Report.kindAt`), and the pair has a place in a registry if the
directory that holds the path is registered for that kind (`Registry.entry?`).  The pairs that
have a place, in the order of the paths, are what is `due`.

The batches of a report are what is due, divided into runs (`Divided`): nothing is lost, told
twice or moved, no run is empty, and a run ends only where the key changes.  There is one way
of doing this (`Divided.unique`), and `translate` finds it (`report_is_split_by_directory`).
-/

namespace ChangeWatch

/-! ### Runs of one key -/

/-- The batches are the entries in order, divided into runs of one key that are not empty and as
long as can be. -/
structure Batch.Divided (batches : List Batch) (entries : List (Key × RawEvent)) : Prop where
  whole : batches.flatMap Batch.entries = entries
  nonempty : ∀ b ∈ batches, b.events ≠ []
  longest : batches.IsChain fun b next => b.key ≠ next.key

namespace Batch

variable {b : Batch} {bs : List Batch} {key : Key} {event : RawEvent}
  {events : List RawEvent} {rest : List (Key × RawEvent)}

/-- Putting one more event in front: it joins the first batch, or is one of its own. -/
theorem group_cons (key : Key) (event : RawEvent) (rest : List (Key × RawEvent)) :
    (∃ b bs, group rest = b :: bs ∧ b.key = key ∧
      group ((key, event) :: rest) = ⟨key, event :: b.events⟩ :: bs) ∨
    ((∀ b ∈ (group rest).head?, b.key ≠ key) ∧
      group ((key, event) :: rest) = ⟨key, [event]⟩ :: group rest) := by
  rw [group]
  cases hrest : group rest with
  | nil =>
    refine Or.inr ⟨fun b hb => ?_, rfl⟩
    exact absurd hb (by simp)
  | cons b bs =>
    by_cases hkey : b.key = key
    · exact Or.inl ⟨b, bs, rfl, hkey, if_pos hkey⟩
    · refine Or.inr ⟨fun b' hb' => ?_, if_neg hkey⟩
      obtain rfl : b = b' := by simpa using hb'
      exact hkey

/-- Entries that are put together are divided into runs. -/
theorem divided_group (entries : List (Key × RawEvent)) : Divided (group entries) entries := by
  refine ⟨flatMap_entries_group entries, ?_, ?_⟩
  · induction entries with
    | nil => exact fun b hb => absurd hb List.not_mem_nil
    | cons entry rest ih =>
      intro b hb
      rcases group_cons entry.1 entry.2 rest with ⟨first, bs, hrest, -, heq⟩ | ⟨-, heq⟩
      · rw [heq] at hb
        rcases List.mem_cons.mp hb with rfl | hb
        · exact List.cons_ne_nil _ _
        · exact ih b (hrest ▸ List.mem_cons_of_mem _ hb)
      · rw [heq] at hb
        rcases List.mem_cons.mp hb with rfl | hb
        · exact List.cons_ne_nil _ _
        · exact ih b hb
  · induction entries with
    | nil => exact List.IsChain.nil
    | cons entry rest ih =>
      rcases group_cons entry.1 entry.2 rest with ⟨first, bs, hrest, hkey, heq⟩ | ⟨hnew, heq⟩
      · -- the first batch keeps its key, and with it what sets it off from the second
        rw [hrest, List.isChain_cons] at ih
        rw [heq, List.isChain_cons]
        refine ⟨fun next hnext => ?_, ih.2⟩
        rw [← hkey]
        exact ih.1 next hnext
      · rw [heq, List.isChain_cons]
        exact ⟨fun next hnext => (hnew next hnext).symm, ih⟩

/-- A whole batch before others that go on under another key is put together as one. -/
theorem group_entries_append (hne : events ≠ []) (hnew : ∀ b ∈ (group rest).head?, b.key ≠ key) :
    group (entries ⟨key, events⟩ ++ rest) = ⟨key, events⟩ :: group rest := by
  induction events with
  | nil => exact absurd rfl hne
  | cons event more ih =>
    have hcons : entries ⟨key, event :: more⟩ ++ rest =
        (key, event) :: (entries ⟨key, more⟩ ++ rest) := rfl
    rw [hcons]
    rcases group_cons key event (entries ⟨key, more⟩ ++ rest) with
      ⟨b, bs, htail, hkey, heq⟩ | ⟨hother, heq⟩
    · rw [heq]
      by_cases hmore : more = []
      · -- the batch that follows has another key, so nothing joins it
        subst hmore
        have hfirst : group rest = b :: bs := htail
        exact absurd hkey (hnew b (by rw [hfirst]; rfl))
      · rw [ih hmore] at htail
        obtain ⟨rfl, rfl⟩ := List.cons.inj htail
        rfl
    · rw [heq]
      by_cases hmore : more = []
      · subst hmore
        rfl
      · rw [ih hmore] at hother
        exact absurd rfl (hother _ rfl)

/-- Runs that are taken apart and put together again are what they were. -/
theorem group_flatMap_entries (hnonempty : ∀ b ∈ bs, b.events ≠ [])
    (hlongest : bs.IsChain fun b next => b.key ≠ next.key) : group (bs.flatMap entries) = bs := by
  induction bs with
  | nil => rfl
  | cons b rest ih =>
    rw [List.isChain_cons] at hlongest
    have hrest := ih (fun next hnext => hnonempty next (List.mem_cons_of_mem _ hnext)) hlongest.2
    rw [List.flatMap_cons, group_entries_append (hnonempty b List.mem_cons_self), hrest]
    rw [hrest]
    exact fun next hnext => (hlongest.1 next hnext).symm

/-- There is one way of dividing entries into runs. -/
theorem Divided.unique {entries : List (Key × RawEvent)} (h : Divided bs entries) :
    bs = group entries := by
  rw [← h.whole]
  exact (group_flatMap_entries h.nonempty h.longest).symm

end Batch

/-! ### What is due -/

/-- What a report says of one of its paths, by the place of the path in it: the first of both
sides of a renaming is the old one, and where the side is not known the disk is asked. -/
def Report.kindAt (report : Report) (disk : Disk) (place : Nat) (path : Path) :
    Option EventKind :=
  match report.kind with
  | .create | .rename .to => some .create
  | .remove | .rename .origin => some .delete
  | .rename .both => some (if place = 0 then .delete else .create)
  | .rename .any | .rename .other => some (if disk.exists? path then .create else .delete)
  | .change => some .modify
  | .any | .access | .other => none

/-- The paths of a report in order, each with the kind that it has there. -/
def Report.pairs (report : Report) (disk : Disk) : List (EventKind × Path) :=
  report.paths.zipIdx.filterMap fun (path, place) =>
    (report.kindAt disk place path).map (·, path)

namespace Registry

/-- The registration of the directory with these components. -/
def registeredAs (r : Registry) (components : List Component) : Option Registration :=
  (r.byDir.find? fun entry => entry.1.components = components).map (·.2)

/-- The entry of a pair: under the key of the directory that holds the path, its kind and the
last name of the path; none if the path has no such directory or name, or the directory is not
registered for the kind. -/
def entry? (r : Registry) (kind : EventKind) (path : Path) : Option (Key × RawEvent) :=
  path.parent.bind fun parent => path.fileName.bind fun name =>
    ((r.registeredAs parent.components).filter fun reg => kind ∈ reg.kinds).map
      fun reg => (reg.key, ⟨kind, some ⟨name⟩⟩)

/-- All that a report has to be told as. -/
def due (r : Registry) (disk : Disk) (report : Report) : List (Key × RawEvent) :=
  (report.pairs disk).filterMap fun (kind, path) => r.entry? kind path

end Registry

/-- Where the kind does not go by the place, every path is paired with its own. -/
theorem Report.pairs_eq_map {report : Report} {disk : Disk} {kind : Path → EventKind}
    (h : ∀ place path, report.kindAt disk place path = some (kind path)) :
    report.pairs disk = report.paths.map fun path => (kind path, path) := by
  unfold Report.pairs
  simp only [h, Option.map_some, List.filterMap_eq_map']
  have hpaths : report.paths = report.paths.zipIdx.map Prod.fst := (List.zipIdx_map_fst 0 _).symm
  conv_rhs => rw [hpaths, List.map_map]
  rfl

/-- The changes of a report are its pairs. -/
theorem Report.changes_eq_pairs (report : Report) (disk : Disk) :
    report.changes disk = report.pairs disk := by
  obtain ⟨kind, paths, rescan⟩ := report
  have hsilent : (∀ place path, (Report.mk kind paths rescan).kindAt disk place path = none) →
      (Report.mk kind paths rescan).pairs disk = [] := by
    intro hkind
    refine List.filterMap_eq_nil_iff.mpr fun path _ => ?_
    dsimp only
    rw [hkind]
    rfl
  cases kind with
  | any | access | other => exact (hsilent fun _ _ => rfl).symm
  | create | change | remove => exact (pairs_eq_map fun _ _ => rfl).symm
  | rename side =>
    cases side with
    | «to» | origin => exact (pairs_eq_map fun _ _ => rfl).symm
    | any | other => exact (pairs_eq_map fun _ _ => rfl).symm
    | both =>
      cases paths with
      | nil => rfl
      | cons old new =>
        -- every place after the first is that of a new path
        have hnew : ∀ place ≠ 0, ∀ path,
            (Report.mk (.rename .both) (old :: new) rescan).kindAt disk place path =
              some .create := fun place hplace _ => congrArg some (if_neg hplace)
        have hlater : (new.zipIdx 1).filterMap (fun (path, place) =>
              ((Report.mk (.rename .both) (old :: new) rescan).kindAt disk place path).map
                (·, path)) =
            (new.zipIdx 1).map fun entry => (.create, entry.1) := by
          rw [← List.filterMap_eq_map]
          refine List.filterMap_congr fun entry hentry => ?_
          have hplace : 1 ≤ entry.2 := List.le_snd_of_mem_zipIdx hentry
          dsimp only
          rw [hnew _ (by omega)]
          rfl
        have hpairs : (Report.mk (.rename .both) (old :: new) rescan).pairs disk =
            (.delete, old) :: (new.zipIdx 1).map fun entry => (.create, entry.1) := by
          rw [← hlater]
          rfl
        rw [hpairs]
        have hpaths : new = (new.zipIdx 1).map Prod.fst := (List.zipIdx_map_fst 1 _).symm
        show (EventKind.delete, old) :: new.map (.create, ·) = _
        conv_lhs => rw [hpaths, List.map_map]
        rfl

namespace Registry

variable {r : Registry}

/-- A change has the place in a registry that its pair has. -/
theorem locate_eq_entry? (kind : EventKind) (path : Path) :
    r.locate (kind, path) = r.entry? kind path := by
  unfold locate entry?
  have hregistered (parent : Path) : r.registration? parent = r.registeredAs parent.components :=
    rfl
  dsimp only
  cases path.parent with
  | none => rfl
  | some parent =>
    cases path.fileName with
    | none => rfl
    | some name =>
      dsimp only [Option.bind_some]
      rw [hregistered]
      cases r.registeredAs parent.components with
      | none => rfl
      | some reg =>
        by_cases hkind : kind ∈ reg.kinds
        · simp [hkind]
        · simp [hkind]

/-- The batches of a report that asks for no rescan are all that it has to be told as, in the
order of its paths, divided into runs of one key; and no other batches are. -/
theorem report_is_split_by_directory (r : Registry) (disk : Disk) {report : Report}
    (h : report.rescan = false) :
    Batch.Divided (r.translate disk report) (r.due disk report) ∧
      ∀ batches, Batch.Divided batches (r.due disk report) → batches = r.translate disk report := by
  have hdue : (report.changes disk).filterMap r.locate = r.due disk report := by
    rw [report.changes_eq_pairs disk]
    exact List.filterMap_congr fun pair _ => locate_eq_entry? pair.1 pair.2
  have htranslate : r.translate disk report = Batch.group (r.due disk report) := by
    unfold translate
    rw [if_neg (by rw [h]; exact Bool.false_ne_true), hdue]
  rw [htranslate]
  exact ⟨Batch.divided_group _, fun batches hbatches => hbatches.unique⟩

/-- Two directories, of which the second is not registered for creations. -/
def ofTwoDirectories : Registry :=
  (empty.insert (Location.toPath [[119]]) ⟨⟨7⟩, [.create, .delete]⟩).insert
    (Location.toPath [[120]]) ⟨⟨8⟩, [.delete, .modify]⟩

/-- A report of a renaming with more paths than two: the first is told as deleted in its
directory and the others as created in theirs, but for one in a directory that is not registered
for that and one in a directory that is not registered; what they parted is told together. -/
theorem renaming_across_directories :
    let report : Report := ⟨.rename .both, [Location.toPath [[120], [97]],
      Location.toPath [[119], [97]], Location.toPath [[120], [98]], Location.toPath [[121], [98]],
      Location.toPath [[119], [98]]], false⟩
    report.rescan = false ∧ ofTwoDirectories.translate .empty report =
      [⟨⟨8⟩, [⟨.delete, some ⟨[97]⟩⟩]⟩,
        ⟨⟨7⟩, [⟨.create, some ⟨[97]⟩⟩, ⟨.create, some ⟨[98]⟩⟩]⟩] := by
  intro report
  have hscan : report.rescan = false := rfl
  obtain ⟨-, honly⟩ := report_is_split_by_directory ofTwoDirectories .empty hscan
  refine ⟨hscan, (honly _ ⟨?_, ?_, ?_⟩).symm⟩
  · decide +kernel
  · decide
  · decide

end Registry

end ChangeWatch
