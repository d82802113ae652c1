import ChangeWatch.Proofs.Service.Translating

/-!
# How often a renaming is told

A backend may report one renaming from the old side, from the new side, for both sides in
one, or in several of these ways.  Each report is translated on its own, and nothing is kept
from one report to the next; so the old name is told as deleted once for every report that
names the old side, and the new name as created once for every report that names the new
side (`count_told`).

A renaming is therefore told once by a backend that reports either side apart, and once by
one that reports both in one.  A backend that does both has it told twice
(`renaming_is_told_per_report`, `renaming_is_told_twice`).
-/

namespace ChangeWatch

namespace RenameSide

/-- The report of a renaming from one side, or for both. -/
def report (side : RenameSide) (old new : Path) : Report :=
  match side with
  | .origin => ⟨.rename side, [old], false⟩
  | .to => ⟨.rename side, [new], false⟩
  | _ => ⟨.rename side, [old, new], false⟩

/-- Whether a report for this side names the old path. -/
def namesOld : RenameSide → Bool
  | .origin | .both => true
  | _ => false

/-- Whether a report for this side names the new path. -/
def namesNew : RenameSide → Bool
  | .to | .both => true
  | _ => false

end RenameSide

namespace Registry

variable {r : Registry} {path old new : Path} {key key' : Key} {name name' : Bytes}

/-- The path is that of an entry in a directory that is registered under the key, for
creations and deletions at least. -/
structure Holds (r : Registry) (path : Path) (key : Key) (name : Bytes) : Prop where
  fileName : path.fileName = some name
  registered : ∃ parent kinds, path.parent = some parent ∧
    r.registration? parent = some ⟨key, kinds⟩ ∧ .delete ∈ kinds ∧ .create ∈ kinds

/-- A deletion or creation of such an entry has a place in the registry. -/
theorem Holds.locate (h : r.Holds path key name) {kind : EventKind}
    (hkind : kind = .delete ∨ kind = .create) :
    r.locate (kind, path) = some (key, ⟨kind, some ⟨name⟩⟩) := by
  obtain ⟨hname, parent, kinds, hparent, hreg, hdelete, hcreate⟩ := h
  have hmem : kind ∈ kinds := by
    rcases hkind with rfl | rfl
    · exact hdelete
    · exact hcreate
  exact locate_eq_some_iff.mpr ⟨parent, name, ⟨key, kinds⟩, hparent, hname, hreg, hmem, rfl⟩

/-- What is told of a renaming that is reported for these sides, one report after the other. -/
def told (r : Registry) (disk : Disk) (old new : Path) (sides : List RenameSide) :
    List (Key × RawEvent) :=
  sides.flatMap fun side => (r.translate disk (side.report old new)).flatMap Batch.entries

variable {disk : Disk} {side : RenameSide} {sides : List RenameSide}

/-- What is told of one report: the old name as deleted if the old side is named, then the new
name as created if the new side is. -/
theorem told_report (hold : r.Holds old key name) (hnew : r.Holds new key' name')
    (hside : side ∈ [.origin, .to, .both]) :
    (r.translate disk (side.report old new)).flatMap Batch.entries =
      (if side.namesOld then [(key, ⟨.delete, some ⟨name⟩⟩)] else []) ++
        if side.namesNew then [(key', ⟨.create, some ⟨name'⟩⟩)] else [] := by
  have hdeleted := hold.locate (Or.inl rfl)
  have hcreated := hnew.locate (Or.inr rfl)
  have hscan : (side.report old new).rescan = false := by cases side <;> rfl
  rw [r.translate_entries disk hscan]
  rcases List.mem_cons.mp hside with rfl | hside
  · show List.filterMap r.locate [(.delete, old)] = _
    rw [List.filterMap_cons_some hdeleted]
    rfl
  rcases List.mem_cons.mp hside with rfl | hside
  · show List.filterMap r.locate [(.create, new)] = _
    rw [List.filterMap_cons_some hcreated]
    rfl
  · obtain rfl := List.mem_singleton.mp hside
    show List.filterMap r.locate [(.delete, old), (.create, new)] = _
    rw [List.filterMap_cons_some hdeleted, List.filterMap_cons_some hcreated]
    rfl

/-- Either name is told once for every report that names its side. -/
theorem count_told (hold : r.Holds old key name) (hnew : r.Holds new key' name')
    (hsides : ∀ side ∈ sides, side ∈ [.origin, .to, .both]) :
    (r.told disk old new sides).count (key, ⟨.delete, some ⟨name⟩⟩) =
        sides.countP RenameSide.namesOld ∧
      (r.told disk old new sides).count (key', ⟨.create, some ⟨name'⟩⟩) =
        sides.countP RenameSide.namesNew := by
  induction sides with
  | nil => exact ⟨rfl, rfl⟩
  | cons side rest ih =>
    have hfirst : (r.translate disk (side.report old new)).flatMap Batch.entries = _ :=
      told_report hold hnew (hsides side List.mem_cons_self)
    obtain ⟨hdeleted, hcreated⟩ := ih fun side hside => hsides side (List.mem_cons_of_mem _ hside)
    have hsplit : r.told disk old new (side :: rest) =
        (r.translate disk (side.report old new)).flatMap Batch.entries ++
          r.told disk old new rest := rfl
    rw [hsplit, hfirst, List.countP_cons, List.countP_cons]
    -- a deletion is no creation, so each of the two counts its own part alone
    constructor
    · rw [List.count_append, hdeleted]
      cases side.namesOld <;> cases side.namesNew <;> simp [Nat.add_comm]
    · rw [List.count_append, hcreated]
      cases side.namesOld <;> cases side.namesNew <;> simp [Nat.add_comm]

/-- A renaming of an entry of one registered directory to an entry of one, both registered for
creations and deletions, is told as one deletion of the old name and one creation of the new
name by a backend that reports each side apart, and by one that reports both sides in one.  By
a backend that reports each side apart and then both in one, all this is told twice. -/
theorem renaming_is_told_per_report (disk : Disk) (hold : r.Holds old key name)
    (hnew : r.Holds new key' name') :
    let deleted : Key × RawEvent := (key, ⟨.delete, some ⟨name⟩⟩)
    let created : Key × RawEvent := (key', ⟨.create, some ⟨name'⟩⟩)
    (∀ sides : List RenameSide, (∀ side ∈ sides, side ∈ [.origin, .to, .both]) →
      (r.told disk old new sides).count deleted = sides.countP RenameSide.namesOld ∧
      (r.told disk old new sides).count created = sides.countP RenameSide.namesNew) ∧
    r.told disk old new [.origin, .to] = [deleted, created] ∧
    r.told disk old new [.both] = [deleted, created] ∧
    r.told disk old new [.origin, .to, .both] = [deleted, created, deleted, created] := by
  intro deleted created
  have hreport : ∀ side ∈ [RenameSide.origin, .to, .both],
      (r.translate disk (side.report old new)).flatMap Batch.entries =
        (if side.namesOld then [deleted] else []) ++ if side.namesNew then [created] else [] :=
    fun side hside => told_report hold hnew hside
  have horigin : _ = [deleted] := hreport .origin (by decide)
  have hto : _ = [created] := hreport .to (by decide)
  have hboth : _ = [deleted, created] := hreport .both (by decide)
  refine ⟨fun sides hsides => count_told hold hnew hsides, ?_, ?_, ?_⟩
  · simp only [told, List.flatMap_cons, List.flatMap_nil, horigin, hto]
    rfl
  · simp only [told, List.flatMap_cons, List.flatMap_nil, hboth]
    rfl
  · simp only [told, List.flatMap_cons, List.flatMap_nil, horigin, hto, hboth]
    rfl

/-- A registry of the directory `/w`, under one key. -/
def ofOneDirectory : Registry :=
  empty.insert (Location.toPath [[119]]) ⟨⟨7⟩, [.create, .delete]⟩

/-- `/w/a` is renamed to `/w/b`. -/
theorem renaming_within_a_directory :
    let deleted : Key × RawEvent := (⟨7⟩, ⟨.delete, some ⟨[97]⟩⟩)
    let created : Key × RawEvent := (⟨7⟩, ⟨.create, some ⟨[98]⟩⟩)
    let told := ofOneDirectory.told .empty (Location.toPath [[119], [97]])
      (Location.toPath [[119], [98]])
    ofOneDirectory.Holds (Location.toPath [[119], [97]]) ⟨7⟩ [97] ∧
    ofOneDirectory.Holds (Location.toPath [[119], [98]]) ⟨7⟩ [98] ∧
    told [.origin, .to] = [deleted, created] ∧ (told [.both]).count deleted = 1 := by
  intro deleted created told
  have hold : ofOneDirectory.Holds (Location.toPath [[119], [97]]) ⟨7⟩ [97] :=
    ⟨by decide, Location.toPath [[119]], [.create, .delete], by decide +kernel,
      by decide +kernel, by decide, by decide⟩
  have hnew : ofOneDirectory.Holds (Location.toPath [[119], [98]]) ⟨7⟩ [98] :=
    ⟨by decide, Location.toPath [[119]], [.create, .delete], by decide +kernel,
      by decide +kernel, by decide, by decide⟩
  obtain ⟨hcount, hapart, -, -⟩ := renaming_is_told_per_report .empty hold hnew
  exact ⟨hold, hnew, hapart, (hcount [.both] (by decide)).1⟩

/-- The same renaming, reported from each side and then for both, is told as two deletions and
two creations. -/
theorem renaming_is_told_twice :
    let told := ofOneDirectory.told .empty (Location.toPath [[119], [97]])
      (Location.toPath [[119], [98]]) [.origin, .to, .both]
    ofOneDirectory.Holds (Location.toPath [[119], [97]]) ⟨7⟩ [97] ∧
    ofOneDirectory.Holds (Location.toPath [[119], [98]]) ⟨7⟩ [98] ∧
    told.count (⟨7⟩, ⟨.delete, some ⟨[97]⟩⟩) = 2 ∧
    told.count (⟨7⟩, ⟨.create, some ⟨[98]⟩⟩) = 2 := by
  refine ⟨⟨by decide, Location.toPath [[119]], [.create, .delete], by decide +kernel,
      by decide +kernel, by decide, by decide⟩,
    ⟨by decide, Location.toPath [[119]], [.create, .delete], by decide +kernel,
      by decide +kernel, by decide, by decide⟩, ?_, ?_⟩
  · decide +kernel
  · decide +kernel

end Registry

end ChangeWatch
