import ChangeWatch.Proofs.Service.Translating

/-!
# A directory that is registered alone

A service on which one directory is ever registered, always for the same kinds, has no
registration or this one.  Registering it again changes nothing, and while the directory is
there a reset changes nothing either, so the registration stays until the service lets go of it
(`register_alone`, `reset_alone`).

A change then has a place if it is of these kinds and its path is that of an entry of the
directory (`Only.locate_cases`), and a rescan is told under the one key that there is
(`Only.exists_rescanKey`).
-/

namespace ChangeWatch

namespace Registry

variable {r : Registry} {dir : Path} {reg : Registration} {kinds : List EventKind}

/-- Nothing is registered. -/
def Vacant (r : Registry) : Prop :=
  r.byDir = [] ∧ r.byKey = []

/-- One directory is registered, and nothing else. -/
def Only (dir : Path) (reg : Registration) (r : Registry) : Prop :=
  r.byDir = [(dir, reg)] ∧ r.byKey = [(reg.key, dir)]

theorem Vacant.keyEntries_eq (h : r.Vacant) : r.keyEntries = [] := by
  rw [keyEntries, h.2]
  rfl

theorem Vacant.coherent (h : r.Vacant) : r.Coherent := by
  have hdirs : r.dirEntries = [] := by
    rw [dirEntries, h.1]
    rfl
  constructor
  · rw [hdirs, h.keyEntries_eq]
  all_goals simp [h.keyEntries_eq]

theorem Vacant.dirOf?_eq (h : r.Vacant) (key : Key) : r.dirOf? key = none := by
  refine dirOf?_eq_none_iff.mpr fun c hc => ?_
  rw [h.keyEntries_eq] at hc
  exact absurd hc List.not_mem_nil

/-- However the directory is spelled, it is the one that is registered. -/
theorem Only.registration?_eq (h : r.Only dir reg) (p : Path) :
    r.registration? p = if dir.same p then some reg else none := by
  unfold registration?
  rw [h.1, List.find?_cons]
  cases dir.same p <;> rfl

theorem Only.keyOf?_eq (h : r.Only dir reg) : r.keyOf? dir = some reg.key := by
  unfold keyOf?
  rw [h.registration?_eq, if_pos (Path.same_iff.mpr rfl)]
  rfl

theorem Only.dirOf?_eq (h : r.Only dir reg) {key : Key} {d : Path} (hd : r.dirOf? key = some d) :
    d = dir := by
  unfold dirOf? at hd
  rw [h.2, List.lookup_cons] at hd
  split at hd
  · exact (Option.some.inj hd).symm
  · exact absurd hd (by simp)

theorem Vacant.insert (h : r.Vacant) (dir : Path) (reg : Registration) :
    (r.insert dir reg).Only dir reg := by
  constructor <;> simp [Registry.insert, setDir, setKey, h.1, h.2]

theorem Only.insert (h : r.Only dir reg) : (r.insert dir reg).Only dir reg := by
  have hsame : dir.same dir = true := Path.same_iff.mpr rfl
  constructor <;> simp [Registry.insert, setDir, setKey, h.1, h.2, hsame]

/-- What is registered is struck out again. -/
theorem Only.erase (h : r.Only dir reg) : ((r.eraseDir dir).eraseKey reg.key).Vacant := by
  have hsame : dir.same dir = true := Path.same_iff.mpr rfl
  constructor <;> simp [eraseDir, eraseKey, h.1, h.2, hsame]

/-! ### What is told -/

/-- A change has a place if it is of a registered kind and its path is that of an entry of the
directory, and no place else. -/
theorem Only.locate_cases (h : r.Only dir reg) (change : EventKind × Path) :
    (∃ name, Path.Normal name ∧ change.2.components = dir.components ++ [.name name] ∧
      change.1 ∈ reg.kinds ∧ r.locate change = some (reg.key, ⟨change.1, some ⟨name⟩⟩)) ∨
    r.locate change = none ∧ (change.1 ∈ reg.kinds →
      ∀ name, change.2.components ≠ dir.components ++ [.name name]) := by
  cases hlocate : r.locate change with
  | some entry =>
    obtain ⟨parent, name, reg', hparent, hname, hreg, hkind, rfl⟩ :=
      locate_eq_some_iff.mp hlocate
    rw [h.registration?_eq] at hreg
    split at hreg
    · next hsame =>
      obtain rfl := Option.some.inj hreg
      obtain ⟨q, hq, hcomponents⟩ := Path.parent_of_fileName hname
      obtain rfl := Option.some.inj (hparent.symm.trans hq)
      refine Or.inl ⟨name, Path.normal_fileName hname, ?_, hkind, rfl⟩
      rw [hcomponents, Path.same_iff.mp hsame]
    · exact absurd hreg (by simp)
  | none =>
    refine Or.inr ⟨rfl, fun hkind name hcomponents => ?_⟩
    have hname := Path.fileName_of_components hcomponents
    obtain ⟨q, hq, hcomponents'⟩ := Path.parent_of_fileName hname
    have hsame : dir.components = q.components :=
      (List.append_inj' (hcomponents.symm.trans hcomponents') rfl).1
    have hreg : r.registration? q = some reg := by
      rw [h.registration?_eq, if_pos (Path.same_iff.mpr hsame)]
    have hplace := locate_eq_some_iff.mpr ⟨q, name, reg, hq, hname, hreg, hkind, rfl⟩
    exact absurd (hlocate.symm.trans hplace) (by simp)

/-- A rescan is told under the one key that there is. -/
theorem Only.exists_rescanKey (h : r.Only dir reg) (paths : List Path) :
    ∃ key, r.rescanKey? paths = some key := by
  have hfirst : r.firstKey? = some reg.key := by
    unfold firstKey?
    rw [h.2]
    rfl
  unfold rescanKey?
  rw [hfirst]
  cases (paths.head?.bind fun p => r.keyOf? p <|> p.parent.bind r.keyOf?) with
  | none => exact ⟨_, rfl⟩
  | some key => exact ⟨_, rfl⟩

/-- Nothing is registered, or this directory alone, for these kinds. -/
def Alone (dir : Path) (kinds : List EventKind) (r : Registry) : Prop :=
  r.Vacant ∨ ∃ key, r.Only dir ⟨key, kinds⟩

end Registry

namespace NotifyingService

variable {s : NotifyingService} {dir : Path} {kinds : List EventKind}

/-- The service holds its backend, and this directory alone is registered. -/
def Attached (dir : Path) (kinds : List EventKind) (s : NotifyingService) : Prop :=
  s.backend.isSome = true ∧ ∃ key, s.registry.Only dir ⟨key, kinds⟩

/-- Registering the directory leaves it registered alone, or leaves nothing registered. -/
theorem register_alone (h : s.registry.Alone dir kinds) (disk : Disk) :
    (s.register disk dir kinds).2.registry.Alone dir kinds ∧
      (s.Attached dir kinds → (s.register disk dir kinds).2.Attached dir kinds) ∧
      ∀ key, (s.register disk dir kinds).1 = .ok key →
        (s.register disk dir kinds).2.Attached dir kinds := by
  unfold register
  cases hbackend : s.backend with
  | none => exact ⟨h, id, fun key hkey => absurd hkey (by simp)⟩
  | some backend =>
    dsimp only
    rcases h with hvacant | ⟨key, honly⟩
    · rw [hvacant.coherent.keyOf?_eq_none hvacant.keyEntries_eq]
      have hwritten := Registry.Vacant.insert (r := { s.registry with
        nextKey := s.registry.nextKey + 1 }) hvacant dir ⟨⟨s.registry.nextKey⟩, kinds⟩
      have hnot : ¬ s.Attached dir kinds := by
        rintro ⟨-, key, honly⟩
        exact absurd (hvacant.1.symm.trans honly.1) (by simp)
      dsimp only [Option.getD_none, Option.isSome_none]
      cases backend.watch disk dir with
      | ok backend =>
        exact ⟨Or.inr ⟨_, hwritten⟩, fun h => absurd h hnot, fun _ _ => ⟨rfl, _, hwritten⟩⟩
      | error e =>
        exact ⟨Or.inl hwritten.erase, fun h => absurd h hnot, fun key hkey => absurd hkey (by simp)⟩
    · have hwritten := honly.insert
      rw [honly.keyOf?_eq]
      dsimp only [Option.getD_some, Option.isSome_some]
      cases backend.watch disk dir with
      | ok backend =>
        exact ⟨Or.inr ⟨_, hwritten⟩, fun _ => ⟨rfl, _, hwritten⟩, fun _ _ => ⟨rfl, _, hwritten⟩⟩
      | error e =>
        exact ⟨Or.inr ⟨_, hwritten⟩, fun _ => ⟨rfl, _, hwritten⟩,
          fun key hkey => absurd hkey (by simp)⟩

/-- A reset changes nothing while the directory is there. -/
theorem reset_alone (h : s.registry.Alone dir kinds) {disk : Disk} (hdir : disk.isDir dir = true)
    (key : Key) : (s.reset disk key).2 = s := by
  generalize hreset : s.reset disk key = answer
  cases hreset ▸ s.resets disk key with
  | closed => rfl
  | unknown => rfl
  | there => rfl
  | cancelled _ hkey hgone =>
    rcases h with hvacant | ⟨key', honly⟩
    · rw [hvacant.dirOf?_eq] at hkey
      exact absurd hkey (by simp)
    · obtain rfl := honly.dirOf?_eq hkey
      exact absurd (hdir.symm.trans hgone) (by simp)

end NotifyingService

end ChangeWatch
