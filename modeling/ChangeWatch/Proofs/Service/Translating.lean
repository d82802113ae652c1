import ChangeWatch.Proofs.Path
import ChangeWatch.Proofs.Service.Registering
import Mathlib.Data.List.Forall2

/-!
# What a report is translated to

The batches of a report, taken apart again, are its changes that have a place in the
registry, in order and nothing else (`translate_entries`).  A change has a place if its path
has a last name and the directory that holds it is registered for its kind
(`locate_eq_some_iff`); so when all directories are registered for the same kinds
(`Subscribed`), the entries stand one to one for the changes that the registry `hears`
(`translate_hears`).

A rescan is told once, under the key of the directory that it is addressed to
(`translate_rescan`): the first path if it is registered, else the directory that holds it,
else that of the smallest key (`rescanDir?`).  It is told as long as anything is registered
(`rescanKey?_eq_none_iff`).
-/

namespace ChangeWatch

/-! ### Batches taken apart -/

/-- The events of a batch, each with the key. -/
def Batch.entries (b : Batch) : List (Key × RawEvent) :=
  b.events.map (b.key, ·)

/-- Taking batches apart undoes putting events together. -/
theorem Batch.flatMap_entries_group (located : List (Key × RawEvent)) :
    (group located).flatMap entries = located := by
  induction located with
  | nil => rfl
  | cons entry rest ih =>
    obtain ⟨key, event⟩ := entry
    unfold group
    split
    · next b bs hgroup =>
      rw [hgroup] at ih
      split
      · next hkey =>
        subst hkey
        rw [← ih]
        rfl
      · rw [← ih]
        rfl
    · next hgroup =>
      rw [hgroup] at ih
      rw [← ih]
      rfl

/-- What is mapped to something stands one to one for what it is mapped from. -/
theorem forall₂_filterMap_filter {α β : Type} {R : β → α → Prop} {f : α → Option β}
    {c : α → Bool} {l : List α} (hsome : ∀ a ∈ l, c a = true → ∃ b, f a = some b ∧ R b a)
    (hnone : ∀ a ∈ l, c a = false → f a = none) :
    List.Forall₂ R (l.filterMap f) (l.filter c) := by
  induction l with
  | nil => exact .nil
  | cons a rest ih =>
    have hrest := ih (fun b hb => hsome b (List.mem_cons_of_mem _ hb))
      (fun b hb => hnone b (List.mem_cons_of_mem _ hb))
    cases hc : c a with
    | true =>
      obtain ⟨b, hb, hR⟩ := hsome a List.mem_cons_self hc
      rw [List.filterMap_cons_some hb, List.filter_cons_of_pos hc]
      exact .cons hR hrest
    | false =>
      rw [List.filterMap_cons_none (hnone a List.mem_cons_self hc),
        List.filter_cons_of_neg (by rw [hc]; simp)]
      exact hrest

/-- No path of a report is said to be missed. -/
theorem Report.changes_kind (report : Report) (disk : Disk) :
    ∀ change ∈ report.changes disk, change.1 ≠ .overflow := by
  have hmap : ∀ {f : Path → EventKind × Path} {paths : List Path},
      (∀ p, (f p).1 ≠ .overflow) → ∀ change ∈ paths.map f, change.1 ≠ .overflow := by
    intro f paths hf change hchange
    obtain ⟨p, -, rfl⟩ := List.mem_map.mp hchange
    exact hf p
  have hboth : ∀ p : Path, (if disk.exists? p then EventKind.create else .delete) ≠ .overflow := by
    intro p
    split <;> simp
  unfold Report.changes
  split
  case h_5 =>
    split
    · simp
    · intro change hchange
      rcases List.mem_cons.mp hchange with rfl | hchange
      · simp
      · exact hmap (by simp) change hchange
  case h_6 => exact hmap hboth
  case h_7 => exact hmap hboth
  all_goals first | exact hmap (by simp) | simp

namespace Registry

variable {r : Registry} {dir : Path} {key : Key} {kinds : List EventKind}

/-! ### Changes -/

/-- A change has a place in a registry if the directory that holds its path is registered for
its kind. -/
theorem locate_eq_some_iff {change : EventKind × Path} {entry : Key × RawEvent} :
    r.locate change = some entry ↔ ∃ parent name reg,
      change.2.parent = some parent ∧ change.2.fileName = some name ∧
      r.registration? parent = some reg ∧ change.1 ∈ reg.kinds ∧
      entry = (reg.key, ⟨change.1, some ⟨name⟩⟩) := by
  unfold locate
  constructor
  · intro h
    split at h
    · next parent name hparent hname =>
      split at h
      · next reg hreg =>
        split at h
        · next hkind =>
          exact ⟨parent, name, reg, hparent, hname, hreg, hkind, (Option.some.inj h).symm⟩
        · exact absurd h (by simp)
      · exact absurd h (by simp)
    · exact absurd h (by simp)
  · rintro ⟨parent, name, reg, hparent, hname, hreg, hkind, rfl⟩
    simp only [hparent, hname, hreg, if_pos hkind]

/-- The batches of a report that asks for no rescan, taken apart, are its changes that have a
place. -/
theorem translate_entries (r : Registry) (disk : Disk) {report : Report}
    (h : report.rescan = false) :
    (r.translate disk report).flatMap Batch.entries = (report.changes disk).filterMap r.locate := by
  unfold translate
  rw [if_neg (by rw [h]; simp)]
  exact Batch.flatMap_entries_group _

/-! ### Subscribed kinds -/

/-- Every directory is registered for these kinds. -/
def Subscribed (r : Registry) (kinds : List EventKind) : Prop :=
  ∀ e ∈ r.byDir, e.2.kinds = kinds

theorem Subscribed.kinds_eq (h : r.Subscribed kinds) {reg : Registration}
    (hreg : r.registration? dir = some reg) : reg.kinds = kinds := by
  obtain ⟨entry, hfind, rfl⟩ := Option.map_eq_some_iff.mp hreg
  exact h entry (List.mem_of_find?_eq_some hfind)

/-- Registrations that are dropped leave the others as they are. -/
theorem Subscribed.of_subset {r' : Registry} (h : r.Subscribed kinds)
    (hsubset : ∀ e ∈ r'.byDir, e ∈ r.byDir) : r'.Subscribed kinds :=
  fun e he => h e (hsubset e he)

theorem Subscribed.insert (h : r.Subscribed kinds) (dir : Path) (key : Key) :
    (r.insert dir ⟨key, kinds⟩).Subscribed kinds := by
  have hbyDir : (r.insert dir ⟨key, kinds⟩).byDir = (r.setDir dir ⟨key, kinds⟩).byDir := by
    unfold Registry.insert setKey
    split <;> rfl
  intro e he
  rw [hbyDir] at he
  unfold setDir at he
  split at he
  · obtain ⟨old, hold, rfl⟩ := List.mem_map.mp he
    dsimp only
    split
    · rfl
    · exact h old hold
  · rcases List.mem_append.mp he with he | he
    · exact h e he
    · rw [List.mem_singleton.mp he]

/-- Whether a change shows in a registry of which all directories are registered for these
kinds: it is of such a kind, its path has a last name, and the directory that holds it is
registered. -/
def hears (r : Registry) (kinds : List EventKind) (change : EventKind × Path) : Bool :=
  decide (change.1 ∈ kinds) && change.2.fileName.isSome &&
    (change.2.parent.bind r.keyOf?).isSome

theorem hears_iff {change : EventKind × Path} : r.hears kinds change = true ↔
    change.1 ∈ kinds ∧ ∃ name parent key, change.2.fileName = some name ∧
      change.2.parent = some parent ∧ r.keyOf? parent = some key := by
  unfold hears
  rw [Bool.and_eq_true, Bool.and_eq_true, decide_eq_true_iff, and_assoc]
  refine and_congr_right fun _ => ?_
  rw [Option.isSome_iff_exists, Option.isSome_iff_exists]
  constructor
  · rintro ⟨⟨name, hname⟩, key, hkey⟩
    obtain ⟨parent, hparent, hkey⟩ := Option.bind_eq_some_iff.mp hkey
    exact ⟨name, parent, key, hname, hparent, hkey⟩
  · rintro ⟨name, parent, key, hname, hparent, hkey⟩
    exact ⟨⟨name, hname⟩, key, Option.bind_eq_some_iff.mpr ⟨parent, hparent, hkey⟩⟩

/-- The entry of a change names it below the directory of its key. -/
structure Names (r : Registry) (entry : Key × RawEvent) (change : EventKind × Path) : Prop where
  kind : entry.2.kind = change.1
  path : ∃ parent name, r.keyOf? parent = some entry.1 ∧ Path.Normal name ∧
    entry.2.name = some ⟨name⟩ ∧ change.2.components = parent.components ++ [.name name]

/-- The entries that a report is translated to stand one to one for its changes that the
registry hears. -/
theorem translate_hears (h : r.Subscribed kinds) (disk : Disk) {report : Report}
    (hscan : report.rescan = false) :
    List.Forall₂ r.Names ((r.translate disk report).flatMap Batch.entries)
      ((report.changes disk).filter (r.hears kinds)) := by
  rw [r.translate_entries disk hscan]
  refine forall₂_filterMap_filter (fun change _ hheard => ?_) fun change _ hunheard => ?_
  · obtain ⟨hkind, name, parent, key, hname, hparent, hkey⟩ := hears_iff.mp hheard
    obtain ⟨reg, hreg, rfl⟩ := Option.map_eq_some_iff.mp hkey
    obtain ⟨q, hq, hcomponents⟩ := Path.parent_of_fileName hname
    obtain rfl := Option.some.inj (hparent.symm.trans hq)
    refine ⟨_, locate_eq_some_iff.mpr ⟨parent, name, reg, hparent, hname, hreg, ?_, rfl⟩, rfl,
      parent, name, hkey, Path.normal_fileName hname, rfl, hcomponents⟩
    rw [h.kinds_eq hreg]
    exact hkind
  · refine Option.eq_none_iff_forall_not_mem.mpr fun entry hentry => ?_
    obtain ⟨parent, name, reg, hparent, hname, hreg, hkind, -⟩ := locate_eq_some_iff.mp hentry
    rw [h.kinds_eq hreg] at hkind
    have hheard := hears_iff.mpr ⟨hkind, name, parent, reg.key, hname, hparent,
      Option.map_eq_some_iff.mpr ⟨reg, hreg, rfl⟩⟩
    rw [hheard] at hunheard
    exact absurd hunheard (by simp)

/-! ### Rescans -/

/-- The smallest key is that of an entry, and no other is smaller. -/
theorem firstKey?_eq_some (h : r.firstKey? = some key) :
    key ∈ r.keyEntries.map (·.1) ∧ ∀ key' ∈ r.keyEntries.map (·.1), key.id ≤ key'.id := by
  obtain ⟨id, hmin, rfl⟩ := Option.map_eq_some_iff.mp h
  have hkeys : r.keyEntries.map (·.1) = r.byKey.map (·.1) := by
    rw [keyEntries, List.map_map]
    rfl
  rw [hkeys]
  obtain ⟨hmem, hle⟩ := List.min?_eq_some_iff.mp hmin
  obtain ⟨entry, hentry, hid⟩ := List.mem_map.mp hmem
  refine ⟨List.mem_map.mpr ⟨entry, hentry, congrArg Key.mk hid⟩, fun key' hkey' => ?_⟩
  obtain ⟨other, hother, rfl⟩ := List.mem_map.mp hkey'
  exact hle _ (List.mem_map.mpr ⟨other, hother, rfl⟩)

theorem firstKey?_eq_none_iff : r.firstKey? = none ↔ r.keyEntries = [] := by
  unfold firstKey? keyEntries
  rw [Option.map_eq_none_iff, List.min?_eq_none_iff, List.map_eq_nil_iff, List.map_eq_nil_iff]

/-- The directory to which a rescan is addressed: the first path if it is registered, else the
directory that holds it, else that of the smallest key. -/
def rescanDir? (r : Registry) (paths : List Path) : Option Path :=
  let registered (p : Path) : Option Path := if (r.keyOf? p).isSome then some p else none
  (paths.head?.bind fun p => registered p <|> p.parent.bind registered) <|>
    r.firstKey?.bind r.dirOf?

/-- The directory to which a rescan is addressed is that of the key under which it is told. -/
theorem Coherent.rescanDir? (h : r.Coherent) (paths : List Path) {key : Key}
    (hkey : r.rescanKey? paths = some key) : ∃ dir, r.rescanDir? paths = some dir ∧
      (key, dir.components) ∈ r.keyEntries := by
  -- a path is a registered directory or it is not
  have hregistered : ∀ p : Path, (∃ k, r.keyOf? p = some k ∧
      (if (r.keyOf? p).isSome then some p else none) = some p) ∨
      r.keyOf? p = none ∧ (if (r.keyOf? p).isSome then some p else none) = none := by
    intro p
    cases hp : r.keyOf? p with
    | some k => exact Or.inl ⟨k, rfl, rfl⟩
    | none => exact Or.inr ⟨rfl, rfl⟩
  -- the last resort is the smallest key
  have hsmallest : r.firstKey? = some key → ∃ dir, r.firstKey?.bind r.dirOf? = some dir ∧
      (key, dir.components) ∈ r.keyEntries := by
    intro hfirst
    obtain ⟨⟨k, c⟩, hentry, rfl⟩ := List.mem_map.mp (firstKey?_eq_some hfirst).1
    obtain ⟨dir, hdir⟩ := dirOf?_isSome hentry
    exact ⟨dir, by rw [hfirst]; exact hdir, mem_keyEntries_of_dirOf? hdir⟩
  unfold rescanKey? at hkey
  unfold Registry.rescanDir?
  dsimp only at hkey ⊢
  -- the path itself, then its parent, then the smallest key
  cases hhead : paths.head? with
  | none =>
    rw [hhead] at hkey
    exact hsmallest hkey
  | some p =>
    rw [hhead, Option.bind_some] at hkey
    rw [Option.bind_some]
    rcases hregistered p with ⟨k, hk, hp⟩ | ⟨hnone, hp⟩
    · rw [hk] at hkey
      obtain rfl : k = key := Option.some.inj hkey
      exact ⟨p, by rw [hp]; rfl, h.keyOf?_iff.mp hk⟩
    · rw [hnone] at hkey
      rw [hp]
      cases hparent : p.parent with
      | none =>
        rw [hparent] at hkey
        exact hsmallest hkey
      | some q =>
        rw [hparent] at hkey
        rw [Option.bind_some]
        rcases hregistered q with ⟨k, hk, hq⟩ | ⟨hnone', hq⟩
        · rw [Option.bind_some, hk] at hkey
          obtain rfl : k = key := Option.some.inj hkey
          exact ⟨q, by rw [hq]; rfl, h.keyOf?_iff.mp hk⟩
        · rw [Option.bind_some, hnone'] at hkey
          rw [hq]
          exact hsmallest hkey

/-- Where nothing is registered, no directory is. -/
theorem Coherent.keyOf?_eq_none (h : r.Coherent) (hnil : r.keyEntries = []) (dir : Path) :
    r.keyOf? dir = none := by
  refine Option.eq_none_iff_forall_not_mem.mpr fun key hkey => ?_
  have hmem := h.keyOf?_iff.mp hkey
  rw [hnil] at hmem
  exact absurd hmem List.not_mem_nil

/-- A rescan is told as long as anything is registered. -/
theorem Coherent.rescanKey?_eq_none_iff (h : r.Coherent) (paths : List Path) :
    r.rescanKey? paths = none ↔ r.keyEntries = [] := by
  unfold rescanKey?
  dsimp only
  constructor
  · intro hnone
    refine firstKey?_eq_none_iff.mp ?_
    cases hnear : paths.head?.bind fun p => r.keyOf? p <|> p.parent.bind r.keyOf? with
    | some key =>
      rw [hnear] at hnone
      exact absurd hnone (by simp)
    | none =>
      rw [hnear] at hnone
      exact hnone
  · intro hnil
    rw [funext (h.keyOf?_eq_none hnil), firstKey?_eq_none_iff.mpr hnil]
    cases paths.head? with
    | none => rfl
    | some p => cases p.parent <;> simp

/-- Where nothing is registered, a rescan is addressed to nobody. -/
theorem Coherent.rescanDir?_eq_none (h : r.Coherent) (hnil : r.keyEntries = [])
    (paths : List Path) : r.rescanDir? paths = none := by
  have hunknown := h.keyOf?_eq_none hnil
  unfold Registry.rescanDir?
  rw [firstKey?_eq_none_iff.mpr hnil]
  cases paths.head? with
  | none => rfl
  | some p => cases p.parent <;> simp [hunknown]

/-- A rescan is told as one event without a name. -/
theorem translate_rescan (r : Registry) (disk : Disk) {report : Report} (h : report.rescan = true) :
    r.translate disk report =
      ((r.rescanKey? report.paths).map fun key => ⟨key, [RawEvent.overflow]⟩).toList := by
  unfold translate
  rw [if_pos h]

/-- Where nothing is registered, nothing is told. -/
theorem Coherent.translate_eq_nil (h : r.Coherent) (hnil : r.keyEntries = []) (disk : Disk)
    (report : Report) : r.translate disk report = [] := by
  have hnone : ∀ change ∈ report.changes disk, r.locate change = none := by
    intro change _
    refine Option.eq_none_iff_forall_not_mem.mpr fun entry hentry => ?_
    obtain ⟨parent, _, reg, -, -, hreg, -, -⟩ := locate_eq_some_iff.mp hentry
    have hkey : r.keyOf? parent = some reg.key := Option.map_eq_some_iff.mpr ⟨reg, hreg, rfl⟩
    rw [h.keyOf?_eq_none hnil] at hkey
    exact absurd hkey (by simp)
  unfold translate
  split
  · rw [(h.rescanKey?_eq_none_iff report.paths).mpr hnil]
    rfl
  · rw [List.filterMap_eq_nil_iff.mpr hnone]
    rfl

/-- Whatever is told is told under a key that is registered. -/
theorem Coherent.translate_registered (h : r.Coherent) {disk : Disk} {report : Report} {b : Batch}
    (hb : b ∈ r.translate disk report) {event : RawEvent} (hevent : event ∈ b.events) :
    ∃ c, (b.key, c) ∈ r.keyEntries := by
  cases hscan : report.rescan with
  | true =>
    rw [r.translate_rescan disk hscan] at hb
    obtain ⟨key, hkey, rfl⟩ := Option.map_eq_some_iff.mp (Option.mem_toList.mp hb)
    obtain ⟨dir, -, hentry⟩ := h.rescanDir? report.paths hkey
    exact ⟨_, hentry⟩
  | false =>
    have hentry : (b.key, event) ∈ (r.translate disk report).flatMap Batch.entries :=
      List.mem_flatMap.mpr ⟨b, hb, List.mem_map.mpr ⟨event, hevent, rfl⟩⟩
    rw [r.translate_entries disk hscan] at hentry
    obtain ⟨change, -, hlocate⟩ := List.mem_filterMap.mp hentry
    obtain ⟨parent, _, reg, -, -, hreg, -, heq⟩ := locate_eq_some_iff.mp hlocate
    rw [(Prod.mk.inj heq).1]
    exact ⟨_, h.keyOf?_iff.mp (Option.map_eq_some_iff.mpr ⟨reg, hreg, rfl⟩)⟩

end Registry

namespace NotifyingService

variable {s : NotifyingService} {kinds : List EventKind}

/-- Whether a directory is accepted or refused, all are registered for the same kinds as before. -/
theorem register_subscribed (h : s.registry.Subscribed kinds) (disk : Disk) (dir : Path) :
    (s.register disk dir kinds).2.registry.Subscribed kinds := by
  unfold register
  cases s.backend with
  | none => exact h
  | some backend =>
    dsimp only
    have hcounted : (if (s.registry.keyOf? dir).isSome then s.registry
        else { s.registry with nextKey := s.registry.nextKey + 1 }).Subscribed kinds := by
      split <;> exact h
    have hwritten := hcounted.insert dir ((s.registry.keyOf? dir).getD ⟨s.registry.nextKey⟩)
    cases backend.watch disk dir with
    | ok backend => exact hwritten
    | error e =>
      dsimp only
      by_cases hknown : (s.registry.keyOf? dir).isSome = true
      · rw [if_pos hknown]
        exact hwritten
      · rw [if_neg hknown]
        exact hwritten.of_subset fun e he => List.mem_of_mem_filter he

theorem reset_subscribed (h : s.registry.Subscribed kinds) (disk : Disk) (key : Key) :
    (s.reset disk key).2.registry.Subscribed kinds := by
  generalize hreset : s.reset disk key = answer
  cases hreset ▸ s.resets disk key with
  | closed => exact h
  | unknown => exact h
  | there => exact h
  | cancelled => exact h.of_subset fun e he => List.mem_of_mem_filter he

theorem closeStep_subscribed (h : s.registry.Subscribed kinds) (step : CloseStep) :
    (s.closeStep step).1.registry.Subscribed kinds := by
  cases step with
  | forget => exact fun e he => absurd he List.not_mem_nil
  | _ => exact h

end NotifyingService

end ChangeWatch
