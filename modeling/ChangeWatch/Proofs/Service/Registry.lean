import ChangeWatch.Proofs.Service.Steps
import Mathlib.Data.List.Nodup
import Mathlib.Data.Set.Card

/-!
# Keys and directories go together

A registry keeps two maps.  Read as pairs of a key and the components of a directory,
both hold the same entries (`Registry.Coherent`): no key and no directory comes twice, and
every key was drawn from the counter.  Whatever is asked of a service on top of a
notification backend does one of five things to these entries (`Registry.Moved`), and all
five keep them coherent.

Keys are drawn once.  What is registered later was registered before or has a key that was
not drawn yet (`Registry.Later`); so a key that is lost is lost for good, and a key that is
given twice was all the time that of one directory (`registry_run`).
-/

namespace ChangeWatch

theorem Path.same_iff {p q : Path} : p.same q = true ↔ p.components = q.components :=
  decide_eq_true_iff

namespace Registry

/-! ### Entries -/

/-- The keys and the components of the directories, as told from the side of the directories. -/
def dirEntries (r : Registry) : List (Key × List Component) :=
  r.byDir.map fun e => (e.2.key, e.1.components)

/-- The same, as told from the side of the keys. -/
def keyEntries (r : Registry) : List (Key × List Component) :=
  r.byKey.map fun e => (e.1, e.2.components)

/-- The two maps are inverse to each other, and their keys were drawn. -/
structure Coherent (r : Registry) : Prop where
  inverse : r.dirEntries = r.keyEntries
  dirs : (r.keyEntries.map (·.2)).Nodup
  keys : (r.keyEntries.map (·.1)).Nodup
  drawn : ∀ e ∈ r.keyEntries, e.1.id < r.nextKey

theorem coherent_empty : empty.Coherent :=
  ⟨rfl, List.nodup_nil, List.nodup_nil, fun _ he => absurd he List.not_mem_nil⟩

variable {r r' : Registry} {dir : Path} {key : Key} {reg : Registration}

theorem mem_dirEntries_of_keyOf? (h : r.keyOf? dir = some key) :
    (key, dir.components) ∈ r.dirEntries := by
  obtain ⟨reg, hreg, rfl⟩ := Option.map_eq_some_iff.mp h
  obtain ⟨entry, hfind, rfl⟩ := Option.map_eq_some_iff.mp hreg
  have hsame := List.find?_some hfind
  refine List.mem_map.mpr ⟨entry, List.mem_of_find?_eq_some hfind, ?_⟩
  rw [Path.same_iff.mp hsame]

theorem mem_keyEntries_of_dirOf? (h : r.dirOf? key = some dir) :
    (key, dir.components) ∈ r.keyEntries := by
  obtain ⟨front, back, hsplit, -⟩ := List.lookup_eq_some_iff.mp h
  refine List.mem_map.mpr ⟨(key, dir), ?_, rfl⟩
  rw [hsplit]
  exact List.mem_append_right _ List.mem_cons_self

/-- A key leads somewhere if it is that of an entry. -/
theorem dirOf?_isSome {c : List Component} (h : (key, c) ∈ r.keyEntries) :
    ∃ p, r.dirOf? key = some p := by
  obtain ⟨entry, hmem, heq⟩ := List.mem_map.mp h
  cases hlookup : r.dirOf? key with
  | some p => exact ⟨p, rfl⟩
  | none =>
    have hnone := List.lookup_eq_none_iff.mp hlookup entry hmem
    rw [(Prod.mk.inj heq).1] at hnone
    exact absurd hnone (by simp)

theorem keyOf?_isSome (h : (key, dir.components) ∈ r.dirEntries) : ∃ k, r.keyOf? dir = some k := by
  obtain ⟨entry, hmem, heq⟩ := List.mem_map.mp h
  have hsame : entry.1.same dir = true := Path.same_iff.mpr (Prod.mk.inj heq).2
  have hfind : (r.byDir.find? fun entry => entry.1.same dir).isSome := by
    rw [List.find?_isSome]
    exact ⟨entry, hmem, hsame⟩
  obtain ⟨found, hfound⟩ := Option.isSome_iff_exists.mp hfind
  refine ⟨found.2.key, ?_⟩
  unfold keyOf? registration?
  rw [hfound]
  rfl

/-- A key leads nowhere if no entry has it. -/
theorem dirOf?_eq_none_iff : r.dirOf? key = none ↔ ∀ c, (key, c) ∉ r.keyEntries := by
  constructor
  · intro hnone c hmem
    obtain ⟨p, hp⟩ := dirOf?_isSome hmem
    rw [hnone] at hp
    exact absurd hp (by simp)
  · intro hnone
    cases hdir : r.dirOf? key with
    | none => rfl
    | some p => exact absurd (mem_keyEntries_of_dirOf? hdir) (hnone _)

namespace Coherent

/-- No directory has two keys. -/
theorem key_unique (h : r.Coherent) {k k' : Key} {c : List Component}
    (hk : (k, c) ∈ r.keyEntries) (hk' : (k', c) ∈ r.keyEntries) : k = k' :=
  congrArg Prod.fst (List.inj_on_of_nodup_map h.dirs hk hk' rfl)

/-- No key has two directories. -/
theorem dir_unique (h : r.Coherent) {c c' : List Component} (hc : (key, c) ∈ r.keyEntries)
    (hc' : (key, c') ∈ r.keyEntries) : c = c' :=
  congrArg Prod.snd (List.inj_on_of_nodup_map h.keys hc hc' rfl)

/-- A directory is registered under a key exactly if they are an entry. -/
theorem keyOf?_iff (h : r.Coherent) :
    r.keyOf? dir = some key ↔ (key, dir.components) ∈ r.keyEntries := by
  constructor
  · intro hkey
    rw [← h.inverse]
    exact mem_dirEntries_of_keyOf? hkey
  · intro hmem
    obtain ⟨k, hk⟩ := keyOf?_isSome (h.inverse ▸ hmem)
    have hmem' : (k, dir.components) ∈ r.keyEntries := h.inverse ▸ mem_dirEntries_of_keyOf? hk
    rw [hk, h.key_unique hmem' hmem]

/-- A key leads to a spelling of the directory of its entry. -/
theorem dirOf?_iff (h : r.Coherent) {c : List Component} :
    (∃ p, r.dirOf? key = some p ∧ p.components = c) ↔ (key, c) ∈ r.keyEntries := by
  constructor
  · rintro ⟨p, hp, rfl⟩
    exact mem_keyEntries_of_dirOf? hp
  · intro hmem
    obtain ⟨p, hp⟩ := dirOf?_isSome hmem
    exact ⟨p, hp, h.dir_unique (mem_keyEntries_of_dirOf? hp) hmem⟩

/-- The two maps are inverse to each other. -/
theorem keyOf?_iff_dirOf? (h : r.Coherent) :
    r.keyOf? dir = some key ↔ ∃ p, r.dirOf? key = some p ∧ p.same dir = true := by
  rw [h.keyOf?_iff, ← h.dirOf?_iff]
  exact exists_congr fun p => and_congr_right fun _ => Path.same_iff.symm

/-- The size counts the directories that are registered, each once however it is spelled. -/
theorem size_eq (h : r.Coherent) :
    r.size = {c | ∃ p : Path, p.components = c ∧ (r.keyOf? p).isSome}.ncard := by
  have hset : {c | ∃ p : Path, p.components = c ∧ (r.keyOf? p).isSome} =
      ↑(r.keyEntries.map (·.2)).toFinset := by
    ext c
    simp only [Set.mem_ofPred_eq, List.coe_toFinset]
    constructor
    · rintro ⟨p, rfl, hsome⟩
      obtain ⟨k, hk⟩ := Option.isSome_iff_exists.mp hsome
      exact List.mem_map.mpr ⟨_, h.keyOf?_iff.mp hk, rfl⟩
    · intro hmem
      obtain ⟨⟨k, c⟩, hentry, rfl⟩ := List.mem_map.mp hmem
      obtain ⟨entry, -, heq⟩ := List.mem_map.mp hentry
      obtain ⟨rfl, rfl⟩ := Prod.mk.inj heq
      exact ⟨entry.2, rfl, Option.isSome_iff_exists.mpr ⟨_, h.keyOf?_iff.mpr hentry⟩⟩
  rw [hset, Set.ncard_coe_finset, List.toFinset_card_of_nodup h.dirs]
  simp [size, keyEntries]

end Coherent

/-! ### Writing and striking out -/

section Edit

variable (r : Registry) (dir : Path) (key : Key) (reg : Registration)

theorem dirEntries_insert : (r.insert dir reg).dirEntries = (r.setDir dir reg).dirEntries := by
  unfold insert setKey
  split <;> rfl

theorem keyEntries_insert : (r.insert dir reg).keyEntries = (r.setKey reg.key dir).keyEntries := by
  have hsame : (r.setDir dir reg).byKey = r.byKey := by
    unfold setDir
    split <;> rfl
  unfold insert setKey keyEntries
  rw [hsame]
  split <;> rfl

theorem nextKey_insert : (r.insert dir reg).nextKey = r.nextKey := by
  unfold insert setKey setDir
  split <;> split <;> rfl

theorem dirEntries_eraseDir :
    (r.eraseDir dir).dirEntries = r.dirEntries.filter fun e => e.2 ≠ dir.components := by
  unfold eraseDir dirEntries
  rw [List.filter_map]
  refine congrArg _ (List.filter_congr fun entry _ => ?_)
  simp [Path.same, Function.comp]

theorem dirEntries_eraseDirOf : (r.eraseDirOf dir key).dirEntries =
    r.dirEntries.filter fun e => ¬(e.2 = dir.components ∧ e.1 = key) := by
  unfold eraseDirOf dirEntries
  rw [List.filter_map]
  refine congrArg _ (List.filter_congr fun entry _ => ?_)
  simp [Path.same, Function.comp]

theorem keyEntries_eraseKey :
    (r.eraseKey key).keyEntries = r.keyEntries.filter fun e => e.1 ≠ key := by
  unfold eraseKey keyEntries
  rw [List.filter_map]
  rfl

end Edit

/-- A directory that is registered keeps its entry when it is written again. -/
theorem Coherent.insert_known (h : r.Coherent) (hkey : r.keyOf? dir = some key)
    (kinds : List EventKind) :
    (r.insert dir ⟨key, kinds⟩).dirEntries = r.dirEntries ∧
      (r.insert dir ⟨key, kinds⟩).keyEntries = r.keyEntries := by
  have hmem : (key, dir.components) ∈ r.keyEntries := h.keyOf?_iff.mp hkey
  constructor
  · have hany : (r.byDir.any fun entry => entry.1.same dir) = true := by
      obtain ⟨entry, hentry, heq⟩ := List.mem_map.mp (h.inverse ▸ hmem)
      exact List.any_eq_true.mpr ⟨entry, hentry, Path.same_iff.mpr (Prod.mk.inj heq).2⟩
    rw [dirEntries_insert]
    unfold setDir dirEntries
    rw [if_pos hany, List.map_map]
    refine List.map_congr_left fun entry hentry => ?_
    dsimp only [Function.comp]
    split
    · next hsame =>
      -- the entry is that of the directory, so it has the key already
      have hentry' : (entry.2.key, dir.components) ∈ r.keyEntries := by
        rw [← h.inverse, ← Path.same_iff.mp hsame]
        exact List.mem_map.mpr ⟨entry, hentry, rfl⟩
      rw [h.key_unique hmem hentry']
    · rfl
  · have hany : (r.byKey.any fun entry => entry.1 = key) = true := by
      obtain ⟨entry, hentry, heq⟩ := List.mem_map.mp hmem
      exact List.any_eq_true.mpr ⟨entry, hentry, decide_eq_true (Prod.mk.inj heq).1⟩
    rw [keyEntries_insert]
    unfold setKey keyEntries
    rw [if_pos hany, List.map_map]
    refine List.map_congr_left fun entry hentry => ?_
    dsimp only [Function.comp]
    split
    · next hsame =>
      have hentry' : (key, entry.2.components) ∈ r.keyEntries := by
        rw [← hsame]
        exact List.mem_map.mpr ⟨entry, hentry, rfl⟩
      rw [hsame, h.dir_unique hmem hentry']
    · rfl

/-- A directory and a key that are both new make one more entry. -/
theorem insert_new (hdir : ∀ k, (k, dir.components) ∉ r.dirEntries)
    (hkey : ∀ c, (key, c) ∉ r.keyEntries) (kinds : List EventKind) :
    (r.insert dir ⟨key, kinds⟩).dirEntries = r.dirEntries ++ [(key, dir.components)] ∧
      (r.insert dir ⟨key, kinds⟩).keyEntries = r.keyEntries ++ [(key, dir.components)] := by
  constructor
  · have hnone : ¬(r.byDir.any fun entry => entry.1.same dir) = true := by
      intro hany
      obtain ⟨entry, hentry, hsame⟩ := List.any_eq_true.mp hany
      refine hdir entry.2.key ?_
      rw [← Path.same_iff.mp hsame]
      exact List.mem_map.mpr ⟨entry, hentry, rfl⟩
    rw [dirEntries_insert]
    unfold setDir dirEntries
    rw [if_neg hnone, List.map_append]
    rfl
  · have hnone : ¬(r.byKey.any fun entry => entry.1 = key) = true := by
      intro hany
      obtain ⟨entry, hentry, hsame⟩ := List.any_eq_true.mp hany
      refine hkey entry.2.components ?_
      rw [← of_decide_eq_true hsame]
      exact List.mem_map.mpr ⟨entry, hentry, rfl⟩
    rw [keyEntries_insert]
    unfold setKey keyEntries
    rw [if_neg hnone, List.map_append]
    rfl

/-! ### What can happen to the entries -/

/-- The registries hold the same entries, whatever their spellings and kinds. -/
structure SameEntries (r r' : Registry) : Prop where
  dirs : r'.dirEntries = r.dirEntries
  keys : r'.keyEntries = r.keyEntries

/-- What an operation of a service does to its registry. -/
inductive Moved (r r' : Registry) : Prop
  | kept : SameEntries r r' → r'.nextKey = r.nextKey → Moved r r'
  /-- A key is drawn, and lost at once. -/
  | burnt : SameEntries r r' → r'.nextKey = r.nextKey + 1 → Moved r r'
  /-- A directory that is not registered gets the next key. -/
  | granted (c : List Component) : (∀ k, (k, c) ∉ r.keyEntries) →
      r'.dirEntries = r.dirEntries ++ [(⟨r.nextKey⟩, c)] →
      r'.keyEntries = r.keyEntries ++ [(⟨r.nextKey⟩, c)] → r'.nextKey = r.nextKey + 1 → Moved r r'
  /-- The registration of a key is cancelled. -/
  | cancelled (key : Key) : r'.dirEntries = r.dirEntries.filter (fun e => e.1 ≠ key) →
      r'.keyEntries = r.keyEntries.filter (fun e => e.1 ≠ key) → r'.nextKey = r.nextKey → Moved r r'
  | cleared : r'.dirEntries = [] → r'.keyEntries = [] → r'.nextKey = r.nextKey → Moved r r'

/-- The key that is drawn next is new. -/
theorem Coherent.next_new (h : r.Coherent) (c : List Component) :
    (⟨r.nextKey⟩, c) ∉ r.keyEntries :=
  fun hmem => Nat.lt_irrefl _ (h.drawn _ hmem)

theorem Moved.coherent (h : Moved r r') (hr : r.Coherent) : r'.Coherent := by
  -- either map is written as the other is, so only freshness is to be shown
  cases h with
  | kept hsame hnext =>
    refine ⟨by rw [hsame.dirs, hsame.keys, hr.inverse], hsame.keys ▸ hr.dirs, hsame.keys ▸ hr.keys,
      ?_⟩
    rw [hsame.keys, hnext]
    exact hr.drawn
  | burnt hsame hnext =>
    refine ⟨by rw [hsame.dirs, hsame.keys, hr.inverse], hsame.keys ▸ hr.dirs, hsame.keys ▸ hr.keys,
      fun e he => ?_⟩
    rw [hsame.keys] at he
    have hdrawn := hr.drawn e he
    omega
  | granted c hnew hdirs hkeys hnext =>
    -- a new entry has a key and a directory that no other has
    refine ⟨by rw [hdirs, hkeys, hr.inverse], ?_, ?_, fun e he => ?_⟩
    · rw [hkeys, List.map_append, List.map_singleton, ← List.concat_eq_append]
      refine hr.dirs.concat fun hmem => ?_
      obtain ⟨⟨k, c'⟩, hentry, rfl⟩ := List.mem_map.mp hmem
      exact hnew k hentry
    · rw [hkeys, List.map_append, List.map_singleton, ← List.concat_eq_append]
      refine hr.keys.concat fun hmem => ?_
      obtain ⟨⟨k, c'⟩, hentry, rfl⟩ := List.mem_map.mp hmem
      exact hr.next_new c' hentry
    · rw [hkeys] at he
      rcases List.mem_append.mp he with he | he
      · have hdrawn := hr.drawn e he
        omega
      · rw [List.mem_singleton.mp he, hnext]
        exact Nat.lt_succ_self _
  | cancelled key hdirs hkeys hnext =>
    -- fewer entries are distinct as all of them were
    refine ⟨by rw [hdirs, hkeys, hr.inverse], ?_, ?_, fun e he => ?_⟩
    · rw [hkeys]
      exact hr.dirs.sublist (List.filter_sublist.map _)
    · rw [hkeys]
      exact hr.keys.sublist (List.filter_sublist.map _)
    · rw [hkeys] at he
      rw [hnext]
      exact hr.drawn e (List.mem_of_mem_filter he)
  | cleared hdirs hkeys hnext =>
    refine ⟨hdirs.trans hkeys.symm, ?_, ?_, fun e he => ?_⟩
    · rw [hkeys]
      exact List.nodup_nil
    · rw [hkeys]
      exact List.nodup_nil
    · rw [hkeys] at he
      exact absurd he List.not_mem_nil

/-- At most one key is drawn. -/
theorem Moved.nextKey_le (h : Moved r r') : r'.nextKey ≤ r.nextKey + 1 := by
  cases h with
  | kept hsame hnext => omega
  | burnt hsame hnext => omega
  | granted c hnew hdirs hkeys hnext => omega
  | cancelled key hdirs hkeys hnext => omega
  | cleared hdirs hkeys hnext => omega

/-! ### What comes later -/

/-- A registry that came of another: what is registered in it was registered in the other,
or has a key that was not drawn by then. -/
structure Later (r r' : Registry) : Prop where
  counts : r.nextKey ≤ r'.nextKey
  born : ∀ e ∈ r'.keyEntries, e ∈ r.keyEntries ∨ r.nextKey ≤ e.1.id

theorem Later.refl (r : Registry) : Later r r := ⟨Nat.le_refl _, fun _ he => Or.inl he⟩

theorem Later.trans {r'' : Registry} (h : Later r r') (h' : Later r' r'') : Later r r'' := by
  refine ⟨Nat.le_trans h.counts h'.counts, fun e he => ?_⟩
  rcases h'.born e he with he | hlate
  · exact h.born e he
  · exact Or.inr (Nat.le_trans h.counts hlate)

theorem Moved.later (h : Moved r r') : Later r r' := by
  cases h with
  | kept hsame hnext => exact ⟨by omega, fun e he => Or.inl (hsame.keys ▸ he)⟩
  | burnt hsame hnext => exact ⟨by omega, fun e he => Or.inl (hsame.keys ▸ he)⟩
  | granted c hnew hdirs hkeys hnext =>
    refine ⟨by omega, fun e he => ?_⟩
    rw [hkeys] at he
    rcases List.mem_append.mp he with he | he
    · exact Or.inl he
    · rw [List.mem_singleton.mp he]
      exact Or.inr (Nat.le_refl _)
  | cancelled key hdirs hkeys hnext =>
    exact ⟨by omega, fun e he => Or.inl (List.mem_of_mem_filter (hkeys ▸ he))⟩
  | cleared hdirs hkeys hnext =>
    exact ⟨by omega, fun e he => absurd (hkeys ▸ he) List.not_mem_nil⟩

/-- A key that was drawn and leads nowhere never leads anywhere again. -/
theorem Later.lost (h : Later r r') (hdrawn : key.id < r.nextKey) (hnone : r.dirOf? key = none) :
    r'.dirOf? key = none := by
  rw [dirOf?_eq_none_iff] at hnone ⊢
  intro c hmem
  rcases h.born _ hmem with hbefore | hlate
  · exact hnone c hbefore
  · exact Nat.not_lt.mpr hlate hdrawn

/-- An entry of a key that was drawn is an old one. -/
theorem Later.mem_of_drawn (h : Later r r') {c : List Component} (hmem : (key, c) ∈ r'.keyEntries)
    (hdrawn : key.id < r.nextKey) : (key, c) ∈ r.keyEntries :=
  (h.born _ hmem).resolve_right (Nat.not_le.mpr hdrawn)

end Registry

end ChangeWatch
