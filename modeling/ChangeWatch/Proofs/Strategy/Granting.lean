import ChangeWatch.Proofs.Service.Steps
import Mathlib.Data.List.Basic
import Mathlib.Data.List.Nodup

/-!
# Sites that grant every registration

What is proved of a walk does not depend on which service it registers directories with.
`Granting` says what is asked of one: registering never fails and leaves the disk alone, what
was registered can be read off the site, and no two directories are given the same key.

A service in memory that refuses nothing is such a service (`granting_memory`).
-/

namespace ChangeWatch

/-- A registration that was accepted, and the key that was given for it. -/
structure Grant where
  dir : Path
  kinds : List EventKind
  key : Key
  deriving DecidableEq, Repr

/-- From a site that is `ready`, every registration is granted, and is then the last of the
`calls`; different directories have different keys. -/
structure Granting {σ : Type} [Site σ] (ready : σ → Prop) (calls : σ → List Grant) : Prop where
  grants : ∀ (dir : Path) (kinds : List EventKind) (s : σ), ready s → ∃ key s',
    Site.register dir kinds s = (.ok key, s') ∧ ready s' ∧ Site.disk s' = Site.disk s ∧
      calls s' = calls s ++ [⟨dir, kinds, key⟩]
  distinct : ∀ s, ready s → ∀ a ∈ calls s, ∀ b ∈ calls s, a.key = b.key → a.dir.same b.dir = true

namespace MemoryService

/-- The registrations accepted so far, with their keys. -/
def grants (s : MemoryService) : List Grant :=
  s.accepted.filterMap fun entry => (s.keyOf? entry.1).map (⟨entry.1, entry.2, ·⟩)

/-- A service that refuses nothing and counts its keys up. -/
structure Counting (s : MemoryService) : Prop where
  obliging : s.Obliging
  known : ∀ entry ∈ s.accepted, (s.keyOf? entry.1).isSome = true
  below : ∀ entry ∈ s.dirs, entry.2.id < s.nextKey
  unique : (s.dirs.map (·.2)).Nodup

variable {s s' : MemoryService} {dir : Path} {key : Key} {kinds : List EventKind}

theorem counting_new {faults : Faults} (hrefused : faults.refused = [])
    (hvanishing : faults.vanishing = []) : (new faults).Counting :=
  ⟨⟨rfl, hrefused, hvanishing⟩, fun _ h => absurd h List.not_mem_nil,
    fun _ h => absurd h List.not_mem_nil, List.nodup_nil⟩

theorem Obliging.register_accepts (h : s.Obliging) (disk : Disk) (dir : Path)
    (kinds : List EventKind) : ∃ key s', s.register disk dir kinds = (.ok key, s', disk) ∧
      Registers s dir key s' ∧ s'.accepted = s.accepted ++ [(dir, kinds)] := by
  obtain ⟨key, s', hregister, hregisters⟩ := h.register disk dir kinds
  refine ⟨key, s', hregister, hregisters, ?_⟩
  unfold MemoryService.register at hregister
  rw [if_neg (by rw [h.running]; simp), h.refused, List.find?_nil] at hregister
  dsimp only at hregister
  split at hregister <;>
  · obtain ⟨-, hrest⟩ := Prod.mk.inj hregister
    rw [← (Prod.mk.inj hrest).1]

/-- The directories of one key are the same. -/
theorem Counting.same_of_keyOf? (h : s.Counting) {p q : Path} (hp : s.keyOf? p = some key)
    (hq : s.keyOf? q = some key) : p.same q = true := by
  obtain ⟨a, ha, hakey⟩ := Option.map_eq_some_iff.mp hp
  obtain ⟨b, hb, hbkey⟩ := Option.map_eq_some_iff.mp hq
  obtain rfl : a = b := List.inj_on_of_nodup_map h.unique (List.mem_of_find?_eq_some ha)
    (List.mem_of_find?_eq_some hb) (hakey.trans hbkey.symm)
  have hap := List.find?_some ha
  have haq := List.find?_some hb
  unfold Path.same at hap haq ⊢
  rw [decide_eq_true_iff] at hap haq ⊢
  exact hap.symm.trans haq

/-- What was registered before keeps its keys. -/
theorem Counting.keyOf?_registers (h : s.Counting) (hregisters : Registers s dir key s') :
    ∀ entry ∈ s.accepted, s'.keyOf? entry.1 = s.keyOf? entry.1 := by
  intro entry hentry
  obtain ⟨k, hk⟩ := Option.isSome_iff_exists.mp (h.known entry hentry)
  rw [hk]
  exact hregisters.kept hk

theorem Counting.registers (h : s.Counting) (hregisters : Registers s dir key s')
    (haccepted : s'.accepted = s.accepted ++ [(dir, kinds)]) : s'.Counting := by
  refine ⟨hregisters.obliging h.obliging, ?_, ?_, ?_⟩
  · rw [haccepted]
    intro entry hentry
    rcases List.mem_append.mp hentry with hentry | hentry
    · rw [h.keyOf?_registers hregisters entry hentry]
      exact h.known entry hentry
    · obtain rfl := List.mem_singleton.mp hentry
      exact Option.isSome_of_mem hregisters.known
  · cases hregisters with
    | again => exact h.below
    | anew =>
      intro entry hentry
      rcases List.mem_append.mp hentry with hentry | hentry
      · exact Nat.lt_succ_of_lt (h.below entry hentry)
      · rw [List.mem_singleton.mp hentry]
        exact Nat.lt_succ_self _
  · cases hregisters with
    | again => exact h.unique
    | anew =>
      show ((s.dirs ++ [(dir, Key.mk s.nextKey)]).map (·.2)).Nodup
      rw [List.map_append, List.nodup_append]
      refine ⟨h.unique, List.nodup_singleton _, fun a ha b hb heq => ?_⟩
      -- the new key is above all others
      obtain ⟨entry, hentry, rfl⟩ := List.mem_map.mp ha
      have hless := h.below entry hentry
      rw [heq, List.mem_singleton.mp hb] at hless
      exact absurd hless (Nat.lt_irrefl _)

theorem Counting.grants_registers (h : s.Counting) (hregisters : Registers s dir key s')
    (haccepted : s'.accepted = s.accepted ++ [(dir, kinds)]) :
    s'.grants = s.grants ++ [⟨dir, kinds, key⟩] := by
  have hknown : s'.keyOf? dir = some key := hregisters.known
  have hlast : [(dir, kinds)].filterMap (fun entry =>
      (s'.keyOf? entry.1).map (Grant.mk entry.1 entry.2)) = [⟨dir, kinds, key⟩] := by
    simp [hknown]
  unfold grants
  rw [haccepted, List.filterMap_append, hlast]
  refine congrArg (· ++ _) (List.filterMap_congr fun entry hentry => ?_)
  rw [h.keyOf?_registers hregisters entry hentry]

theorem Counting.register (h : s.Counting) (disk : Disk) (dir : Path) (kinds : List EventKind) :
    ∃ key s', s.register disk dir kinds = (.ok key, s', disk) ∧ s'.Counting ∧
      s'.grants = s.grants ++ [⟨dir, kinds, key⟩] := by
  obtain ⟨key, s', hregister, hregisters, haccepted⟩ := h.obliging.register_accepts disk dir kinds
  exact ⟨key, s', hregister, h.registers hregisters haccepted,
    h.grants_registers hregisters haccepted⟩

end MemoryService

/-- A ground with a service in memory that refuses nothing. -/
def Ground.Counting (g : Ground) : Prop :=
  ∃ s, g.service = .memory s ∧ s.Counting

/-- The registrations that the service of a ground has accepted. -/
def Ground.grants (g : Ground) : List Grant :=
  match g.service with
  | .memory s => s.grants
  | .notifying _ => []

theorem granting_memory : Granting Ground.Counting Ground.grants where
  grants dir kinds g hg := by
    obtain ⟨service, disk⟩ := g
    obtain ⟨s, rfl, hs⟩ := hg
    obtain ⟨key, s', hregister, hs', hgrants⟩ := hs.register disk dir kinds
    refine ⟨key, ⟨.memory s', disk⟩, ?_, ⟨s', rfl, hs'⟩, rfl, hgrants⟩
    simp only [Site.register, Service.register, hregister]
  distinct g hg a ha b hb hkey := by
    obtain ⟨service, disk⟩ := g
    obtain ⟨s, rfl, hs⟩ := hg
    obtain ⟨⟨p, kinds⟩, -, hp⟩ := List.mem_filterMap.mp ha
    obtain ⟨⟨q, kinds'⟩, -, hq⟩ := List.mem_filterMap.mp hb
    obtain ⟨k, hpkey, rfl⟩ := Option.map_eq_some_iff.mp hp
    obtain ⟨k', hqkey, rfl⟩ := Option.map_eq_some_iff.mp hq
    obtain rfl : k = k' := hkey
    exact hs.same_of_keyOf? hpkey hqkey

end ChangeWatch
