import ChangeWatch.Proofs.Disk.Following
import ChangeWatch.Proofs.Path.Behind

/-!
# Going down by names from any path

A path that is `Filed` at a place leads to the directory there, if it is short enough to be
asked for; how it is spelled, and which links it passes, makes no difference.  A name behind
it then leads on to what stands in that directory under the name (`stat_child`), and so a
directory in it is filed where it stands (`Filed.child`).

Listing a filed path yields what stands at its place (`Filed.mem_listing`), every name once
(`Filed.nodup_listing`), and nothing at all when the path is too long.
-/

namespace ChangeWatch

theorem IsName.normal {n : Bytes} (h : IsName n) : Path.Normal n :=
  ⟨h.nonempty, h.not_dot, h.not_up, h.no_slash⟩

namespace Path

/-- A path is short enough to be asked for. -/
def Short (p : Path) : Prop :=
  p.bytes.length < Disk.pathLimit

instance (p : Path) : Decidable p.Short :=
  inferInstanceAs (Decidable (_ < _))

end Path

namespace Disk

open ChangeWatch.Path (Idle)

variable {d : Disk} {p : Path} {n : Bytes} {place top : Location} {e : Entry}

/-! ### A name behind a directory -/

/-- A name is followed to a directory that stands under it. -/
theorem follow_name {last : Bool} {tail : List Bytes} (hn : IsName n)
    (he : d.entry? (top ++ [n]) = some .dir) (htail : ∀ part ∈ tail, Idle part) (budget : Nat) :
    d.follow last budget top (n :: tail) = .found (top ++ [n]) .dir false := by
  cases budget <;> exact (followParts_enter hn.named he tail).trans (followParts_idle_end htail)

/-- What can be asked for is not empty, holds no zero byte and is short enough. -/
theorem unfit?_eq_none_iff :
    unfit? p = none ↔ (0 : UInt8) ∉ p.bytes ∧ p.bytes ≠ [] ∧ p.Short := by
  unfold unfit? Path.Short
  split
  · next hzero => exact iff_of_false (by simp) fun h => h.1 hzero
  · next hzero =>
    split
    · next hempty => exact iff_of_false (by simp) fun h => h.2.1 hempty
    · next hempty =>
      split
      · next hlong => exact iff_of_false (by simp) fun h => Nat.not_lt.mpr hlong h.2.2
      · next hlong => exact iff_of_true rfl ⟨hzero, hempty, Nat.not_le.mp hlong⟩

/-- A path that leads somewhere is fit to be asked for. -/
theorem fit_of_stat {found : Location × Entry} (h : d.stat p = .ok found) : unfit? p = none := by
  unfold stat resolve at h
  split at h
  · exact absurd h (by simp [Lookup.entry])
  · next hfit => exact hfit

theorem isDir_iff : d.isDir p = true ↔ ∃ top, d.stat p = .ok (top, .dir) := by
  unfold isDir
  split
  · next top hstat => exact iff_of_true rfl ⟨top, hstat⟩
  · next hnone => exact iff_of_false (by simp) fun ⟨top, hstat⟩ => hnone top hstat

/-- A path that is too long leads nowhere. -/
theorem stat_of_not_short (h : ¬ p.Short) : ∃ fault, d.stat p = .error fault := by
  cases hstat : d.stat p with
  | error fault => exact ⟨fault, rfl⟩
  | ok found => exact absurd (unfit?_eq_none_iff.mp (fit_of_stat hstat)).2.2 h

/-- A path that is written behind one to a directory leads on from that directory. -/
theorem stat_behind {q : Path} {last : Bytes} (h : p.Behind q last)
    (hstat : d.stat p = .ok (top, .dir)) (hfit : unfit? q = none) :
    ∃ left ≤ linkLimit, ∃ tail, (∀ part ∈ tail, Idle part) ∧
      d.stat q = (d.follow true left top (last :: tail)).entry := by
  obtain ⟨front, extra, middle, tail, hp, hq, hextra, hmiddle, htail⟩ := h.parts
  have hfound := Lookup.entry_eq_ok hstat
  unfold resolve at hfound
  rw [fit_of_stat hstat, hp] at hfound
  -- what is no step at the end of the one path, or between the parts of the other, is left out
  obtain ⟨left, hle, hleft⟩ :=
    follow_append (middle ++ last :: tail) ((follow_idle_iff hextra _ _ _).mp hfound)
  rw [follow_idle hmiddle] at hleft
  refine ⟨left, hle, tail, htail, ?_⟩
  unfold stat resolve
  rw [hfit, hq, h.absolute]
  exact congrArg Lookup.entry hleft

/-- A path that is written behind one that can be asked for can be asked for too, if it is short
enough. -/
theorem unfit?_behind {q : Path} {last : Bytes} (h : p.Behind q last) (hfit : unfit? p = none)
    (hne : last ≠ []) (hzero : (0 : UInt8) ∉ last) :
    unfit? q = if q.Short then none else some .nameTooLong := by
  have hzero' : (0 : UInt8) ∉ q.bytes := by
    intro hmem
    rcases h.mem hmem with hmem | hmem | hmem | hmem
    · exact (unfit?_eq_none_iff.mp hfit).1 hmem
    · exact hzero hmem
    · exact absurd hmem (by decide)
    · exact absurd hmem (by decide)
  have hempty : q.bytes ≠ [] := by
    intro hempty
    obtain ⟨x, hx⟩ := List.exists_mem_of_ne_nil last hne
    exact absurd (hempty ▸ h.subset hx) List.not_mem_nil
  split
  · next hshort => exact unfit?_eq_none_iff.mpr ⟨hzero', hempty, hshort⟩
  · next hlong =>
    unfold unfit?
    rw [if_neg hzero', if_neg hempty, if_pos (Nat.not_lt.mp hlong)]

/-- A path that is written behind one to a file leads to no directory. -/
theorem not_isDir_behind_file {q : Path} {last content : Bytes} (h : p.Behind q last)
    (hstat : d.stat p = .ok (top, .file content)) : d.isDir q = false := by
  refine Bool.eq_false_iff.mpr fun hdir => ?_
  obtain ⟨there, hthere⟩ := isDir_iff.mp hdir
  obtain ⟨front, extra, middle, tail, hp, hq, hextra, -, -⟩ := h.parts
  have hfile := Lookup.entry_eq_ok hstat
  have hfound := Lookup.entry_eq_ok hthere
  unfold resolve at hfile hfound
  rw [fit_of_stat hstat, hp] at hfile
  rw [fit_of_stat hthere, hq, h.absolute] at hfound
  exact follow_file hextra hfile hfound

/-- The system gives up on a path that is too long or passes too many links. -/
def GivesUp (d : Disk) (p : Path) : Prop :=
  d.stat p = .error .nameTooLong ∨ d.stat p = .error .tooManyLinks

/-- Two paths that are written with the same name behind paths to one directory lead to the same
directory, unless the system gives up on one of them. -/
theorem isDir_beside {p' q q' : Path} (h : p.Behind q n) (h' : p'.Behind q' n) (hne : n ≠ [])
    (hstat : d.stat p = .ok (top, .dir)) (hstat' : d.stat p' = .ok (top, .dir))
    (hdir : d.isDir q = true) : d.isDir q' = true ∨ d.GivesUp q' := by
  obtain ⟨there, hthere⟩ := isDir_iff.mp hdir
  have hzero : (0 : UInt8) ∉ n := fun hmem =>
    (unfit?_eq_none_iff.mp (fit_of_stat hthere)).1 (h.subset hmem)
  have hfit := unfit?_behind h' (fit_of_stat hstat') hne hzero
  split at hfit
  · -- the name leads there if enough links are left to pass
    obtain ⟨left, hle, tail, htail, heq⟩ := stat_behind h hstat (fit_of_stat hthere)
    have hfound := Lookup.entry_eq_ok (heq.symm.trans hthere)
    have hname : d.follow true linkLimit top [n] = .found there .dir false := by
      have hleft := (follow_idle_iff htail left top [n]).mp hfound
      rcases follow_less hle top [n] with hmany | hsame
      · exact absurd (hmany.symm.trans hleft) (by simp)
      · rw [← hsame, hleft]
    obtain ⟨left', hle', tail', htail', heq'⟩ := stat_behind h' hstat' hfit
    rcases follow_less hle' top (n :: tail') with hmany | hsame
    · rw [hmany] at heq'
      exact Or.inr (Or.inr heq')
    · have hall := (follow_idle_iff htail' linkLimit top [n]).mpr hname
      rw [hsame, List.singleton_append.symm, hall] at heq'
      exact Or.inl (isDir_iff.mpr ⟨there, heq'⟩)
  · refine Or.inr (Or.inl ?_)
    unfold stat resolve
    rw [hfit]
    rfl

/-- A name behind a path to a directory leads to the directory that stands there under it. -/
theorem stat_child (hstat : d.stat p = .ok (top, .dir)) (hn : IsName n)
    (he : d.entry? (top ++ [n]) = some .dir) (hshort : (p.child n).Short) :
    d.stat (p.child n) = .ok (top ++ [n], .dir) := by
  have hp := fit_of_stat hstat
  have hbehind := Path.behind_child (unfit?_eq_none_iff.mp hp).2.1 hn.normal
  have hfit := unfit?_behind hbehind hp hn.nonempty hn.no_zero
  rw [if_pos hshort] at hfit
  obtain ⟨left, -, tail, htail, heq⟩ := stat_behind hbehind hstat hfit
  rw [heq, follow_name hn he htail]
  rfl

/-! ### Filed paths -/

/-- A path is that of the directory at a place, if it is short enough to be asked for. -/
def Filed (d : Disk) (p : Path) (place : Location) : Prop :=
  p.Short → d.stat p = .ok (place, .dir)

/-- The path of a directory's place is filed there. -/
theorem InOrder.filed_toPath (h : d.InOrder) (he : d.entry? place = some .dir) :
    d.Filed place.toPath place :=
  h.stat_toPath (by simp) he

/-- What a directory lists, if it can be listed. -/
def listing (d : Disk) (p : Path) : List (Bytes × Entry) :=
  (d.readDir p).toOption.getD []

/-- A directory lists every name once. -/
theorem InOrder.nodup_children (h : d.InOrder) (place : Location) :
    (d.children place).Pairwise fun a b => a.1 ≠ b.1 := by
  have hplaces : d.entries.Pairwise fun a b => a.1 ≠ b.1 := List.pairwise_map.mp h.nodup
  refine List.pairwise_filterMap.mpr (hplaces.imp fun {a b} hne => ?_)
  rintro ⟨n, e⟩ hn ⟨m, e'⟩ hm rfl
  -- an entry that is listed stands in the directory, also when it is alone on the disk
  have hplace : ∀ {entry : Location × Entry} {k : Bytes} {e : Entry},
      (k, e) ∈ children ⟨[entry], []⟩ place → entry.1 = place ++ [k] := by
    intro entry k e hmem
    obtain ⟨_, hentry, hsome⟩ := List.mem_filterMap.mp hmem
    obtain rfl := List.mem_singleton.mp hentry
    dsimp only at hsome
    split at hsome
    · next name hlast =>
      split at hsome
      · next hdir =>
        obtain ⟨rfl, -⟩ := Prod.mk.inj (Option.some.inj hsome)
        rw [← hdir]
        exact (List.dropLast_append_getLast? _ hlast).symm
      · exact absurd hsome (by simp)
    · exact absurd hsome (by simp)
  have hleft := hplace (List.mem_filterMap.mpr ⟨_, List.mem_singleton_self _, hn⟩)
  have hright := hplace (List.mem_filterMap.mpr ⟨_, List.mem_singleton_self _, hm⟩)
  exact hne (hleft.trans hright.symm)

namespace Filed

theorem of_stat (h : d.stat p = .ok (place, .dir)) : d.Filed p place := fun _ => h

/-- A directory in the directory of a filed path is filed where it stands. -/
theorem child (h : d.Filed p place) (horder : d.InOrder) (hshort : p.Short)
    (he : d.entry? (place ++ [n]) = some .dir) : d.Filed (p.child n) (place ++ [n]) :=
  stat_child (h hshort) (horder.above he).1 he

theorem readDir (h : d.Filed p place) (hshort : p.Short) :
    d.readDir p = .ok (d.children place) := by
  unfold Disk.readDir
  rw [h hshort]

/-- A filed path that can be asked for lists what stands in its directory. -/
theorem mem_listing (h : d.Filed p place) (horder : d.InOrder) :
    (n, e) ∈ d.listing p ↔ p.Short ∧ d.entry? (place ++ [n]) = some e := by
  unfold Disk.listing
  by_cases hshort : p.Short
  · rw [h.readDir hshort, ← horder.mem_children]
    exact (and_iff_right hshort).symm
  · obtain ⟨fault, hfault⟩ := stat_of_not_short (d := d) hshort
    unfold Disk.readDir
    rw [hfault]
    exact ⟨fun hmem => absurd hmem List.not_mem_nil, fun hboth => absurd hboth.1 hshort⟩

/-- Every name is listed once. -/
theorem nodup_listing (h : d.Filed p place) (horder : d.InOrder) :
    (d.listing p).Pairwise fun a b => a.1 ≠ b.1 := by
  unfold Disk.listing
  by_cases hshort : p.Short
  · rw [h.readDir hshort]
    exact horder.nodup_children place
  · obtain ⟨fault, hfault⟩ := stat_of_not_short (d := d) hshort
    unfold Disk.readDir
    rw [hfault]
    exact .nil

end Filed

end Disk

end ChangeWatch
