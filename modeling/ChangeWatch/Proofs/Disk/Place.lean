import ChangeWatch.Disk.Edit
import Mathlib.Data.List.Basic
import Mathlib.Data.List.Induction

/-!
# Places and their paths

`Location.toPath` writes a place as an absolute path without links and dots.
For places made of proper names (`IsName`) nothing is lost in it: the parts of
the path are the names (`parts_toPath`), a child is written as the path of the
place below (`child_toPath`), and two such paths are the same only if the places
are (`same_toPath`).

On a disk in order (`Disk.InOrder`, which can be computed) every entry stands under a
proper name in a directory, and under that name alone.  There the path of a place leads to the
place, unless it is too long to be asked for (`stat_toPath`, `isDir_toPath_iff`), and what is
below a place are its children (`mem_children`).  Putting one more entry at a free name of a
directory keeps a disk in order (`InOrder.put`) and what stands on it (`grown_put`).
-/

namespace ChangeWatch

/-- What the name of an entry is like. -/
structure IsName (n : Bytes) : Prop where
  nonempty : n ≠ []
  not_dot : n ≠ [Path.dot]
  not_up : n ≠ [Path.dot, Path.dot]
  no_slash : Path.slash ∉ n
  no_zero : (0 : UInt8) ∉ n
  short : n.length ≤ Disk.nameLimit

theorem isName_iff {n : Bytes} : IsName n ↔ n ≠ [] ∧ n ≠ [Path.dot] ∧ n ≠ [Path.dot, Path.dot] ∧
    Path.slash ∉ n ∧ (0 : UInt8) ∉ n ∧ n.length ≤ Disk.nameLimit :=
  ⟨fun h => ⟨h.1, h.2, h.3, h.4, h.5, h.6⟩,
    fun ⟨h₁, h₂, h₃, h₄, h₅, h₆⟩ => ⟨h₁, h₂, h₃, h₄, h₅, h₆⟩⟩

instance (n : Bytes) : Decidable (IsName n) := decidable_of_iff _ isName_iff.symm

/-! ### The path of a place -/

namespace Location

/-- A path is short enough to be asked for. -/
def Short (place : Location) : Prop :=
  place.toPath.bytes.length < Disk.pathLimit

instance (place : Location) : Decidable place.Short :=
  inferInstanceAs (Decidable (_ < _))

theorem isAbsolute_toPath (place : Location) : place.toPath.isAbsolute = true := by
  simp [toPath, Path.isAbsolute]

/-- The parts of the path of a place: nothing before the first slash, then the names. -/
theorem parts_toPath {place : Location} (hne : place ≠ []) (hn : ∀ n ∈ place, IsName n) :
    place.toPath.parts = [] :: place := by
  have hjoin : place.toPath.bytes = [Path.slash].intercalate ([] :: place) := by
    rw [List.intercalate_cons_of_ne_nil hne]
    rfl
  unfold Path.parts
  rw [hjoin, List.splitOn_intercalate _ _ (by simp)]
  -- no name has a slash in it, so splitting undoes the join
  intro n hmem
  rcases List.mem_cons.mp hmem with rfl | hmem
  · exact List.not_mem_nil
  · exact (hn n hmem).no_slash

theorem parts_toPath_root : toPath ([] : Location) = ⟨[Path.slash]⟩ ∧
    (toPath ([] : Location)).parts = [[], []] := by
  constructor <;> decide

theorem innerComponent_name {n : Bytes} (h : IsName n) :
    Path.innerComponent n = some (.name n) := by
  unfold Path.innerComponent
  rw [if_neg (not_or.mpr ⟨h.nonempty, h.not_dot⟩), if_neg h.not_up]

theorem filterMap_innerComponent {names : List Bytes} (hn : ∀ n ∈ names, IsName n) :
    names.filterMap Path.innerComponent = names.map .name := by
  induction names with
  | nil => rfl
  | cons n rest ih =>
    rw [List.filterMap_cons_some (innerComponent_name (hn n List.mem_cons_self)),
      ih fun m hm => hn m (List.mem_cons_of_mem _ hm)]
    rfl

/-- The components of the path of a place: the root, then the names. -/
theorem components_toPath {place : Location} (hn : ∀ n ∈ place, IsName n) :
    place.toPath.components = .root :: place.map .name := by
  unfold Path.components
  rw [if_pos (isAbsolute_toPath place)]
  by_cases hne : place = []
  · subst hne
    rw [parts_toPath_root.2]
    rfl
  · rw [parts_toPath hne hn, List.tail_cons, filterMap_innerComponent hn]

/-- Two places have the same path only if they are one. -/
theorem same_toPath {a b : Location} (ha : ∀ n ∈ a, IsName n) (hb : ∀ n ∈ b, IsName n) :
    a.toPath.same b.toPath = true ↔ a = b := by
  unfold Path.same
  rw [decide_eq_true_iff, components_toPath ha, components_toPath hb]
  constructor
  · intro h
    have hmap := (List.cons.inj h).2
    exact List.map_injective_iff.mpr (fun x y hxy => by injection hxy) hmap
  · rintro rfl
    rfl

theorem toPath_injective {a b : Location} (ha : ∀ n ∈ a, IsName n) (hb : ∀ n ∈ b, IsName n)
    (h : a.toPath = b.toPath) : a = b := by
  apply (same_toPath ha hb).mp
  rw [h]
  simp [Path.same]

/-- The path of a place below ends in the name after a slash. -/
theorem bytes_toPath_concat {place : Location} (hne : place ≠ []) (n : Bytes) :
    (toPath (place ++ [n])).bytes = place.toPath.bytes ++ Path.slash :: n := by
  have hsplit : [Path.slash].intercalate (place ++ [n]) =
      [Path.slash].intercalate place ++ Path.slash :: n := by
    induction place with
    | nil => exact absurd rfl hne
    | cons a rest ih =>
      by_cases hrest : rest = []
      · subst hrest
        simp [List.intercalate_cons_cons]
      · rw [List.cons_append, List.intercalate_cons_of_ne_nil (by simp),
          List.intercalate_cons_of_ne_nil hrest, ih hrest]
        simp
  show Path.slash :: [Path.slash].intercalate (place ++ [n]) = _
  rw [hsplit]
  rfl

/-- The last byte of the path of a place is no slash, except at the root. -/
theorem getLast?_toPath {place : Location} (hne : place ≠ []) (hn : ∀ n ∈ place, IsName n) :
    place.toPath.bytes.getLast? ≠ some Path.slash := by
  obtain ⟨front, n, rfl⟩ : ∃ front n, place = front ++ [n] :=
    ⟨place.dropLast, place.getLast hne, (List.dropLast_concat_getLast hne).symm⟩
  have hname : IsName n := hn n (by simp)
  have hlast : (toPath (front ++ [n])).bytes.getLast? = n.getLast? := by
    by_cases hf : front = []
    · subst hf
      show (Path.slash :: [Path.slash].intercalate [n]).getLast? = n.getLast?
      rw [List.intercalate_singleton, List.getLast?_cons, List.getLast?_eq_some_getLast hname.nonempty]
      rfl
    · rw [bytes_toPath_concat hf, List.getLast?_append_of_ne_nil _ (by simp), List.getLast?_cons,
        List.getLast?_eq_some_getLast hname.nonempty]
      rfl
  rw [hlast]
  intro h
  exact hname.no_slash (List.mem_of_getLast? h)

/-- A child is written as the place below is. -/
theorem child_toPath {place : Location} {n : Bytes} (hn : ∀ m ∈ place, IsName m) (h : IsName n) :
    place.toPath.child n = toPath (place ++ [n]) := by
  have hrel : Path.isAbsolute ⟨n⟩ = false := by
    unfold Path.isAbsolute
    rw [decide_eq_false_iff_not]
    intro hhead
    exact h.no_slash (List.mem_of_head? hhead)
  unfold Path.child Path.join
  rw [hrel, if_neg (by simp)]
  by_cases hne : place = []
  · subst hne
    rw [parts_toPath_root.1]
    simp [toPath, List.intercalate_singleton]
  · have hbytes : place.toPath.bytes ≠ [] := by simp [toPath]
    rw [if_neg (not_or.mpr ⟨hbytes, getLast?_toPath hne hn⟩)]
    exact congrArg Path.mk (bytes_toPath_concat hne n).symm

theorem foldl_child_toPath {place : Location} {names : List Bytes} (hn : ∀ m ∈ place, IsName m)
    (h : ∀ m ∈ names, IsName m) :
    names.foldl Path.child place.toPath = toPath (place ++ names) := by
  induction names generalizing place with
  | nil => rw [List.append_nil, List.foldl_nil]
  | cons n rest ih =>
    have hname : IsName n := h n List.mem_cons_self
    have hplace : ∀ m ∈ place ++ [n], IsName m :=
      List.forall_mem_append.mpr ⟨hn, List.forall_mem_singleton.mpr hname⟩
    rw [List.foldl_cons, child_toPath hn hname,
      ih hplace fun m hm => h m (List.mem_cons_of_mem _ hm), List.append_assoc]
    rfl

/-- A place above has a shorter path. -/
theorem Short.of_append {place below : Location} (h : Short (place ++ below)) : Short place := by
  induction below using List.reverseRecOn generalizing place with
  | nil => rwa [List.append_nil] at h
  | append_singleton front n ih =>
    apply ih
    rw [← List.append_assoc] at h
    unfold Short at h ⊢
    by_cases hne : place ++ front = []
    · rw [hne, parts_toPath_root.1]
      decide
    · rw [bytes_toPath_concat hne, List.length_append] at h
      omega

theorem zero_not_mem_toPath {place : Location} (hn : ∀ n ∈ place, IsName n) :
    (0 : UInt8) ∉ place.toPath.bytes := by
  induction place using List.reverseRecOn with
  | nil => rw [parts_toPath_root.1]; decide
  | append_singleton front n ih =>
    have hname : IsName n := hn n (by simp)
    have hfront : ∀ m ∈ front, IsName m := fun m hm => hn m (List.mem_append_left _ hm)
    by_cases hne : front = []
    · subst hne
      have hbytes : (toPath ([] ++ [n])).bytes = Path.slash :: n := by
        simp [toPath, List.intercalate_singleton]
      rw [hbytes, List.mem_cons, not_or]
      exact ⟨by decide, hname.no_zero⟩
    · rw [bytes_toPath_concat hne, List.mem_append, List.mem_cons, not_or, not_or]
      exact ⟨ih hfront, by decide, hname.no_zero⟩

end Location

/-! ### Disks in order -/

namespace Disk

/-- Every entry stands under a proper name in a directory, and under that name
alone. -/
structure InOrder (d : Disk) : Prop where
  nodup : (d.entries.map (·.1)).Nodup
  placed : ∀ place e, (place, e) ∈ d.entries →
    ∃ dir n, place = dir ++ [n] ∧ IsName n ∧ d.entry? dir = some .dir

variable {d : Disk}

theorem inOrder_iff : d.InOrder ↔ (d.entries.map (·.1)).Nodup ∧ ∀ entry ∈ d.entries,
    ∃ n ∈ entry.1.getLast?, IsName n ∧ d.entry? entry.1.dropLast = some .dir := by
  constructor
  · rintro ⟨hnodup, hplaced⟩
    refine ⟨hnodup, fun entry hentry => ?_⟩
    obtain ⟨dir, n, hplace, hname, hdir⟩ := hplaced entry.1 entry.2 hentry
    refine ⟨n, ?_, hname, ?_⟩
    · rw [hplace]
      exact Option.mem_def.mpr List.getLast?_concat
    · rwa [hplace, List.dropLast_concat]
  · rintro ⟨hnodup, hplaced⟩
    refine ⟨hnodup, fun place e hentry => ?_⟩
    obtain ⟨n, hlast, hname, hdir⟩ := hplaced (place, e) hentry
    exact ⟨place.dropLast, n, (List.dropLast_append_getLast? n hlast).symm, hname, hdir⟩

instance (d : Disk) : Decidable d.InOrder := decidable_of_iff _ inOrder_iff.symm

theorem entry?_of_ne_nil {place : Location} (h : place ≠ []) :
    d.entry? place = d.entries.lookup place := by
  unfold entry?
  rw [if_neg h]

theorem mem_entries_of_some {place : Location} {e : Entry} (hne : place ≠ [])
    (h : d.entry? place = some e) : (place, e) ∈ d.entries := by
  rw [entry?_of_ne_nil hne] at h
  obtain ⟨front, back, hsplit, -⟩ := List.lookup_eq_some_iff.mp h
  rw [hsplit]
  simp

namespace InOrder

theorem entry?_of_mem (h : d.InOrder) {place : Location} {e : Entry}
    (hmem : (place, e) ∈ d.entries) : d.entry? place = some e := by
  obtain ⟨dir, n, rfl, -, -⟩ := h.placed place e hmem
  rw [entry?_of_ne_nil (by simp), List.lookup_eq_some_iff]
  obtain ⟨front, back, hsplit⟩ := List.append_of_mem hmem
  refine ⟨front, back, hsplit, ?_⟩
  intro p hp
  have hnodup := h.nodup
  rw [hsplit, List.map_append, List.map_cons, List.nodup_append] at hnodup
  have hne := hnodup.2.2 p.1 (List.mem_map_of_mem hp) (dir ++ [n]) List.mem_cons_self
  simpa using fun heq => hne heq.symm

/-- What stands below something stands in a directory under a proper name. -/
theorem above (h : d.InOrder) {dir : Location} {n : Bytes} {e : Entry}
    (he : d.entry? (dir ++ [n]) = some e) : IsName n ∧ d.entry? dir = some .dir := by
  obtain ⟨dir', n', heq, hname, hdir⟩ := h.placed _ e (mem_entries_of_some (by simp) he)
  obtain ⟨rfl, hn⟩ := List.append_inj' heq rfl
  obtain rfl := List.singleton_inj.mp hn
  exact ⟨hname, hdir⟩

/-- Whatever is above something else is a directory. -/
theorem dir_of_append (h : d.InOrder) {dir below : Location} {e : Entry} (hne : below ≠ [])
    (he : d.entry? (dir ++ below) = some e) : d.entry? dir = some .dir := by
  induction below using List.reverseRecOn generalizing e with
  | nil => exact absurd rfl hne
  | append_singleton front n ih =>
    rw [← List.append_assoc] at he
    have hfront := (h.above he).2
    by_cases hf : front = []
    · rwa [hf, List.append_nil] at hfront
    · exact ih hf hfront

/-- Where something stands, all names on the way are proper. -/
theorem names (h : d.InOrder) {place : Location} {e : Entry} (he : d.entry? place = some e) :
    ∀ n ∈ place, IsName n := by
  induction place using List.reverseRecOn generalizing e with
  | nil => intro n hn; exact absurd hn List.not_mem_nil
  | append_singleton front m ih =>
    obtain ⟨hm, hfront⟩ := h.above he
    intro n hn
    rcases List.mem_append.mp hn with hn | hn
    · exact ih hfront n hn
    · rwa [List.mem_singleton.mp hn]

/-! ### The path of a place leads to it -/

/-- Following proper names from a directory leads to where they stand. -/
theorem followParts_names (h : d.InOrder) (last : Bool) (pass : Location → List Bytes → Lookup)
    {e : Entry} (hlink : ∀ target, e = .link target → last = false) :
    ∀ (names : List Bytes) (dir : Location), d.entry? dir = some .dir →
      d.entry? (dir ++ names) = some e →
      d.followParts last pass dir names = .found (dir ++ names) e false := by
  intro names
  induction names with
  | nil =>
    intro dir hdir he
    rw [List.append_nil, hdir] at he
    obtain rfl := Option.some.inj he
    rw [List.append_nil]
    rfl
  | cons n rest ih =>
    intro dir _ he
    have hname : IsName n := h.names he n (by simp)
    have hsplit : dir ++ n :: rest = (dir ++ [n]) ++ rest := by simp
    rw [hsplit] at he ⊢
    rw [followParts, if_neg (not_or.mpr ⟨hname.nonempty, hname.not_dot⟩), if_neg hname.not_up,
      if_neg (Nat.not_lt.mpr hname.short)]
    by_cases hrest : rest = []
    · subst hrest
      rw [List.append_nil] at he ⊢
      rw [he]
      cases e with
      | dir => simp only [followParts]
      | file content => simp
      | link target => simp [hlink target rfl]
    · -- something stands further below, so this is a directory, and no link to follow
      have hdir := h.dir_of_append hrest he
      rw [hdir]
      exact ih _ hdir he

theorem unfit?_toPath {place : Location} (hn : ∀ n ∈ place, IsName n) (hs : place.Short) :
    unfit? place.toPath = none := by
  unfold unfit?
  rw [if_neg (Location.zero_not_mem_toPath hn), if_neg (by simp [Location.toPath]),
    if_neg (Nat.not_le.mpr hs)]

theorem unfit?_toPath_of_long {place : Location} (hn : ∀ n ∈ place, IsName n)
    (hs : ¬ place.Short) : unfit? place.toPath = some .nameTooLong := by
  unfold unfit?
  rw [if_neg (Location.zero_not_mem_toPath hn), if_neg (by simp [Location.toPath]),
    if_pos (Nat.not_lt.mp hs)]

/-- A path that is too long is refused. -/
theorem stat_of_long {place : Location} (hn : ∀ n ∈ place, IsName n) (hs : ¬ place.Short) :
    d.stat place.toPath = .error .nameTooLong ∧ d.lstat place.toPath = .error .nameTooLong := by
  unfold stat lstat resolve
  rw [unfit?_toPath_of_long hn hs]
  exact ⟨rfl, rfl⟩

/-- Resolving the path of a place leads to what stands there. -/
theorem resolve_toPath (h : d.InOrder) {place : Location} {e : Entry} {last : Bool}
    (hlink : ∀ target, e = .link target → last = false) (he : d.entry? place = some e)
    (hs : place.Short) :
    d.resolve last place.toPath place.toPath.parts = .found place e false := by
  have hn := h.names he
  unfold resolve
  rw [unfit?_toPath hn hs]
  dsimp only
  rw [if_pos (Location.isAbsolute_toPath place)]
  -- no link is met, so one round of following is enough
  have hfollow : d.follow last linkLimit = d.followParts last (d.follow last 39) := rfl
  rw [hfollow]
  by_cases hne : place = []
  · subst hne
    obtain rfl := Option.some.inj he
    rw [Location.parts_toPath_root.2]
    simp only [followParts, true_or, if_true]
  · rw [Location.parts_toPath hne hn, followParts, if_pos (Or.inl rfl)]
    exact h.followParts_names last _ hlink place [] rfl he

/-- The path of a place leads to what stands there, if that is no link. -/
theorem stat_toPath (h : d.InOrder) {place : Location} {e : Entry}
    (hlink : ∀ target, e ≠ .link target) (he : d.entry? place = some e) (hs : place.Short) :
    d.stat place.toPath = .ok (place, e) := by
  unfold stat
  rw [h.resolve_toPath (fun target heq => absurd heq (hlink target)) he hs]
  rfl

/-- Without following a link at its end, the path of a place leads to what stands
there. -/
theorem lstat_toPath (h : d.InOrder) {place : Location} {e : Entry}
    (he : d.entry? place = some e) (hs : place.Short) :
    d.lstat place.toPath = .ok (place, e) := by
  unfold lstat
  rw [h.resolve_toPath (fun _ _ => rfl) he hs]
  rfl

theorem isDir_toPath (h : d.InOrder) {place : Location} (he : d.entry? place = some .dir)
    (hs : place.Short) : d.isDir place.toPath = true := by
  unfold isDir
  rw [h.stat_toPath (by simp) he hs]

/-- The path of what is no link leads to a directory exactly if it is one, and the path
is not too long to be asked for. -/
theorem isDir_toPath_iff (h : d.InOrder) {place : Location} {e : Entry}
    (hlink : ∀ target, e ≠ .link target) (he : d.entry? place = some e) :
    d.isDir place.toPath = true ↔ e = .dir ∧ place.Short := by
  by_cases hs : place.Short
  · unfold isDir
    rw [h.stat_toPath hlink he hs]
    cases e with
    | dir => simp [hs]
    | file content => simp
    | link target => exact absurd rfl (hlink target)
  · unfold isDir
    rw [(stat_of_long (h.names he) hs).1]
    simp [hs]

/-- The children of a directory are what stands right below it. -/
theorem mem_children (h : d.InOrder) {place : Location} {n : Bytes} {e : Entry} :
    (n, e) ∈ d.children place ↔ d.entry? (place ++ [n]) = some e := by
  unfold children
  rw [List.mem_filterMap]
  constructor
  · rintro ⟨⟨loc, e'⟩, hmem, hsome⟩
    obtain ⟨dir, m, rfl, -, -⟩ := h.placed loc e' hmem
    simp only [List.getLast?_append, List.getLast?_singleton, Option.or, List.dropLast_concat]
      at hsome
    split at hsome
    · next heq =>
      obtain ⟨rfl, rfl⟩ := Prod.mk.inj (Option.some.inj hsome)
      rw [← heq]
      exact h.entry?_of_mem hmem
    · exact absurd hsome (by simp)
  · intro he
    refine ⟨(place ++ [n], e), mem_entries_of_some (by simp) he, ?_⟩
    simp

end InOrder

/-! ### One more entry -/

/-- Whatever stands on a disk stands on another one too. -/
def Grown (d d' : Disk) : Prop :=
  ∀ place e, d.entry? place = some e → d'.entry? place = some e

theorem Grown.refl (d : Disk) : d.Grown d := fun _ _ h => h

/-- With one more entry a free place is taken, and all else stands as before. -/
theorem entry?_put {dir place : Location} {n : Bytes} {e : Entry}
    (hfree : d.entry? (dir ++ [n]) = none) :
    Disk.entry? (d.put (dir ++ [n]) e) place =
      if place = dir ++ [n] then some e else d.entry? place := by
  by_cases hroot : place = []
  · subst hroot
    rw [if_neg (by simp)]
    rfl
  · rw [entry?_of_ne_nil hroot, entry?_of_ne_nil hroot]
    rw [entry?_of_ne_nil (by simp)] at hfree
    show (d.entries ++ [(dir ++ [n], e)]).lookup place = _
    rw [List.lookup_append]
    by_cases hp : place = dir ++ [n]
    · rw [if_pos hp, hp, hfree, Option.none_or, List.lookup_cons_self]
    · have hnot : List.lookup place [(dir ++ [n], e)] = none := by
        simp [hp]
      rw [if_neg hp, hnot, Option.or_none]

/-- What stands somewhere still stands there after one more entry was put. -/
theorem entry?_put_of_some {dir place : Location} {n : Bytes} {e e' : Entry}
    (hfree : d.entry? (dir ++ [n]) = none) (h : d.entry? place = some e') :
    Disk.entry? (d.put (dir ++ [n]) e) place = some e' := by
  rw [entry?_put hfree, if_neg ?_, h]
  rintro rfl
  rw [hfree] at h
  exact absurd h (by simp)

theorem grown_put {dir : Location} {n : Bytes} {e : Entry}
    (hfree : d.entry? (dir ++ [n]) = none) : d.Grown (d.put (dir ++ [n]) e) :=
  fun _ _ h => entry?_put_of_some hfree h

theorem InOrder.put (h : d.InOrder) {dir : Location} {n : Bytes} {e : Entry}
    (hdir : d.entry? dir = some .dir) (hfree : d.entry? (dir ++ [n]) = none) (hn : IsName n) :
    (d.put (dir ++ [n]) e).InOrder := by
  constructor
  · show ((d.entries ++ [(dir ++ [n], e)]).map (·.1)).Nodup
    rw [List.map_append, List.nodup_append]
    refine ⟨h.nodup, by simp, ?_⟩
    intro a ha b hb hab
    obtain rfl := List.mem_singleton.mp hb
    obtain ⟨⟨loc, e'⟩, hmem, rfl⟩ := List.mem_map.mp ha
    have hsome := h.entry?_of_mem hmem
    dsimp only at hab
    rw [hab, hfree] at hsome
    exact absurd hsome (by simp)
  · intro place e' hmem
    rcases List.mem_append.mp hmem with hmem | hmem
    · obtain ⟨dir', n', rfl, hn', hdir'⟩ := h.placed place e' hmem
      exact ⟨dir', n', rfl, hn', entry?_put_of_some hfree hdir'⟩
    · obtain ⟨rfl, rfl⟩ := Prod.mk.inj (List.mem_singleton.mp hmem)
      exact ⟨dir, n, rfl, hn, entry?_put_of_some hfree hdir⟩

end Disk

end ChangeWatch
