import ChangeWatch.Proofs.Disk.Place
import ChangeWatch.Proofs.Path

/-!
# Paths that pass links

`Proofs.Disk.Place` is about paths that meet no link.  Here any number may be met on
the way.  What the first of some parts comes to is said once (`step`): it moves on, or it is
a link, or the lookup ends there.  All else is by induction on the parts, and on the links that
may be passed.

On a disk in order a lookup ends where something stands, or at a free name of a directory
(`InOrder.follow_stands`).  Where a path leads to a directory, a longer path goes on from that
very directory (`follow_append`), whatever links were passed to come there; so the names behind
it lead to what stands below it (`InOrder.stat_below`).  Parts that are empty or a dot make no
difference (`follow_idle`, `follow_idle_iff`).

A path that is a directory without a link at its end being followed is the same
directory when links are followed (`stat_of_lstat`).
-/

namespace ChangeWatch

/-- A part of a path that is looked for as a name. -/
structure Named (part : Bytes) : Prop where
  nonempty : part ≠ []
  not_dot : part ≠ [Path.dot]
  not_up : part ≠ [Path.dot, Path.dot]
  short : part.length ≤ Disk.nameLimit

theorem IsName.named {n : Bytes} (h : IsName n) : Named n :=
  ⟨h.nonempty, h.not_dot, h.not_up, h.short⟩

/-- What a lookup comes to is on the disk: something, a link only if those at the end are not
followed, or a directory with a free name. -/
def Lookup.Stands (d : Disk) (last : Bool) : Lookup → Prop
  | .found place e _ => d.entry? place = some e ∧ ∀ target, e = .link target → last = false
  | .vacant dir name _ => d.entry? dir = some .dir ∧ d.entry? (dir ++ [name]) = none ∧ Named name
  | .refused _ => True

/-- A lookup that yields an entry found it unmarked. -/
theorem Lookup.entry_eq_ok {l : Lookup} {place : Location} {e : Entry}
    (h : l.entry = .ok (place, e)) : l = .found place e false := by
  cases l with
  | found place entry marked =>
    cases marked with
    | false =>
      obtain ⟨rfl, rfl⟩ := Prod.mk.inj (Except.ok.inj h)
      rfl
    | true => exact absurd h (by simp [Lookup.entry])
  | vacant dir name marked => exact absurd h (by simp [Lookup.entry])
  | refused fault => exact absurd h (by simp [Lookup.entry])

namespace Disk

open ChangeWatch.Path (Idle)

variable {d : Disk} {last marked : Bool} {pass pass' : Location → List Bytes → Lookup}
  {place top : Location} {part : Bytes} {parts front idle more : List Bytes} {e : Entry}

/-! ### One part -/

/-- What a lookup comes to that ends at a part, as slashes follow it or not. -/
inductive Ending (d : Disk) (place : Location) (part : Bytes) : (Bool → Lookup) → Prop
  | file {content : Bytes} : d.entry? (place ++ [part]) = some (.file content) →
      Ending d place part (.found (place ++ [part]) (.file content))
  | free : d.entry? (place ++ [part]) = none → Named part →
      Ending d place part (.vacant place part)
  | refused (fault : Fault) : Ending d place part fun _ => .refused fault

/-- What the first of some parts comes to, whatever is behind it; as long as it leads further,
also when there is more on the disk. -/
inductive Step (d : Disk) (place : Location) (part : Bytes) : Prop
  /-- It moves on, up or down or not at all. -/
  | moves (next : Location)
      (hnext : next = place ∨ next = place.dropLast ∨ d.entry? next = some .dir)
      (eq : ∀ d', d.Grown d' → ∀ last pass rest,
        d'.followParts last pass place (part :: rest) = d'.followParts last pass next rest)
  /-- It is a link, which is not passed if it is at the end and is not to be followed there. -/
  | links (target : Path) (stands : d.entry? (place ++ [part]) = some (.link target))
      (eq : ∀ d', d.Grown d' → ∀ last pass rest, d'.followParts last pass place (part :: rest) =
        if rest = [] ∧ last = false then .found (place ++ [part]) (.link target) false
        else pass (if target.isAbsolute then [] else place) (target.parts ++ rest))
  /-- It has nothing below it, so there may be nothing but slashes behind it. -/
  | ends (here : Bool → Lookup) (fault : Fault) (ending : Ending d place part here)
      (eq : ∀ last pass rest, d.followParts last pass place (part :: rest) =
        if rest.all (· = []) then here (!rest.isEmpty) else .refused fault)

theorem step (d : Disk) (place : Location) (part : Bytes) : Step d place part := by
  by_cases hidle : part = [] ∨ part = [Path.dot]
  · exact .moves place (Or.inl rfl) fun _ _ _ _ _ => by rw [followParts, if_pos hidle]
  by_cases hup : part = [Path.dot, Path.dot]
  · exact .moves place.dropLast (Or.inr (Or.inl rfl)) fun _ _ _ _ _ => by
      rw [followParts, if_neg hidle, if_pos hup]
  by_cases hlong : nameLimit < part.length
  · exact .ends _ .nameTooLong (.refused .nameTooLong) fun _ _ _ => by
      rw [followParts, if_neg hidle, if_neg hup, if_pos hlong, ite_self]
  obtain ⟨hnonempty, hdot⟩ := not_or.mp hidle
  have hnamed : Named part := ⟨hnonempty, hdot, hup, Nat.not_lt.mp hlong⟩
  cases hentry : d.entry? (place ++ [part]) with
  | none =>
    exact .ends _ .notFound (.free hentry hnamed) fun _ _ _ => by
      rw [followParts, if_neg hidle, if_neg hup, if_neg hlong, hentry]
  | some e =>
    cases e with
    | dir =>
      exact .moves (place ++ [part]) (Or.inr (Or.inr hentry)) fun _ hgrown _ _ _ => by
        rw [followParts, if_neg hidle, if_neg hup, if_neg hlong, hgrown _ _ hentry]
    | file content =>
      exact .ends _ .notADirectory (.file hentry) fun _ _ _ => by
        rw [followParts, if_neg hidle, if_neg hup, if_neg hlong, hentry]
    | link target =>
      exact .links target hentry fun _ hgrown _ _ _ => by
        rw [followParts, if_neg hidle, if_neg hup, if_neg hlong, hgrown _ _ hentry]

/-- A name under which a directory stands leads there. -/
theorem followParts_enter (hn : Named part) (he : d.entry? (place ++ [part]) = some .dir)
    (rest : List Bytes) : d.followParts last pass place (part :: rest) =
      d.followParts last pass (place ++ [part]) rest := by
  rw [followParts, if_neg (not_or.mpr ⟨hn.nonempty, hn.not_dot⟩), if_neg hn.not_up,
    if_neg (Nat.not_lt.mpr hn.short), he]

/-- A lookup that ends at a part comes to no directory. -/
theorem Ending.ne_dir {here : Bool → Lookup} (h : Ending d place part here) (all : Bool)
    (slashes : Bool) (fault : Fault) :
    (if all then here slashes else .refused fault) ≠ .found top .dir marked := by
  cases h <;> cases all <;> simp

/-- When links at the end are followed, every link is. -/
theorem not_end (parts : List Bytes) : ¬(parts = [] ∧ true = false) := by simp

/-! ### Going on from a directory -/

/-- Up to the first link, going on from where some parts lead is following them with more
behind them; a link is passed with the rest behind its target. -/
theorem followParts_append (more : List Bytes)
    (h : d.followParts true pass place front = .found top .dir marked) :
    (∀ pass', d.followParts true pass' place (front ++ more) =
        d.followParts true pass' top more) ∨
      ∃ source parts, pass source parts = .found top .dir marked ∧
        ∀ pass', d.followParts true pass' place (front ++ more) = pass' source (parts ++ more) := by
  -- the first link is left to `pass`, so an induction on the parts is enough here
  induction front generalizing place with
  | nil =>
    obtain ⟨rfl, -, -⟩ := Lookup.found.inj h
    exact Or.inl fun _ => rfl
  | cons part rest ih =>
    cases step d place part with
    | moves next hnext eq =>
      have eq := eq d (.refl d)
      rw [eq] at h
      simp only [List.cons_append, eq]
      exact ih h
    | links target stands eq =>
      have eq := eq d (.refl d)
      rw [eq, if_neg (not_end _)] at h
      refine Or.inr ⟨_, target.parts ++ rest, h, fun pass' => ?_⟩
      rw [List.cons_append, eq, if_neg (not_end _), List.append_assoc]
    | ends here fault ending eq =>
      rw [eq] at h
      exact absurd h (ending.ne_dir _ _ _)

/-- Where some parts lead to a directory, more parts lead on from there; fewer links may
be left to pass. -/
theorem follow_append (more : List Bytes) {budget : Nat}
    (h : d.follow true budget place front = .found top .dir marked) :
    ∃ left ≤ budget, d.follow true budget place (front ++ more) = d.follow true left top more := by
  -- each link that is passed on the way leaves one fewer for what is behind
  induction budget generalizing place front with
  | zero =>
    rcases followParts_append more h with heq | ⟨_, _, hpass, -⟩
    · exact ⟨0, Nat.le_refl _, heq _⟩
    · exact absurd hpass (by simp)
  | succ budget ih =>
    rcases followParts_append more h with heq | ⟨source, parts, hpass, heq⟩
    · exact ⟨budget + 1, Nat.le_refl _, heq _⟩
    · obtain ⟨left, hle, hleft⟩ := ih hpass
      exact ⟨left, Nat.le_succ_of_le hle, (heq _).trans hleft⟩

/-- With fewer links to pass a lookup comes to the same, or there are too many. -/
theorem followParts_less (hpass : ∀ source parts,
      pass source parts = .refused .tooManyLinks ∨ pass source parts = pass' source parts) :
    d.followParts last pass place parts = .refused .tooManyLinks ∨
      d.followParts last pass place parts = d.followParts last pass' place parts := by
  induction parts generalizing place with
  | nil => exact Or.inr rfl
  | cons part rest ih =>
    cases step d place part with
    | moves next hnext eq =>
      have eq := eq d (.refl d)
      rw [eq, eq]
      exact ih
    | links target stands eq =>
      have eq := eq d (.refl d)
      rw [eq, eq]
      split
      · exact Or.inr rfl
      · exact hpass _ _
    | ends here fault ending eq =>
      rw [eq, eq]
      exact Or.inr rfl

theorem follow_less {left budget : Nat} (h : left ≤ budget) (place : Location)
    (parts : List Bytes) : d.follow last left place parts = .refused .tooManyLinks ∨
      d.follow last left place parts = d.follow last budget place parts := by
  induction left generalizing budget place parts with
  | zero =>
    cases budget with
    | zero => exact Or.inr rfl
    | succ budget => exact followParts_less fun _ _ => Or.inl rfl
  | succ left ih =>
    cases budget with
    | zero => exact absurd h (Nat.not_succ_le_zero left)
    | succ budget => exact followParts_less fun _ _ => ih (Nat.le_of_succ_le_succ h) _ _

/-! ### Parts that lead nowhere else -/

/-- Parts that are no steps are left out in front of others. -/
theorem followParts_idle (hidle : ∀ part ∈ idle, Idle part) :
    d.followParts last pass place (idle ++ more) = d.followParts last pass place more := by
  induction idle with
  | nil => rfl
  | cons part rest ih =>
    have hpart : part = [] ∨ part = [Path.dot] := hidle part List.mem_cons_self
    rw [List.cons_append, followParts, if_pos hpart]
    exact ih fun part hpart => hidle part (List.mem_cons_of_mem _ hpart)

theorem follow_idle (hidle : ∀ part ∈ idle, Idle part) (budget : Nat) :
    d.follow last budget place (idle ++ more) = d.follow last budget place more := by
  cases budget <;> exact followParts_idle hidle

/-- Parts that are no steps lead nowhere else. -/
theorem followParts_idle_end (hidle : ∀ part ∈ idle, Idle part) :
    d.followParts last pass place idle = .found place .dir false := by
  rw [← List.append_nil idle, followParts_idle hidle]
  rfl

/-- Parts that are no steps make no difference behind a directory. -/
theorem followParts_idle_iff (hidle : ∀ part ∈ idle, Idle part) (hpass : ∀ source parts,
      pass source (parts ++ idle) = .found top .dir false ↔
        pass source parts = .found top .dir false) :
    d.followParts true pass place (front ++ idle) = .found top .dir false ↔
      d.followParts true pass place front = .found top .dir false := by
  induction front generalizing place with
  | nil =>
    rw [List.nil_append, followParts_idle_end hidle]
    rfl
  | cons part rest ih =>
    rw [List.cons_append]
    cases step d place part with
    | moves next hnext eq =>
      have eq := eq d (.refl d)
      rw [eq, eq]
      exact ih
    | links target stands eq =>
      have eq := eq d (.refl d)
      rw [eq, eq, if_neg (not_end _), if_neg (not_end _), ← List.append_assoc]
      exact hpass _ _
    | ends here fault ending eq =>
      rw [eq, eq]
      exact iff_of_false (ending.ne_dir _ _ _) (ending.ne_dir _ _ _)

theorem follow_idle_iff (hidle : ∀ part ∈ idle, Idle part) (budget : Nat) (place : Location)
    (front : List Bytes) :
    d.follow true budget place (front ++ idle) = .found top .dir false ↔
      d.follow true budget place front = .found top .dir false := by
  induction budget generalizing place front with
  | zero => exact followParts_idle_iff hidle fun _ _ => by simp
  | succ budget ih => exact followParts_idle_iff hidle ih

/-- A path to a file does not lead on to a directory. -/
theorem followParts_file {content : Bytes} {there : Location} (hidle : ∀ part ∈ idle, Idle part)
    (hpass : ∀ source parts, pass source (parts ++ idle) = .found there (.file content) false →
      pass source (parts ++ more) ≠ .found top .dir false)
    (h : d.followParts true pass place (front ++ idle) = .found there (.file content) false) :
    d.followParts true pass place (front ++ more) ≠ .found top .dir false := by
  induction front generalizing place with
  | nil =>
    rw [List.nil_append, followParts_idle_end hidle] at h
    exact absurd h (by simp)
  | cons part rest ih =>
    rw [List.cons_append] at h ⊢
    cases step d place part with
    | moves next hnext eq =>
      have eq := eq d (.refl d)
      rw [eq] at h ⊢
      exact ih h
    | links target stands eq =>
      have eq := eq d (.refl d)
      rw [eq, if_neg (not_end _), ← List.append_assoc] at h ⊢
      exact hpass _ _ h
    | ends here fault ending eq =>
      rw [eq]
      exact ending.ne_dir _ _ _

theorem follow_file {content : Bytes} {there : Location} (hidle : ∀ part ∈ idle, Idle part)
    {budget : Nat}
    (h : d.follow true budget place (front ++ idle) = .found there (.file content) false) :
    d.follow true budget place (front ++ more) ≠ .found top .dir false := by
  induction budget generalizing place front with
  | zero => exact followParts_file hidle (fun _ _ hpass => absurd hpass (by simp)) h
  | succ budget ih => exact followParts_file hidle (fun _ _ hpass => ih hpass) h

/-! ### Links at the end -/

theorem followParts_of_last
    (hpass : ∀ source parts, pass source parts = .found top .dir marked →
      pass' source parts = .found top .dir marked)
    (h : d.followParts false pass place parts = .found top .dir marked) :
    d.followParts true pass' place parts = .found top .dir marked := by
  induction parts generalizing place with
  | nil => exact h
  | cons part rest ih =>
    cases step d place part with
    | moves next hnext eq =>
      have eq := eq d (.refl d)
      rw [eq] at h ⊢
      exact ih h
    | links target stands eq =>
      have eq := eq d (.refl d)
      rw [eq] at h
      rw [eq, if_neg (not_end _)]
      split at h
      · exact absurd h (by simp)
      · exact hpass _ _ h
    | ends here fault ending eq =>
      rw [eq] at h
      exact absurd h (ending.ne_dir _ _ _)

/-- What is a directory without a link at the end being followed is the same one when
links are followed. -/
theorem follow_of_last {budget : Nat}
    (h : d.follow false budget place parts = .found top .dir marked) :
    d.follow true budget place parts = .found top .dir marked := by
  induction budget generalizing place parts with
  | zero => exact followParts_of_last (fun _ _ hpass => absurd hpass (by simp)) h
  | succ budget ih => exact followParts_of_last (fun _ _ hpass => ih hpass) h

theorem stat_of_lstat {p : Path} (h : d.lstat p = .ok (top, .dir)) :
    d.stat p = .ok (top, .dir) := by
  have hfound := Lookup.entry_eq_ok h
  unfold resolve at hfound
  unfold stat resolve
  split at hfound
  · exact absurd hfound (by simp)
  · rw [follow_of_last hfound]
    rfl

/-- Where there is a directory, something is found also if a link at the end is not followed. -/
theorem followParts_last_found
    (hpass : ∀ source parts, pass source parts = .found top .dir marked →
      ∃ place e slashes, pass' source parts = .found place e slashes)
    (h : d.followParts true pass place parts = .found top .dir marked) :
    ∃ there e slashes, d.followParts false pass' place parts = .found there e slashes := by
  induction parts generalizing place with
  | nil => exact ⟨_, _, _, rfl⟩
  | cons part rest ih =>
    cases step d place part with
    | moves next hnext eq =>
      have eq := eq d (.refl d)
      rw [eq] at h ⊢
      exact ih h
    | links target stands eq =>
      have eq := eq d (.refl d)
      rw [eq, if_neg (not_end _)] at h
      rw [eq]
      split
      · exact ⟨_, _, _, rfl⟩
      · exact hpass _ _ h
    | ends here fault ending eq =>
      rw [eq] at h
      exact absurd h (ending.ne_dir _ _ _)

theorem follow_last_found {budget : Nat}
    (h : d.follow true budget place parts = .found top .dir marked) :
    ∃ there e slashes, d.follow false budget place parts = .found there e slashes := by
  induction budget generalizing place parts with
  | zero => exact followParts_last_found (fun _ _ hpass => absurd hpass (by simp)) h
  | succ budget ih => exact followParts_last_found (fun _ _ hpass => ih hpass) h

/-! ### Where a lookup ends -/

namespace InOrder

/-- What is above a directory, or at it, is a directory. -/
theorem dir_dropLast (h : d.InOrder) (hplace : d.entry? place = some .dir) :
    d.entry? place.dropLast = some .dir := by
  by_cases hne : place = []
  · subst hne
    rfl
  · rw [← List.dropLast_concat_getLast hne] at hplace
    exact (h.above hplace).2

/-- What parts that are followed from a directory come to is there. -/
theorem followParts_stands (h : d.InOrder) (hplace : d.entry? place = some .dir)
    (hpass : ∀ source parts, d.entry? source = some .dir → (pass source parts).Stands d last) :
    (d.followParts last pass place parts).Stands d last := by
  induction parts generalizing place with
  | nil => exact ⟨hplace, by simp⟩
  | cons part rest ih =>
    cases step d place part with
    | moves next hnext eq =>
      have eq := eq d (.refl d)
      rw [eq]
      rcases hnext with rfl | rfl | hdir
      · exact ih hplace
      · exact ih (h.dir_dropLast hplace)
      · exact ih hdir
    | links target stands eq =>
      have eq := eq d (.refl d)
      rw [eq]
      split
      · next hend => exact ⟨stands, fun _ _ => hend.2⟩
      · split
        · exact hpass _ _ rfl
        · exact hpass _ _ hplace
    | ends here fault ending eq =>
      rw [eq]
      split
      · cases ending with
        | file hfile => exact ⟨hfile, by simp⟩
        | free hfree hnamed => exact ⟨hplace, hfree, hnamed⟩
        | refused fault => trivial
      · trivial

theorem follow_stands (h : d.InOrder) (hplace : d.entry? place = some .dir) (budget : Nat)
    (parts : List Bytes) : (d.follow last budget place parts).Stands d last := by
  induction budget generalizing place parts with
  | zero => exact h.followParts_stands hplace fun _ _ _ => trivial
  | succ budget ih => exact h.followParts_stands hplace fun _ _ hsource => ih hsource _

/-- What a path comes to is there. -/
theorem resolve_stands (h : d.InOrder) {p : Path}
    (hstart : p.isAbsolute = true ∨ d.entry? d.cwd = some .dir) (parts : List Bytes) :
    (d.resolve last p parts).Stands d last := by
  unfold resolve
  split
  · trivial
  · split
    · exact h.follow_stands rfl _ _
    · next hrelative => exact h.follow_stands (hstart.resolve_left hrelative) _ _

/-- What a path leads to stands where it is found, and is no link. -/
theorem stands_of_stat (h : d.InOrder) {p : Path}
    (hstart : p.isAbsolute = true ∨ d.entry? d.cwd = some .dir)
    (hstat : d.stat p = .ok (top, e)) :
    d.entry? top = some e ∧ ∀ target, e ≠ .link target := by
  have hstands : (d.resolve true p p.parts).Stands d true := h.resolve_stands hstart p.parts
  rw [Lookup.entry_eq_ok hstat] at hstands
  exact ⟨hstands.1, fun target heq => absurd (hstands.2 target heq) (by simp)⟩

/-! ### Below a directory -/

/-- Names below a directory that a path leads to lead to what stands there. -/
theorem stat_below (h : d.InOrder) {start rel : Location} (hstart : ∀ n ∈ start, IsName n)
    (hstat : d.stat start.toPath = .ok (top, .dir)) (hrel : d.entry? (top ++ rel) = some .dir)
    (hshort : Location.Short (start ++ rel)) :
    d.stat (Location.toPath (start ++ rel)) = .ok (top ++ rel, .dir) := by
  have hnames : ∀ n ∈ start ++ rel, IsName n := by
    intro n hn
    rcases List.mem_append.mp hn with hn | hn
    · exact hstart n hn
    · exact h.names hrel n (List.mem_append_right _ hn)
  have hdir : d.entry? top = some .dir := by
    by_cases hne : rel = []
    · rwa [hne, List.append_nil] at hrel
    · exact h.dir_of_append hne hrel
  -- the names of the start lead to the directory, up to a slash in front of them
  have hfound : d.follow true linkLimit [] start = .found top .dir false := by
    have hlookup := Lookup.entry_eq_ok hstat
    unfold resolve at hlookup
    rw [unfit?_toPath hstart hshort.of_append] at hlookup
    dsimp only at hlookup
    rw [if_pos (Location.isAbsolute_toPath start)] at hlookup
    by_cases hne : start = []
    · subst hne
      rw [Location.parts_toPath_root.2] at hlookup
      exact hlookup
    · rw [Location.parts_toPath hne hstart] at hlookup
      exact hlookup
  obtain ⟨left, -, hleft⟩ := follow_append rel hfound
  have hrest : d.follow true left top rel = .found (top ++ rel) .dir false := by
    cases left with
    | zero => exact h.followParts_names _ _ (by simp) rel top hdir hrel
    | succ left => exact h.followParts_names _ _ (by simp) rel top hdir hrel
  unfold stat resolve
  rw [unfit?_toPath hnames hshort]
  dsimp only
  rw [if_pos (Location.isAbsolute_toPath _)]
  have hparts : d.follow true linkLimit [] (Location.toPath (start ++ rel)).parts =
      d.follow true linkLimit [] (start ++ rel) := by
    by_cases hne : start ++ rel = []
    · rw [hne, Location.parts_toPath_root.2]
      rfl
    · rw [Location.parts_toPath hne hnames]
      rfl
  rw [hparts, hleft, hrest]
  rfl

end InOrder

end Disk

end ChangeWatch
