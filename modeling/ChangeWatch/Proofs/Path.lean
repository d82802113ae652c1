import ChangeWatch.Path
import Mathlib.Data.List.Basic
import Mathlib.Data.List.Induction
import Mathlib.Data.List.TakeWhile

/-!
# Paths grow by names

A name that is one component of a path (`Path.Normal`) adds just this component when it is
appended to any path (`components_child`), so that going down by several names adds as many
components, in order (`Below.components`).  What is `Below` a path is reached in this way, and
covers neither that path nor what is below another child of it (`Below.not_covers_beside`);
the last component of a path is such a name, if it is a name at all (`normal_fileName`).

Parts that are no steps (`Idle`) make no component.  How the parts of a path are divided when
one goes up is said once (`ascends`): its parent has all its components but the last, whatever
trails them (`parent_cases`), so a path with a last name has the components of a child of its
parent (`parent_of_fileName`).
-/

namespace ChangeWatch.Path

/-! ### Names -/

/-- A name that is one component of a path. -/
structure Normal (n : Bytes) : Prop where
  nonempty : n ≠ []
  not_dot : n ≠ [dot]
  not_up : n ≠ [dot, dot]
  no_slash : slash ∉ n

theorem normal_iff {n : Bytes} :
    Normal n ↔ n ≠ [] ∧ n ≠ [dot] ∧ n ≠ [dot, dot] ∧ slash ∉ n :=
  ⟨fun h => ⟨h.1, h.2, h.3, h.4⟩, fun ⟨h₁, h₂, h₃, h₄⟩ => ⟨h₁, h₂, h₃, h₄⟩⟩

instance (n : Bytes) : Decidable (Normal n) := decidable_of_iff _ normal_iff.symm

variable {n : Bytes}

theorem Normal.component (h : Normal n) : innerComponent n = some (.name n) := by
  unfold innerComponent
  rw [if_neg (not_or.mpr ⟨h.nonempty, h.not_dot⟩), if_neg h.not_up]

theorem Normal.firstComponent (h : Normal n) : firstComponent n = some (.name n) := by
  unfold Path.firstComponent
  rw [if_neg h.not_dot, h.component]

/-- A part that is a name is that name, and a proper one. -/
theorem normal_of_innerComponent {part : Bytes} (h : innerComponent part = some (.name n))
    (hslash : slash ∉ part) : Normal n := by
  unfold innerComponent at h
  split at h
  · exact absurd h (by simp)
  · next hplain =>
    split at h
    · exact absurd h (by simp)
    · next hup =>
      obtain rfl : part = n := by simpa using h
      obtain ⟨hnonempty, hdot⟩ := not_or.mp hplain
      exact ⟨hnonempty, hdot, hup, hslash⟩

/-! ### Parts -/

theorem splitOn_append (a b : Bytes) :
    (a ++ slash :: b).splitOn slash = a.splitOn slash ++ b.splitOn slash := by
  rw [List.splitOn_eq_splitOnP, List.splitOn_eq_splitOnP, List.splitOn_eq_splitOnP,
    List.splitOnP_append_cons (p := fun x => x == slash) _ _ (beq_self_eq_true slash)]

/-- What has no slash is one part. -/
theorem splitOn_of_not_mem {b : Bytes} (h : slash ∉ b) : b.splitOn slash = [b] := by
  have hjoin : [slash].intercalate [b] = b := by simp
  have hsplit : ([slash].intercalate [b]).splitOn slash = [b] :=
    List.splitOn_intercalate slash (by simpa using h) (by simp)
  rwa [hjoin] at hsplit

/-- A part has no slash in it, and nothing that the whole has not. -/
theorem splitOn_part (b : Bytes) : ∀ part ∈ b.splitOn slash, slash ∉ part ∧ part ⊆ b := by
  induction hlength : b.length using Nat.strongRecOn generalizing b with
  | ind length ih =>
    subst hlength
    by_cases hslash : slash ∈ b
    · -- the parts are those before the slash and those after it
      obtain ⟨front, back, rfl⟩ := List.append_of_mem hslash
      intro part hpart
      rw [splitOn_append] at hpart
      simp only [List.length_append, List.length_cons] at ih
      rcases List.mem_append.mp hpart with hpart | hpart
      · obtain ⟨hno, hsub⟩ := ih _ (by omega) front rfl part hpart
        exact ⟨hno, fun x hx => List.mem_append_left _ (hsub hx)⟩
      · obtain ⟨hno, hsub⟩ := ih _ (by omega) back rfl part hpart
        exact ⟨hno, fun x hx => List.mem_append_right _ (List.mem_cons_of_mem _ (hsub hx))⟩
    · intro part hpart
      rw [splitOn_of_not_mem hslash] at hpart
      rw [List.mem_singleton.mp hpart]
      exact ⟨hslash, List.Subset.refl _⟩

theorem not_mem_of_mem_splitOn (b : Bytes) (part : Bytes) (hpart : part ∈ b.splitOn slash) :
    slash ∉ part :=
  (splitOn_part b part hpart).1

/-- One more part at the end of a path adds its own component, if it has one. -/
theorem components_append (front : Bytes) {part : Bytes} (h : slash ∉ part) :
    (Path.mk (front ++ slash :: part)).components =
      (Path.mk (front ++ [slash])).components ++ (innerComponent part).toList := by
  have hparts : ∀ x, slash ∉ x →
      (Path.mk (front ++ slash :: x)).parts = (Path.mk front).parts ++ [x] := by
    intro x hx
    unfold parts
    rw [splitOn_append, splitOn_of_not_mem hx]
  have hne : (Path.mk front).parts ≠ [] := List.splitOn_ne_nil slash front
  have habsolute : ∀ x, (Path.mk (front ++ slash :: x)).isAbsolute =
      (Path.mk (front ++ [slash])).isAbsolute := by
    intro x
    unfold isAbsolute
    cases front <;> rfl
  unfold components
  rw [habsolute part, hparts part h, hparts [] List.not_mem_nil, List.tail_append_of_ne_nil hne,
    List.tail_append_of_ne_nil hne, List.head?_append_of_ne_nil _ hne,
    List.head?_append_of_ne_nil _ hne, List.filterMap_append, List.filterMap_append]
  have hnil : [([] : Bytes)].filterMap innerComponent = [] := rfl
  have hlast : [part].filterMap innerComponent = (innerComponent part).toList := by
    cases hpart : innerComponent part <;> simp [hpart]
  rw [hnil, hlast, List.append_nil]
  split
  · rw [List.cons_append]
  · rw [List.append_assoc]

/-- Slashes at the end of a path add nothing to it. -/
theorem components_slash {front : Bytes} (h : front ≠ []) :
    (Path.mk (front ++ [slash])).components = (Path.mk front).components := by
  have hparts : (Path.mk (front ++ [slash])).parts = (Path.mk front).parts ++ [[]] := by
    unfold parts
    rw [splitOn_append, List.splitOn_nil]
  have hne : (Path.mk front).parts ≠ [] := List.splitOn_ne_nil slash front
  have habsolute : (Path.mk (front ++ [slash])).isAbsolute = (Path.mk front).isAbsolute := by
    unfold isAbsolute
    rw [List.head?_append_of_ne_nil _ h]
  have hnil : [([] : Bytes)].filterMap innerComponent = [] := rfl
  unfold components
  rw [habsolute, hparts, List.tail_append_of_ne_nil hne, List.head?_append_of_ne_nil _ hne,
    List.filterMap_append, hnil, List.append_nil]

/-! ### Going down -/

/-- A name adds one component. -/
theorem components_child (p : Path) (h : Normal n) :
    (p.child n).components = p.components ++ [.name n] := by
  obtain ⟨bytes⟩ := p
  have hrelative : (Path.mk n).isAbsolute = false := by
    refine decide_eq_false fun hhead => h.no_slash ?_
    exact List.mem_of_head? hhead
  have hlast : (innerComponent n).toList = [Component.name n] := by
    rw [h.component]
    rfl
  unfold child join
  rw [if_neg (by rw [hrelative]; simp)]
  by_cases hempty : bytes = []
  · subst hempty
    have hparts : (Path.mk n).parts = [n] := splitOn_of_not_mem h.no_slash
    rw [if_pos (Or.inl rfl)]
    show (Path.mk n).components = [.name n]
    unfold components
    rw [if_neg (by rw [hrelative]; simp), hparts]
    simp [h.firstComponent]
  · by_cases hslash : bytes.getLast? = some slash
    · obtain ⟨front, rfl⟩ := List.getLast?_eq_some_iff.mp hslash
      rw [if_pos (Or.inr hslash), List.append_assoc, List.singleton_append,
        components_append front h.no_slash, hlast]
    · rw [if_neg (not_or.mpr ⟨hempty, hslash⟩), components_append bytes h.no_slash, hlast,
        components_slash hempty]

/-- A path is reached from another one by going down by proper names. -/
structure Below (root : Path) (names : List Bytes) (p : Path) : Prop where
  normal : ∀ n ∈ names, Normal n
  path : p = names.foldl child root

variable {root p : Path} {names : List Bytes}

theorem Below.refl (root : Path) : Below root [] root :=
  ⟨fun _ hn => absurd hn List.not_mem_nil, rfl⟩

theorem Below.child (h : Below root names p) (hn : Normal n) :
    Below root (names ++ [n]) (p.child n) := by
  refine ⟨fun m hm => ?_, ?_⟩
  · rcases List.mem_append.mp hm with hm | hm
    · exact h.normal m hm
    · rw [List.mem_singleton.mp hm]
      exact hn
  · rw [List.foldl_append, ← h.path]
    rfl

/-- Every step down is one component more. -/
theorem Below.components (h : Below root names p) :
    p.components = root.components ++ names.map .name := by
  obtain ⟨hnormal, rfl⟩ := h
  induction names using List.reverseRecOn with
  | nil => exact (List.append_nil _).symm
  | append_singleton front n ih =>
    have hn : Normal n := hnormal n (List.mem_append_right _ (List.mem_singleton_self n))
    have hfront := ih fun m hm => hnormal m (List.mem_append_left _ hm)
    rw [List.foldl_append, List.map_append, ← List.append_assoc, ← hfront]
    exact components_child _ hn

/-- A path is not the same as one that does not cover it. -/
theorem same_of_not_covers {q : Path} (h : q.covers p = false) : p.same q = false := by
  refine Bool.eq_false_iff.mpr fun hsame => ?_
  rw [same, decide_eq_true_iff] at hsame
  unfold covers at h
  rw [hsame, List.isPrefixOf_iff_prefix.mpr (List.prefix_refl _)] at h
  exact absurd h (by simp)

/-- What is further down does not cover what it is below. -/
theorem Below.not_covers (h : Below root names p) (hne : names ≠ []) : p.covers root = false := by
  refine Bool.eq_false_iff.mpr fun hcovers => ?_
  unfold Path.covers at hcovers
  rw [h.components, List.isPrefixOf_iff_prefix] at hcovers
  have hlength := hcovers.length_le
  rw [List.length_append, List.length_map] at hlength
  exact hne (List.eq_nil_of_length_eq_zero (by omega))

/-- What is below a child does not cover what is below another child. -/
theorem Below.not_covers_beside {m : Bytes} {q : Path} {names' : List Bytes}
    (h : Below (root.child n) names p) (h' : Below (root.child m) names' q) (hn : Normal n)
    (hm : Normal m) (hne : n ≠ m) : q.covers p = false := by
  refine Bool.eq_false_iff.mpr fun hcovers => hne ?_
  unfold Path.covers at hcovers
  rw [h.components, h'.components, components_child root hn, components_child root hm,
    List.append_assoc, List.append_assoc, List.isPrefixOf_iff_prefix, List.prefix_append_right_inj,
    List.singleton_append, List.singleton_append, List.cons_prefix_cons] at hcovers
  exact (Component.name.inj hcovers.1).symm

/-- A path that has a last name has a proper one. -/
theorem normal_fileName (h : p.fileName = some n) : Normal n := by
  have hmem : Component.name n ∈ p.components := by
    unfold fileName at h
    split at h
    · next hlast =>
      obtain rfl := Option.some.inj h
      exact List.mem_of_getLast? hlast
    · exact absurd h (by simp)
  -- the component is that of some part
  obtain ⟨part, hpart, hinner⟩ : ∃ part ∈ p.parts, innerComponent part = some (.name n) := by
    unfold components at hmem
    split at hmem
    · have htail := (List.mem_cons.mp hmem).resolve_left (by simp)
      obtain ⟨part, hpart, hinner⟩ := List.mem_filterMap.mp htail
      exact ⟨part, List.mem_of_mem_tail hpart, hinner⟩
    · rcases List.mem_append.mp hmem with hfirst | htail
      · obtain ⟨part, hpart, hinner⟩ := Option.bind_eq_some_iff.mp (Option.mem_toList.mp hfirst)
        refine ⟨part, List.mem_of_head? hpart, ?_⟩
        unfold firstComponent at hinner
        split at hinner
        · exact absurd hinner (by simp)
        · exact hinner
      · obtain ⟨part, hpart, hinner⟩ := List.mem_filterMap.mp htail
        exact ⟨part, List.mem_of_mem_tail hpart, hinner⟩
  exact normal_of_innerComponent hinner (not_mem_of_mem_splitOn _ part hpart)

/-! ### Going up -/

/-- A path is absolute exactly if it has an empty part in front of others. -/
theorem isAbsolute_of_parts {first : Bytes} {rest : List Bytes} (h : p.parts = first :: rest) :
    p.isAbsolute = decide (first = [] ∧ rest ≠ []) := by
  have hbytes : [slash].intercalate (first :: rest) = p.bytes := by
    rw [← h]
    exact List.intercalate_splitOn slash
  unfold isAbsolute
  rw [← hbytes]
  cases first with
  | nil => cases rest <;> simp [List.intercalate_cons_cons]
  | cons x xs =>
    have hx : x ≠ slash := by
      rintro rfl
      have hmem : slash :: xs ∈ p.parts := by
        rw [h]
        exact List.mem_cons_self
      exact not_mem_of_mem_splitOn p.bytes _ hmem List.mem_cons_self
    cases rest <;> simp [List.intercalate_cons_cons, hx]

/-- What a path is made of: nothing stands before a first part that is empty but not the
only one. -/
theorem components_of_parts {first : Bytes} {rest : List Bytes} (h : p.parts = first :: rest) :
    p.components = (if first = [] ∧ rest ≠ [] then [.root] else (firstComponent first).toList) ++
      rest.filterMap innerComponent := by
  unfold components
  rw [isAbsolute_of_parts h, h]
  by_cases hroot : first = [] ∧ rest ≠ []
  · rw [if_pos (decide_eq_true hroot), if_pos hroot, List.tail_cons, List.singleton_append]
  · rw [if_neg (by simpa using hroot), if_neg hroot, List.tail_cons, List.head?_cons,
      Option.bind_some]

/-- In front of a relative path every part is a component. -/
theorem exists_firstComponent {first : Bytes} (h : first ≠ []) :
    ∃ c, firstComponent first = some c := by
  unfold firstComponent innerComponent
  split
  · exact ⟨_, rfl⟩
  · next hdot =>
    rw [if_neg (not_or.mpr ⟨h, hdot⟩)]
    split <;> exact ⟨_, rfl⟩

/-- Parts of which none has a slash in it are the parts of the path that they are joined to. -/
theorem parts_ofParts {parts : List Bytes} (hne : parts ≠ [])
    (h : ∀ part ∈ parts, slash ∉ part) : (ofParts parts).parts = parts :=
  List.splitOn_intercalate slash h hne

/-- A part that leads nowhere else. -/
def Idle (part : Bytes) : Prop :=
  part = [] ∨ part = [dot]

theorem idle_iff {part : Bytes} : Idle part ↔ innerComponent part = none := by
  unfold Idle innerComponent
  split
  · next hidle => exact iff_of_true hidle rfl
  · next hidle =>
    refine iff_of_false hidle ?_
    split <;> simp

/-- What is dropped at the end of parts are no steps. -/
theorem dropIdle_append (parts : List Bytes) :
    ∃ tail, (∀ part ∈ tail, Idle part) ∧ parts = dropIdle parts ++ tail := by
  refine ⟨(parts.reverse.takeWhile fun part => (innerComponent part).isNone).reverse, ?_, ?_⟩
  · intro part hpart
    have hnone := List.mem_takeWhile_imp (List.mem_reverse.mp hpart)
    exact idle_iff.mpr (Option.isNone_iff_eq_none.mp hnone)
  · rw [dropIdle, ← List.reverse_append, List.takeWhile_append_dropWhile, List.reverse_reverse]

theorem filterMap_idle {idle : List Bytes} (h : ∀ part ∈ idle, Idle part) :
    idle.filterMap innerComponent = [] :=
  List.filterMap_eq_nil_iff.mpr fun part hpart => idle_iff.mp (h part hpart)

/-- What is left of parts ends in a component. -/
theorem dropIdle_cases (parts : List Bytes) :
    dropIdle parts = [] ∨
      ∃ before last c, dropIdle parts = before ++ [last] ∧ innerComponent last = some c := by
  cases hdropped : parts.reverse.dropWhile fun part => (innerComponent part).isNone with
  | nil => exact Or.inl (by rw [dropIdle, hdropped, List.reverse_nil])
  | cons last before =>
    have hlast := List.head?_dropWhile_not (fun part => (innerComponent part).isNone) parts.reverse
    rw [hdropped] at hlast
    cases hc : innerComponent last with
    | none => simp [hc] at hlast
    | some c =>
      exact Or.inr ⟨before.reverse, last, c, by rw [dropIdle, hdropped, List.reverse_cons], hc⟩

/-- How the parts of a path are divided between its parent and its last component; parts that are
no steps may trail both. -/
inductive Ascends (p : Path) : Option Path → Prop
  /-- There is nothing but a root, if that. -/
  | bare {idle : List Bytes} : p.parts = [] :: idle → (∀ part ∈ idle, Idle part) →
      Ascends p none
  /-- The first part is all there is. -/
  | lone {first : Bytes} {idle : List Bytes} : p.parts = first :: idle → first ≠ [] →
      (∀ part ∈ idle, Idle part) → Ascends p (some ⟨[]⟩)
  | below {q : Path} {first last : Bytes} {c : Component} {front extra middle tail : List Bytes} :
      q.parts = first :: front ++ extra → p.parts = first :: front ++ (middle ++ last :: tail) →
      q.bytes ≠ [] → q.isAbsolute = p.isAbsolute → innerComponent last = some c →
      (∀ part ∈ extra, Idle part) → (∀ part ∈ middle, Idle part) → (∀ part ∈ tail, Idle part) →
      Ascends p (some q)

theorem ascends (p : Path) : Ascends p p.parent := by
  obtain ⟨first, rest, hparts⟩ : ∃ first rest, p.parts = first :: rest :=
    List.exists_cons_of_ne_nil (List.splitOn_ne_nil slash p.bytes)
  obtain ⟨tail, htail, hrest⟩ := dropIdle_append rest
  unfold parent
  rw [hparts]
  dsimp only
  rcases dropIdle_cases rest with hnil | ⟨before, last, c, hsome, hc⟩
  · rw [hnil, List.nil_append] at hrest
    rw [← hrest] at htail
    rw [hnil]
    dsimp only [List.reverse_nil]
    by_cases hfirst : first = []
    · rw [if_pos hfirst]
      exact .bare (hfirst ▸ hparts) htail
    · rw [if_neg hfirst]
      exact .lone hparts hfirst htail
  · obtain ⟨middle, hmiddle, hbefore⟩ := dropIdle_append before
    have hrest : rest = dropIdle before ++ (middle ++ last :: tail) := by
      rw [hrest, hsome]
      conv_lhs => rw [hbefore]
      simp
    have hne : rest ≠ [] := by
      rw [hrest]
      simp
    have hsplit : p.parts = first :: dropIdle before ++ (middle ++ last :: tail) := by
      rw [hparts, hrest, List.cons_append]
    rw [hsome, List.reverse_append, List.reverse_singleton, List.singleton_append]
    dsimp only
    rw [List.reverse_reverse]
    by_cases hroot : first = [] ∧ dropIdle before = []
    · -- the root is written with an empty part more
      obtain ⟨rfl, hnil⟩ := hroot
      rw [hnil] at hsplit ⊢
      have hup : (Path.mk [slash]).parts = [[]] ++ [[]] := rfl
      refine .below hup hsplit (by simp) ?_ hc (by simp [Idle]) hmiddle htail
      rw [isAbsolute_of_parts hparts, decide_eq_true ⟨rfl, hne⟩]
      rfl
    · have hup : (ofParts (first :: dropIdle before)).parts = first :: dropIdle before := by
        refine parts_ofParts (List.cons_ne_nil _ _) fun part hpart => ?_
        refine not_mem_of_mem_splitOn p.bytes part ?_
        show part ∈ p.parts
        rw [hsplit]
        exact List.mem_append_left _ hpart
      have hempty : (ofParts (first :: dropIdle before)).bytes ≠ [] := by
        intro hempty
        have hone : (ofParts (first :: dropIdle before)).parts = [[]] := by
          unfold parts
          rw [hempty, List.splitOn_nil]
        rw [hup] at hone
        exact hroot (List.cons.inj hone)
      have habsolute : (ofParts (first :: dropIdle before)).isAbsolute = p.isAbsolute := by
        rw [isAbsolute_of_parts hup, isAbsolute_of_parts hparts]
        refine decide_eq_decide.mpr (and_congr_right fun hfirst => ?_)
        exact iff_of_true (fun hnil => hroot ⟨hfirst, hnil⟩) hne
      have hbelow : Ascends p (some (ofParts (first :: dropIdle before))) :=
        .below (hup.trans (List.append_nil _).symm) hsplit hempty habsolute hc (by simp) hmiddle
          htail
      split
      · next hnil => exact absurd ⟨rfl, hnil⟩ hroot
      · exact hbelow

/-- Parts that are no steps behind the first one are no components. -/
theorem components_of_lone {first : Bytes} {idle : List Bytes} {c : Component}
    (hparts : p.parts = first :: idle) (hfirst : first ≠ []) (hidle : ∀ part ∈ idle, Idle part)
    (hc : firstComponent first = some c) : p.components = [c] := by
  rw [components_of_parts hparts, filterMap_idle hidle, if_neg fun h => hfirst h.1, hc]
  rfl

/-- One more component at the end of the parts is one more of the path. -/
theorem components_of_below {q : Path} {first last : Bytes} {c : Component}
    {front extra middle tail : List Bytes} (hup : q.parts = first :: front ++ extra)
    (hparts : p.parts = first :: front ++ (middle ++ last :: tail))
    (habsolute : q.isAbsolute = p.isAbsolute) (hc : innerComponent last = some c)
    (hextra : ∀ part ∈ extra, Idle part) (hmiddle : ∀ part ∈ middle, Idle part)
    (htail : ∀ part ∈ tail, Idle part) : p.components = q.components ++ [c] := by
  have hlast : (middle ++ last :: tail).filterMap innerComponent = [c] := by
    rw [List.filterMap_append, List.filterMap_cons_some hc, filterMap_idle hmiddle,
      filterMap_idle htail, List.nil_append]
  unfold components
  rw [habsolute, hup, hparts, List.cons_append, List.cons_append]
  simp only [List.tail_cons, List.head?_cons, List.filterMap_append, hlast,
    filterMap_idle hextra, List.append_nil]
  split <;> simp

/-- The parent of a path has all its components but the last; a path without a parent has
none, or is the root. -/
theorem parent_cases (p : Path) :
    p.parent = none ∧ (p.components = [] ∨ p.components = [.root]) ∨
      ∃ q c, p.parent = some q ∧ p.components = q.components ++ [c] := by
  generalize hparent : p.parent = parent
  cases hparent ▸ ascends p with
  | @bare idle hparts hidle =>
    refine Or.inl ⟨rfl, ?_⟩
    rw [components_of_parts hparts, filterMap_idle hidle, List.append_nil]
    split
    · exact Or.inr rfl
    · exact Or.inl rfl
  | @lone first idle hparts hfirst hidle =>
    obtain ⟨c, hc⟩ := exists_firstComponent hfirst
    exact Or.inr ⟨⟨[]⟩, c, rfl, components_of_lone hparts hfirst hidle hc⟩
  | @below q _ _ c _ _ _ _ hup hparts _ habsolute hc hextra hmiddle htail =>
    exact Or.inr ⟨q, c, rfl, components_of_below hup hparts habsolute hc hextra hmiddle htail⟩

/-- A path that has a last name has a parent, and the components of its child of this name. -/
theorem parent_of_fileName (h : p.fileName = some n) :
    ∃ q, p.parent = some q ∧ p.components = q.components ++ [.name n] := by
  unfold fileName at h
  rcases parent_cases p with ⟨-, hnil | hroot⟩ | ⟨q, c, hparent, hcomponents⟩
  · simp [hnil] at h
  · simp [hroot] at h
  · refine ⟨q, hparent, ?_⟩
    rw [hcomponents, List.getLast?_concat] at h
    rw [hcomponents]
    split at h
    · next heq =>
      obtain rfl := Option.some.inj heq
      rw [Option.some.inj h]
    · exact absurd h (by simp)

theorem fileName_of_components {front : List Component} (h : p.components = front ++ [.name n]) :
    p.fileName = some n := by
  unfold fileName
  rw [h, List.getLast?_concat]

end ChangeWatch.Path
