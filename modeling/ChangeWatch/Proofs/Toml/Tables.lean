import ChangeWatch.Proofs.Toml.Grammar

/-!
# Documents without tables

A dotted key gives its value to a table, and a header adds one or adds to one.  Such a table
stays among the fields whatever is added behind it (`Fields.Tabled`), so a document whose
fields are no tables has neither: its lines are its fields, one by one, and no name comes twice
(`assembled_eq_some_iff`).
-/

namespace ChangeWatch.Toml

/-- A table, or a list of tables under headers in double brackets. -/
inductive Value.Opened : Value → Prop
  | table (form : TableForm) (fields : Fields) : Opened (.table form fields)
  | tables (items : List Fields) : Opened (.tables items)

namespace Fields

variable {fields fields' : Fields} {key : Name} {v old : Value} {path : List Name}

/-- There is a table, or a list of them, among the fields. -/
def Tabled (fields : Fields) : Prop :=
  ∃ f ∈ fields, f.2.Opened

/-- A name that is not known is new. -/
theorem nodup_add (hnew : fields.get? key = none) (h : (fields.map (·.1)).Nodup) :
    ((fields.add key v).map (·.1)).Nodup := by
  unfold add
  rw [List.map_append, List.nodup_append]
  refine ⟨h, List.pairwise_singleton _ key, fun name hname key' hkey => ?_⟩
  obtain ⟨f, hf, rfl⟩ := List.mem_map.mp hname
  obtain rfl := List.mem_singleton.mp hkey
  exact Ne.symm (bne_iff_ne.mp (List.lookup_eq_none_iff.mp hnew f hf))

theorem Tabled.add (h : fields.Tabled) (key : Name) (v : Value) : (fields.add key v).Tabled := by
  obtain ⟨f, hf, hopened⟩ := h
  exact ⟨f, List.mem_append_left _ hf, hopened⟩

theorem tabled_add (hv : v.Opened) : (fields.add key v).Tabled :=
  ⟨(key, v), List.mem_append_right _ List.mem_cons_self, hv⟩

theorem tabled_set (hold : fields.get? key = some old) (hv : v.Opened) :
    (fields.set key v).Tabled := by
  obtain ⟨before, behind, rfl, -⟩ := List.lookup_eq_some_iff.mp hold
  refine ⟨(key, v), List.mem_map.mpr ⟨(key, old), by simp, ?_⟩, hv⟩
  exact if_pos rfl

/-! ### Pairs -/

/-- A key of one part adds a field, and any other leads to a table. -/
theorem assign_cases {here : Bool} (h : fields.assign here path v = some fields') :
    (∃ key, path = [key] ∧ fields.get? key = none ∧ fields' = fields.add key v) ∨
      fields'.Tabled := by
  unfold assign at h
  split at h
  · exact absurd h (by simp)
  · split at h
    · next key hnew =>
      obtain rfl := Option.some.inj h
      refine Or.inl ⟨key, rfl, ?_, rfl⟩
      exact Option.isNone_iff_eq_none.mp (Bool.and_eq_true_iff.mp hnew).2
    · exact absurd h (by simp)
  · right
    split at h
    · obtain ⟨inner, -, rfl⟩ := Option.map_eq_some_iff.mp h
      exact tabled_add (.table _ _)
    · next hold =>
      obtain ⟨inner, -, rfl⟩ := Option.map_eq_some_iff.mp h
      exact tabled_set hold (.table _ _)
    · next hold =>
      obtain ⟨inner, -, rfl⟩ := Option.map_eq_some_iff.mp h
      exact tabled_set hold (.table _ _)
    · next hold =>
      obtain ⟨inner, -, rfl⟩ := Option.map_eq_some_iff.mp h
      exact tabled_set hold (.tables _)
    · exact absurd h (by simp)

/-- Once there is a table, there is one after each further pair. -/
theorem Tabled.assignAll {pairs : List (List Name × Value)} (h : fields.Tabled)
    (hassign : fields.assignAll pairs = some fields') : fields'.Tabled := by
  induction pairs generalizing fields with
  | nil =>
    obtain rfl := Option.some.inj hassign
    exact h
  | cons p more ih =>
    obtain ⟨next, hnext, hrest⟩ := Option.bind_eq_some_iff.mp hassign
    refine ih ?_ hrest
    rcases assign_cases hnext with ⟨key, -, -, rfl⟩ | htabled
    · exact h.add key p.2
    · exact htabled

/-- Pairs that lead to no table add a field each, under a name of its own. -/
theorem assignAll_cases {pairs : List (List Name × Value)}
    (h : fields.assignAll pairs = some fields') : fields'.Tabled ∨
      ∃ new : Fields, pairs = new.map (fun f => ([f.1], f.2)) ∧ fields' = fields ++ new ∧
        ((fields.map (·.1)).Nodup → (fields'.map (·.1)).Nodup) := by
  induction pairs generalizing fields with
  | nil =>
    obtain rfl := Option.some.inj h
    exact Or.inr ⟨[], rfl, (List.append_nil _).symm, id⟩
  | cons p more ih =>
    obtain ⟨next, hnext, hrest⟩ := Option.bind_eq_some_iff.mp h
    rcases assign_cases hnext with ⟨key, hkey, hnew, rfl⟩ | htabled
    · rcases ih hrest with htabled | ⟨new, rfl, rfl, hnodup⟩
      · exact Or.inl htabled
      · right
        refine ⟨(key, p.2) :: new, ?_, by simp [add], fun h => hnodup (nodup_add hnew h)⟩
        rw [List.map_cons, ← hkey]
    · exact Or.inl (htabled.assignAll hrest)

/-! ### Headers -/

theorem tabled_addTable {pairs : List (List Name × Value)}
    (h : fields.addTable key pairs = some fields') : fields'.Tabled := by
  unfold addTable at h
  split at h
  · obtain ⟨own, -, rfl⟩ := Option.map_eq_some_iff.mp h
    exact tabled_add (.table _ _)
  · obtain ⟨own, -, rfl⟩ := Option.map_eq_some_iff.mp h
    exact tabled_add (.table _ _)
  · exact absurd h (by simp)

theorem tabled_appendTable {pairs : List (List Name × Value)}
    (h : fields.appendTable key pairs = some fields') : fields'.Tabled := by
  unfold appendTable at h
  split at h
  · obtain ⟨own, -, rfl⟩ := Option.map_eq_some_iff.mp h
    exact tabled_add (.tables _)
  · next hold =>
    obtain ⟨own, -, rfl⟩ := Option.map_eq_some_iff.mp h
    exact tabled_set hold (.tables _)
  · exact absurd h (by simp)

/-- A table that a header leads through is a table afterwards. -/
theorem tabled_within {change : Fields → Option Fields}
    (hchange : ∀ {fields fields'}, change fields = some fields' → fields'.Tabled)
    (h : fields.within change path = some fields') : fields'.Tabled := by
  unfold within at h
  split at h
  · exact hchange h
  · split at h
    · obtain ⟨inner, -, rfl⟩ := Option.map_eq_some_iff.mp h
      exact tabled_add (.table _ _)
    · exact absurd h (by simp)
    · next hold =>
      obtain ⟨inner, -, rfl⟩ := Option.map_eq_some_iff.mp h
      exact tabled_set hold (.table _ _)
    · next hold =>
      obtain ⟨inner, -, rfl⟩ := Option.map_eq_some_iff.mp h
      exact tabled_set hold (.tables _)
    · exact absurd h (by simp)

theorem tabled_addSection {s : Section} (h : fields.addSection s = some fields') :
    fields'.Tabled := by
  unfold addSection at h
  split at h
  · exact absurd h (by simp)
  · refine tabled_within (fun {fields fields'} hchange => ?_) h
    split at hchange
    · exact tabled_appendTable hchange
    · exact tabled_addTable hchange

/-- After the last header there is a table. -/
theorem tabled_addSections {sections : List Section} (hne : sections ≠ [])
    (h : sections.foldlM addSection fields = some fields') : fields'.Tabled := by
  induction sections generalizing fields with
  | nil => exact absurd rfl hne
  | cons s more ih =>
    obtain ⟨next, hnext, hrest⟩ := Option.bind_eq_some_iff.mp h
    by_cases hmore : more = []
    · subst hmore
      obtain rfl := Option.some.inj hrest
      exact tabled_addSection hnext
    · exact ih hmore hrest

end Fields

/-! ### Lines -/

theorem sections_pairs (fields : List (List Char × Value)) :
    sections (fields.map fun f => .pair [f.1] f.2) = (fields.map fun f => ([f.1], f.2), []) := by
  induction fields with
  | nil => rfl
  | cons f more ih =>
    rw [List.map_cons, sections, List.foldr_cons]
    show (([f.1], f.2) :: (sections (more.map fun f => .pair [f.1] f.2)).1,
      (sections (more.map fun f => .pair [f.1] f.2)).2) = _
    rw [ih]
    rfl

/-- Fields whose names are new are added in order. -/
theorem assignAll_new {fields : List (List Char × Value)} : ∀ {known : Fields},
    ((known ++ fields).map (·.1)).Nodup →
      known.assignAll (fields.map fun f => ([f.1], f.2)) = some (known ++ fields) := by
  induction fields with
  | nil =>
    intro known _
    rw [List.append_nil]
    rfl
  | cons f more ih =>
    intro known hnodup
    have hnew : known.get? f.1 = none := by
      refine List.lookup_eq_none_iff.mpr fun g hg => ?_
      rw [List.map_append, List.nodup_append] at hnodup
      have hne := hnodup.2.2 g.1 (List.mem_map_of_mem hg) f.1 (by simp)
      exact bne_iff_ne.mpr (Ne.symm hne)
    have hfirst : known.assign true [f.1] f.2 = some (known ++ [f]) := by
      unfold Fields.assign
      rw [hnew]
      rfl
    have hrest : (known ++ [f]).assignAll _ = some _ :=
      ih (by rw [List.append_assoc]; exact hnodup)
    show (known.assign true [f.1] f.2).bind
      (Fields.assignAll · (more.map fun f => ([f.1], f.2))) = _
    rw [hfirst, Option.bind_some, hrest, List.append_assoc]
    rfl

/-- Without headers all lines are pairs. -/
theorem lines_of_sections {lines : List Line} (h : (sections lines).2 = []) :
    lines = (sections lines).1.map fun p => .pair p.1 p.2 := by
  induction lines with
  | nil => rfl
  | cons line more ih =>
    cases line with
    | pair key v =>
      have hmore : (sections more).2 = [] := h
      exact congrArg (Line.pair key v :: ·) (ih hmore)
    | header listed path => exact absurd h (List.cons_ne_nil _ _)

/-- Fields without a table among them are put together from a line for each, if no two have the
same name, and from nothing else. -/
theorem assembled_eq_some_iff {lines : List Line} {fields : Fields} (h : ¬fields.Tabled) :
    assembled lines = some fields ↔
      lines = fields.map (fun f => .pair [f.1] f.2) ∧ (fields.map (·.1)).Nodup := by
  unfold assembled
  constructor
  · intro hmade
    obtain ⟨top, htop, hrest⟩ := Option.bind_eq_some_iff.mp hmade
    have hnone : (sections lines).2 = [] := by
      by_contra hsome
      exact h (Fields.tabled_addSections hsome hrest)
    rw [hnone] at hrest
    obtain rfl := Option.some.inj hrest
    rcases Fields.assignAll_cases htop with htabled | ⟨new, hpairs, rfl, hnodup⟩
    · exact absurd htabled h
    · refine ⟨?_, hnodup List.nodup_nil⟩
      rw [lines_of_sections hnone, hpairs, List.map_map]
      rfl
  · rintro ⟨rfl, hnodup⟩
    rw [sections_pairs]
    dsimp only
    rw [assignAll_new (by rwa [List.nil_append])]
    rfl

end ChangeWatch.Toml
