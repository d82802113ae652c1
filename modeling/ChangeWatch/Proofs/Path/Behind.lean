import ChangeWatch.Proofs.Path

/-!
# Paths with one more part

A path may be written as another one with one more part behind it, up to parts that are no steps
(`Path.Behind`).  So a child is written behind the path of which it is one (`behind_child`), and
a path behind its parent, or behind the working directory if it is a lone name
(`behind_parent`).  Nothing is in such a path but what is in the other one, in the part, and
slashes and dots (`Behind.mem`).
-/

namespace ChangeWatch.Path

variable {p q : Path} {n last : Bytes}

/-! ### One part behind a path -/

/-- A path is written as another one with one more part behind it, up to parts that are no
steps. -/
structure Behind (p q : Path) (last : Bytes) : Prop where
  absolute : q.isAbsolute = p.isAbsolute
  parts : ∃ front extra middle tail, p.parts = front ++ extra ∧
    q.parts = front ++ (middle ++ last :: tail) ∧ (∀ part ∈ extra, Idle part) ∧
    (∀ part ∈ middle, Idle part) ∧ ∀ part ∈ tail, Idle part

theorem Behind.mem_parts (h : p.Behind q last) : last ∈ q.parts := by
  obtain ⟨front, -, middle, tail, -, hq, -⟩ := h.parts
  rw [hq]
  simp

/-- The part is in the path. -/
theorem Behind.subset (h : p.Behind q last) : last ⊆ q.bytes :=
  (splitOn_part q.bytes last h.mem_parts).2

/-- A part that is a component, and no way up, is a proper name. -/
theorem Behind.normal {c : Component} (h : p.Behind q last) (hc : innerComponent last = some c)
    (hup : c ≠ .up) : Normal last ∧ c = .name last := by
  have hslash : slash ∉ last := not_mem_of_mem_splitOn q.bytes last h.mem_parts
  have hname : c = .name last := by
    unfold innerComponent at hc
    split at hc
    · exact absurd hc (by simp)
    · split at hc
      · exact absurd (Option.some.inj hc).symm hup
      · exact (Option.some.inj hc).symm
  rw [hname] at hc
  exact ⟨normal_of_innerComponent hc hslash, hname⟩

/-- What is in joined parts is a slash or in one of them. -/
theorem mem_ofParts {parts : List Bytes} {x : UInt8} (h : x ∈ (ofParts parts).bytes) :
    x = slash ∨ ∃ part ∈ parts, x ∈ part := by
  unfold ofParts at h
  induction parts with
  | nil => exact absurd h (by simp)
  | cons part rest ih =>
    by_cases hrest : rest = []
    · subst hrest
      rw [List.intercalate_singleton] at h
      exact Or.inr ⟨part, List.mem_cons_self, h⟩
    · rw [List.intercalate_cons_of_ne_nil hrest] at h
      rcases List.mem_append.mp h with h | h
      · rcases List.mem_append.mp h with h | h
        · exact Or.inr ⟨part, List.mem_cons_self, h⟩
        · exact Or.inl (List.mem_singleton.mp h)
      · rcases ih h with hslash | ⟨other, hother, hx⟩
        · exact Or.inl hslash
        · exact Or.inr ⟨other, List.mem_cons_of_mem _ hother, hx⟩

theorem ofParts_parts (p : Path) : ofParts p.parts = p := by
  unfold ofParts parts
  rw [List.intercalate_splitOn]

/-- What is in a path with one more part is in the other path or in the part, or it is a slash or a
dot. -/
theorem Behind.mem (h : p.Behind q last) {x : UInt8} (hx : x ∈ q.bytes) :
    x ∈ p.bytes ∨ x ∈ last ∨ x = slash ∨ x = dot := by
  obtain ⟨front, extra, middle, tail, hp, hq, -, hmiddle, htail⟩ := h.parts
  have hjoined : x ∈ (ofParts (front ++ (middle ++ last :: tail))).bytes := by
    rwa [← hq, ofParts_parts]
  have hdot : ∀ {part}, Idle part → x ∈ part → x = dot := by
    rintro part (rfl | rfl) hx
    · exact absurd hx List.not_mem_nil
    · exact List.mem_singleton.mp hx
  rcases mem_ofParts hjoined with hslash | ⟨part, hpart, hx⟩
  · exact Or.inr (Or.inr (Or.inl hslash))
  · rw [List.mem_append, List.mem_append, List.mem_cons] at hpart
    rcases hpart with hpart | hpart | rfl | hpart
    · have hmem : part ∈ p.parts := hp ▸ List.mem_append_left _ hpart
      exact Or.inl ((splitOn_part p.bytes part hmem).2 hx)
    · exact Or.inr (Or.inr (Or.inr (hdot (hmiddle part hpart) hx)))
    · exact Or.inr (Or.inl hx)
    · exact Or.inr (Or.inr (Or.inr (hdot (htail part hpart) hx)))

/-- A child is written behind the path of which it is one, a slash at whose end does not count. -/
theorem behind_child (hne : p.bytes ≠ []) (h : Normal n) : p.Behind (p.child n) n := by
  obtain ⟨bytes⟩ := p
  have hrelative : (Path.mk n).isAbsolute = false :=
    decide_eq_false fun hhead => h.no_slash (List.mem_of_head? hhead)
  have habsolute : ∀ more, (Path.mk (bytes ++ more)).isAbsolute = (Path.mk bytes).isAbsolute := by
    intro more
    unfold isAbsolute
    rw [List.head?_append_of_ne_nil _ hne]
  unfold child join
  rw [if_neg (by rw [hrelative]; simp)]
  by_cases hslash : bytes.getLast? = some slash
  · obtain ⟨front, rfl⟩ := List.getLast?_eq_some_iff.mp hslash
    rw [if_pos (Or.inr hslash)]
    refine ⟨habsolute n, (Path.mk front).parts, [[]], [], [], ?_, ?_, by simp [Idle], by simp,
      by simp⟩
    · unfold parts
      rw [splitOn_append, List.splitOn_nil]
    · unfold parts
      rw [List.append_assoc, List.singleton_append, splitOn_append, splitOn_of_not_mem h.no_slash]
      rfl
  · rw [if_neg (not_or.mpr ⟨hne, hslash⟩)]
    refine ⟨habsolute _, (Path.mk bytes).parts, [], [], [], (List.append_nil _).symm, ?_, by simp,
      by simp, by simp⟩
    unfold parts
    rw [splitOn_append, splitOn_of_not_mem h.no_slash]
    rfl

/-! ### Behind a parent -/

/-- A path is written behind its parent, or behind the working directory where the parent is
empty; what is behind is its last component. -/
theorem behind_parent (h : q.parent = some p) :
    ∃ last c, (if p.bytes = [] then here else p).Behind q last ∧
      q.components = p.components ++ [c] ∧
      (innerComponent last = some c ∨ p.bytes = [] ∧ firstComponent last = some c) := by
  cases h ▸ ascends q with
  | @lone first idle hparts hfirst hidle =>
    obtain ⟨c, hc⟩ := exists_firstComponent hfirst
    refine ⟨first, c, ⟨?_, [], [[dot]], [], idle, rfl, hparts, by simp [Idle], by simp, hidle⟩, ?_,
      Or.inr ⟨rfl, hc⟩⟩
    · rw [isAbsolute_of_parts hparts, if_pos rfl, decide_eq_false fun hroot => hfirst hroot.1]
      rfl
    · exact components_of_lone hparts hfirst hidle hc
  | @below _ first last c front extra middle tail hup hparts hempty habsolute hc hextra hmiddle
      htail =>
    rw [if_neg hempty]
    exact ⟨last, c, ⟨habsolute.symm, first :: front, extra, middle, tail, hup, hparts, hextra,
      hmiddle, htail⟩, components_of_below hup hparts habsolute hc hextra hmiddle htail, Or.inl hc⟩

/-- The parent of a path without `..` has none either. -/
theorem up_not_mem_parent (hparent : q.parent = some p)
    (hup : Component.up ∉ q.components) : Component.up ∉ p.components := by
  obtain ⟨last, c, -, hcomponents, -⟩ := behind_parent hparent
  rw [hcomponents] at hup
  exact fun hmem => hup (List.mem_append_left _ hmem)

end ChangeWatch.Path
