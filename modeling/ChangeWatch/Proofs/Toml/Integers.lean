import ChangeWatch.Toml.Reader

/-!
# The integers of a document fit 64 bits

The reader of words refuses an integer that does not fit 64 bits with sign, and no other part
of the reader makes integers: a field of a document is a word, a string or what is composed of
values.  So every integer that a field of a document holds is within the limit
(`document?_fit`).
-/

namespace ChangeWatch.Toml

variable {cs rest : List Char} {n m : Int} {v : Value}

/-- A value that, where it is an integer, fits 64 bits with sign. -/
def Value.Fits : Value → Prop
  | .integer n => -(integerLimit : Int) ≤ n ∧ n < integerLimit
  | _ => True

/-! ### Words -/

theorem fits_of_fitting? (h : fitting? n = some m) : (Value.integer m).Fits := by
  unfold fitting? at h
  split at h
  · next hbound =>
    obtain rfl := Option.some.inj h
    exact hbound
  · exact absurd h (by simp)

/-- Whatever base an integer is written in, its value passes the check of its size. -/
theorem integer?_fits (h : integer? cs = some n) : (Value.integer n).Fits := by
  unfold integer? at h
  split at h
  · obtain ⟨ds, -, hn⟩ := Option.bind_eq_some_iff.mp h
    exact fits_of_fitting? hn
  · obtain ⟨ds, -, hn⟩ := Option.bind_eq_some_iff.mp h
    exact fits_of_fitting? hn
  · obtain ⟨ds, -, hn⟩ := Option.bind_eq_some_iff.mp h
    exact fits_of_fitting? hn
  · obtain ⟨ds, -, hn⟩ := Option.bind_eq_some_iff.mp h
    exact fits_of_fitting? hn

theorem word?_fits (h : word? cs = some v) : v.Fits := by
  unfold word? at h
  split at h
  · obtain rfl := Option.some.inj h
    trivial
  · obtain rfl := Option.some.inj h
    trivial
  · split at h
    · next n hn =>
      obtain rfl := Option.some.inj h
      exact integer?_fits hn
    · split at h
      · obtain rfl := Option.some.inj h
        trivial
      · split at h
        · obtain rfl := Option.some.inj h
          trivial
        · exact absurd h (by simp)

theorem scalar_fits (h : scalar cs = some (v, rest)) : v.Fits := by
  unfold scalar at h
  dsimp only at h
  split at h
  · -- a date, with or without a time of day
    split at h
    · obtain ⟨rfl, -⟩ := Prod.mk.inj (Option.some.inj h)
      trivial
    · obtain ⟨rfl, -⟩ := Prod.mk.inj (Option.some.inj h)
      trivial
  · obtain ⟨w, hw, heq⟩ := Option.map_eq_some_iff.mp h
    obtain ⟨rfl, -⟩ := Prod.mk.inj heq
    exact word?_fits hw

/-! ### Values and lines -/

theorem flat?_fits (h : flat? cs = some (v, rest)) : v.Fits := by
  unfold flat? at h
  split at h
  · obtain ⟨text, -, heq⟩ := Option.map_eq_some_iff.mp h
    obtain ⟨rfl, -⟩ := Prod.mk.inj heq
    trivial
  · obtain ⟨text, -, heq⟩ := Option.map_eq_some_iff.mp h
    obtain ⟨rfl, -⟩ := Prod.mk.inj heq
    trivial
  · exact scalar_fits h

/-- What is composed of values is no integer itself. -/
theorem compound?_fits {item : List Char → Option (Value × List Char)} {opening : Char}
    (h : compound? item opening cs = some (v, rest)) : v.Fits := by
  unfold compound? at h
  split at h
  · obtain ⟨vs, -, heq⟩ := Option.map_eq_some_iff.mp h
    obtain ⟨rfl, -⟩ := Prod.mk.inj heq
    trivial
  · split at h
    · obtain ⟨rfl, -⟩ := Prod.mk.inj (Option.some.inj h)
      trivial
    · obtain ⟨ps, -, h⟩ := Option.bind_eq_some_iff.mp h
      obtain ⟨fields, -, h⟩ := Option.bind_eq_some_iff.mp h
      obtain ⟨rfl, -⟩ := Prod.mk.inj (Option.some.inj h)
      trivial

theorem value?_fits {depth : Nat} (h : value? depth cs = some (v, rest)) : v.Fits := by
  cases depth with
  | zero => exact flat?_fits h
  | succ depth =>
    unfold value? at h
    split at h
    · exact compound?_fits h
    · exact compound?_fits h
    · exact flat?_fits h

theorem topPair?_fits {key : List Name} (h : topPair? cs = some ((key, v), rest)) : v.Fits := by
  obtain ⟨found, -, h⟩ := Option.bind_eq_some_iff.mp h
  obtain ⟨after, -, h⟩ := Option.bind_eq_some_iff.mp h
  obtain ⟨⟨w, rest⟩, hw, h⟩ := Option.bind_eq_some_iff.mp h
  obtain ⟨heq, -⟩ := Prod.mk.inj (Option.some.inj h)
  obtain ⟨-, rfl⟩ := Prod.mk.inj heq
  exact value?_fits hw

/-- The value of a line that has one fits. -/
def Line.Fits : Line → Prop
  | .pair _ v => v.Fits
  | .header _ _ => True

theorem header?_fits {line : Line} (h : header? cs = some (line, rest)) : line.Fits := by
  unfold header? at h
  split at h
  · obtain ⟨found, -, h⟩ := Option.bind_eq_some_iff.mp h
    obtain ⟨once, -, h⟩ := Option.bind_eq_some_iff.mp h
    obtain ⟨twice, -, h⟩ := Option.bind_eq_some_iff.mp h
    obtain ⟨rfl, -⟩ := Prod.mk.inj (Option.some.inj h)
    trivial
  · obtain ⟨found, -, h⟩ := Option.bind_eq_some_iff.mp h
    obtain ⟨once, -, h⟩ := Option.bind_eq_some_iff.mp h
    obtain ⟨rfl, -⟩ := Prod.mk.inj (Option.some.inj h)
    trivial
  · exact absurd h (by simp)

theorem lines?_fits {rounds : Nat} {lines : List Line} (h : lines? rounds cs = some lines) :
    ∀ line ∈ lines, line.Fits := by
  induction rounds generalizing cs lines with
  | zero => exact absurd h (by simp [lines?])
  | succ rounds ih =>
    unfold lines? at h
    split at h
    · obtain rfl := Option.some.inj h
      exact fun line hline => absurd hline List.not_mem_nil
    · split at h
      · obtain ⟨rest, -, h⟩ := Option.bind_eq_some_iff.mp h
        exact ih h
      · split at h
        · obtain ⟨⟨first, rest⟩, hfirst, h⟩ := Option.bind_eq_some_iff.mp h
          obtain ⟨rest, -, h⟩ := Option.bind_eq_some_iff.mp h
          obtain ⟨more, hmore, rfl⟩ := Option.map_eq_some_iff.mp h
          exact List.forall_mem_cons.mpr ⟨header?_fits hfirst, ih hmore⟩
        · obtain ⟨⟨⟨key, v⟩, rest⟩, hpair, h⟩ := Option.bind_eq_some_iff.mp h
          obtain ⟨rest, -, h⟩ := Option.bind_eq_some_iff.mp h
          obtain ⟨more, hmore, rfl⟩ := Option.map_eq_some_iff.mp h
          exact List.forall_mem_cons.mpr ⟨topPair?_fits hpair, ih hmore⟩

/-! ### Tables -/

/-- The values of these pairs fit. -/
def PairsFit (pairs : List (List Name × Value)) : Prop :=
  ∀ p ∈ pairs, p.2.Fits

theorem sections_fit {lines : List Line} (h : ∀ line ∈ lines, line.Fits) :
    PairsFit (sections lines).1 := by
  induction lines with
  | nil => exact fun _ hp => absurd hp List.not_mem_nil
  | cons line more ih =>
    obtain ⟨hline, hmore⟩ := List.forall_mem_cons.mp h
    cases line with
    | pair key v => exact List.forall_mem_cons.mpr ⟨hline, ih hmore⟩
    | header listed path => exact fun _ hp => absurd hp List.not_mem_nil

namespace Fields

variable {fields fields' : Fields} {key : Name}

/-- The values of these fields fit. -/
def Fit (fields : Fields) : Prop :=
  ∀ f ∈ fields, f.2.Fits

theorem fit_nil : Fit [] := fun _ hf => absurd hf List.not_mem_nil

theorem Fit.add (h : fields.Fit) (hv : v.Fits) : (fields.add key v).Fit := by
  intro f hf
  rcases List.mem_append.mp hf with hf | hf
  · exact h f hf
  · obtain rfl := List.mem_singleton.mp hf
    exact hv

theorem Fit.set (h : fields.Fit) (hv : v.Fits) : (fields.set key v).Fit := by
  intro f hf
  obtain ⟨g, hg, rfl⟩ := List.mem_map.mp hf
  dsimp only
  split
  · exact hv
  · exact h g hg

theorem Fit.erase (h : fields.Fit) : (fields.erase key).Fit :=
  fun f hf => h f (List.mem_filter.mp hf).1

/-- A dotted key puts its value into a table; only a key of one part puts it among the fields
themselves. -/
theorem Fit.assign {here : Bool} {path : List Name} (h : fields.Fit) (hv : v.Fits)
    (hassign : fields.assign here path v = some fields') : fields'.Fit := by
  unfold Fields.assign at hassign
  split at hassign
  · exact absurd hassign (by simp)
  · split at hassign
    · obtain rfl := Option.some.inj hassign
      exact h.add hv
    · exact absurd hassign (by simp)
  · split at hassign
    · obtain ⟨inner, -, rfl⟩ := Option.map_eq_some_iff.mp hassign
      exact h.add trivial
    · obtain ⟨inner, -, rfl⟩ := Option.map_eq_some_iff.mp hassign
      exact h.set trivial
    · obtain ⟨inner, -, rfl⟩ := Option.map_eq_some_iff.mp hassign
      exact h.set trivial
    · obtain ⟨inner, -, rfl⟩ := Option.map_eq_some_iff.mp hassign
      exact h.set trivial
    · exact absurd hassign (by simp)

theorem Fit.assignAll {pairs : List (List Name × Value)} (h : fields.Fit) (hpairs : PairsFit pairs)
    (hassign : fields.assignAll pairs = some fields') : fields'.Fit := by
  induction pairs generalizing fields with
  | nil =>
    obtain rfl := Option.some.inj hassign
    exact h
  | cons p more ih =>
    obtain ⟨hfirst, hmore⟩ := List.forall_mem_cons.mp hpairs
    obtain ⟨next, hnext, hrest⟩ := Option.bind_eq_some_iff.mp hassign
    exact ih (h.assign hfirst hnext) hmore hrest

/-- A header of more than one part changes a table among the fields, and leaves it a table. -/
theorem Fit.within {change : Fields → Option Fields} {path : List Name} (h : fields.Fit)
    (hchange : ∀ {fields'}, change fields = some fields' → fields'.Fit)
    (hwithin : fields.within change path = some fields') : fields'.Fit := by
  unfold Fields.within at hwithin
  split at hwithin
  · exact hchange hwithin
  · split at hwithin
    · obtain ⟨inner, -, rfl⟩ := Option.map_eq_some_iff.mp hwithin
      exact h.add trivial
    · exact absurd hwithin (by simp)
    · obtain ⟨inner, -, rfl⟩ := Option.map_eq_some_iff.mp hwithin
      exact h.set trivial
    · obtain ⟨inner, -, rfl⟩ := Option.map_eq_some_iff.mp hwithin
      exact h.set trivial
    · exact absurd hwithin (by simp)

theorem Fit.addTable {pairs : List (List Name × Value)} (h : fields.Fit)
    (hadd : fields.addTable key pairs = some fields') : fields'.Fit := by
  unfold Fields.addTable at hadd
  split at hadd
  · obtain ⟨own, -, rfl⟩ := Option.map_eq_some_iff.mp hadd
    exact h.add trivial
  · obtain ⟨own, -, rfl⟩ := Option.map_eq_some_iff.mp hadd
    exact h.erase.add trivial
  · exact absurd hadd (by simp)

theorem Fit.appendTable {pairs : List (List Name × Value)} (h : fields.Fit)
    (hadd : fields.appendTable key pairs = some fields') : fields'.Fit := by
  unfold Fields.appendTable at hadd
  split at hadd
  · obtain ⟨own, -, rfl⟩ := Option.map_eq_some_iff.mp hadd
    exact h.add trivial
  · obtain ⟨own, -, rfl⟩ := Option.map_eq_some_iff.mp hadd
    exact h.set trivial
  · exact absurd hadd (by simp)

theorem Fit.addSection {s : Section} (h : fields.Fit)
    (hadd : fields.addSection s = some fields') : fields'.Fit := by
  unfold Fields.addSection at hadd
  split at hadd
  · exact absurd hadd (by simp)
  · refine h.within (fun {fields'} hchange => ?_) hadd
    split at hchange
    · exact h.appendTable hchange
    · exact h.addTable hchange

theorem Fit.addSections {sections : List Section} (h : fields.Fit)
    (hadd : sections.foldlM Fields.addSection fields = some fields') : fields'.Fit := by
  induction sections generalizing fields with
  | nil =>
    obtain rfl := Option.some.inj hadd
    exact h
  | cons s more ih =>
    obtain ⟨next, hnext, hrest⟩ := Option.bind_eq_some_iff.mp hadd
    exact ih (h.addSection hnext) hrest

end Fields

/-- The values of the fields of a document fit. -/
theorem document?_fit {text : List Char} {fields : Fields} (h : document? text = some fields) :
    fields.Fit := by
  obtain ⟨lines, hlines, h⟩ := Option.bind_eq_some_iff.mp h
  obtain ⟨top, htop, h⟩ := Option.bind_eq_some_iff.mp h
  have hpairs := sections_fit (lines?_fits hlines)
  exact (Fields.fit_nil.assignAll hpairs htop).addSections h

end ChangeWatch.Toml
