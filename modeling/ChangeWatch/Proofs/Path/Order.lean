import ChangeWatch.Path
import Mathlib.Data.List.Sort

/-!
# Paths are totally ordered by their components

Components are ordered by kind, and names by their bytes; paths are compared component by
component, which is the order of lists that the library has (`compareComponents_eq`).  So
`Path.le` is total and transitive, and sorting by it puts paths in order, strictly if no two
of them have the same components (`mergeSort_before`).
-/

namespace ChangeWatch

/-! ### Components -/

/-- The order of names. -/
abbrev compareBytes (a b : Bytes) : Ordering :=
  compareOfLessAndEq a b

instance : Std.TransCmp compareBytes :=
  Std.TransOrd.compareOfLessAndEq_of_antisymm_of_trans_of_total_of_not_le
    List.le_antisymm List.le_trans List.le_total List.not_le

instance : Std.LawfulEqCmp compareBytes where
  compare_self := Std.ReflCmp.compare_self
  eq_of_compare h := (compareOfLessAndEq_eq_eq List.le_refl List.not_le).mp h

namespace Component

instance : Ord Component := ⟨Component.compare⟩

theorem compare_name (a b : Bytes) : Ord.compare (name a) (name b) = compareBytes a b := rfl

instance : Std.TransOrd Component where
  eq_swap {a b} := by
    cases a <;> cases b
    case name.name x y =>
      rw [compare_name, compare_name]
      exact Std.OrientedCmp.eq_swap
    all_goals rfl
  isLE_trans {a b c} hab hbc := by
    cases a <;> cases b <;> cases c
    case name.name.name x y z =>
      rw [compare_name] at hab hbc ⊢
      exact Std.TransCmp.isLE_trans hab hbc
    -- names come last, whatever they are
    all_goals
      first | rfl | exact absurd hab Bool.false_ne_true | exact absurd hbc Bool.false_ne_true

instance : Std.LawfulEqOrd Component where
  compare_self {a} := by
    cases a
    case name x => exact Std.ReflCmp.compare_self
    all_goals rfl
  eq_of_compare {a b} h := by
    cases a <;> cases b
    case name.name x y =>
      rw [compare_name] at h
      exact congrArg name (Std.LawfulEqCmp.eq_of_compare h)
    all_goals first | rfl | cases h

end Component

namespace Path

/-! ### Paths -/

theorem compareComponents_eq (a b : List Component) : compareComponents a b = compare a b := by
  induction a generalizing b with
  | nil => cases b <;> rfl
  | cons x xs ih =>
    cases b with
    | nil => rfl
    | cons y ys =>
      rw [compareComponents, List.compare_cons_cons, ih]
      rfl

theorem le_iff (p q : Path) : p.le q = true ↔ (compare p.components q.components).isLE = true := by
  unfold le
  rw [compareComponents_eq]
  cases compare p.components q.components <;> decide

theorem le_trans (p q r : Path) (hpq : p.le q = true) (hqr : q.le r = true) : p.le r = true :=
  (le_iff p r).mpr (Std.TransOrd.isLE_trans ((le_iff p q).mp hpq) ((le_iff q r).mp hqr))

theorem le_total (p q : Path) : (p.le q || q.le p) = true := by
  unfold le
  rw [compareComponents_eq, compareComponents_eq,
    Std.OrientedOrd.eq_swap (a := q.components) (b := p.components)]
  cases compare p.components q.components <;> rfl

/-- A path comes before another one that does not have the same components. -/
def before (p q : Path) : Prop :=
  compareComponents p.components q.components = .lt

instance (p q : Path) : Decidable (p.before q) :=
  inferInstanceAs (Decidable (_ = _))

theorem before_of_le {p q : Path} (h : p.le q = true) (hne : p.same q = false) : p.before q := by
  unfold before
  rw [compareComponents_eq]
  have hle := (le_iff p q).mp h
  cases horder : compare p.components q.components with
  | lt => rfl
  | eq => exact absurd (Std.LawfulEqOrd.eq_of_compare horder) (of_decide_eq_false hne)
  | gt =>
    rw [horder] at hle
    exact absurd hle (by decide)

/-- Sorting what has different paths puts it strictly in order. -/
theorem mergeSort_before {α : Type} (path : α → Path) {l : List α}
    (h : l.Pairwise fun a b => (path a).same (path b) = false) :
    (l.mergeSort fun a b => (path a).le (path b)).Pairwise
      fun a b => (path a).before (path b) := by
  have hsorted : (l.mergeSort fun a b => (path a).le (path b)).Pairwise
      fun a b => (path a).le (path b) = true :=
    List.pairwise_mergeSort (fun a b c => le_trans (path a) (path b) (path c))
      (fun a b => le_total (path a) (path b)) l
  have hdifferent : (l.mergeSort fun a b => (path a).le (path b)).Pairwise
      fun a b => (path a).same (path b) = false :=
    (List.mergeSort_perm l _).symm.pairwise h fun {a b} hab => by
      unfold same at hab ⊢
      rw [decide_eq_false_iff_not] at hab ⊢
      exact fun heq => hab heq.symm
  exact (hsorted.and hdifferent).imp fun hab => before_of_le hab.1 hab.2

end Path

end ChangeWatch
