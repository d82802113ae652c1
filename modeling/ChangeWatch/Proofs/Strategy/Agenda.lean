import ChangeWatch.Proofs.Strategy.Walk

/-!
# Agendas, carried out to their end

An agenda leads to one walk only (`Walks.unique`).  `DirTree.carryOut` computes it, from the
whole walks that the errands amount to (`walks_carryOut`); so carrying out what is left of an
agenda after its first errand comes to the same as carrying out all of it (`carryOut_step`).

What was registered and noted before makes no difference, so an agenda may be carried out from
a walk that begins afresh where another one has come to (`carryOut_fresh`).
-/

namespace ChangeWatch.DirTree

variable {σ : Type} {k k' k'' : Walk σ}

theorem Walk.after_after (k k' k'' : Walk σ) : (k.after k').after k'' = k.after (k'.after k'') := by
  simp [Walk.after]

/-- A walk that has not failed is what comes after it when it begins afresh. -/
theorem Walk.after_start (h : k.failure = none) : k.after (.start k.site k.tree) = k := by
  obtain ⟨site, tree, registered, warnings, failure⟩ := k
  obtain rfl : failure = none := h
  simp [Walk.after, Walk.start]

variable [Site σ] {kinds : List EventKind} {agenda : List Errand}

/-! ### One outcome -/

theorem Walks.unique (h : Walks kinds agenda k k') (h' : Walks kinds agenda k k'') : k' = k'' := by
  induction h with
  | done =>
    cases h' with
    | done => rfl
    | failed => rfl
  | failed hfailure => exact (h'.of_failed hfailure).symm
  | step hnone _ ih =>
    cases h' with
    | failed hfailure => exact absurd (hnone.symm.trans hfailure) (by simp)
    | step _ hrest => exact ih hrest

/-- What was registered and noted before stays in front of what is registered and noted in the
course of an agenda. -/
theorem Walks.after (h : Walks kinds agenda k k') (before : Walk σ) :
    Walks kinds agenda (before.after k) (before.after k') := by
  induction h with
  | done k => exact .done _
  | failed hfailure => exact .failed hfailure
  | @step errand rest k k' hnone _ ih =>
    have hshifted : advance kinds errand (before.after k) =
        ((advance kinds errand k).1, before.after (advance kinds errand k).2) := by
      rw [advance_eq (w := before.after k) hnone, advance_eq hnone, Walk.after_after]
      rfl
    refine .step hnone ?_
    rw [hshifted]
    exact ih

/-! ### The outcome -/

/-- The whole walk that an errand amounts to. -/
def Errand.whole (kinds : List EventKind) : Errand → Walk σ → Walk σ
  | .look start depth, k =>
    if k.failure.isSome then k else registerTree kinds start depth k
  | .enter dir depth, k => descend kinds (k.tree.maxDepth - depth) dir depth k
  | .list dir depth, k =>
    if k.failure.isSome then k
    else if depth < k.tree.maxDepth then
      (subdirectories (Site.disk k.site) dir).foldl
        (fun k child => descend kinds (k.tree.maxDepth - (depth + 1)) child (depth + 1) k) k
    else k

/-- A walk after an agenda was carried out. -/
def carryOut (kinds : List EventKind) (agenda : List Errand) (k : Walk σ) : Walk σ :=
  agenda.foldl (fun k errand => errand.whole kinds k) k

/-- To enter directories one after the other is to carry out the errands to enter them. -/
theorem walks_enters (depth : Nat) (dirs : List Path) : ∀ k : Walk σ,
    Walks kinds (dirs.map (.enter · depth)) k (dirs.foldl
      (fun k child => descend kinds (k.tree.maxDepth - depth) child depth k) k) := by
  induction dirs with
  | nil => exact .done
  | cons dir rest ih =>
    intro k
    exact (walks_descend _ depth dir k rfl).append (ih _)

theorem walks_whole (errand : Errand) (k : Walk σ) :
    Walks kinds [errand] k (errand.whole kinds k) := by
  cases hfailure : k.failure with
  | some e =>
    have hstays : errand.whole kinds k = k := by
      cases errand with
      | look start depth => exact if_pos (by rw [hfailure]; rfl)
      | enter dir depth => exact descend_of_failed hfailure dir depth
      | list dir depth => exact if_pos (by rw [hfailure]; rfl)
    rw [hstays]
    exact .failed hfailure
  | none =>
    have hgoes : ¬k.failure.isSome = true := by rw [hfailure]; simp
    cases errand with
    | look start depth =>
      simp only [Errand.whole, if_neg hgoes]
      exact walks_registerTree hfailure start depth
    | enter dir depth => exact walks_descend _ depth dir k rfl
    | list dir depth =>
      refine .step hfailure ?_
      simp only [Errand.whole, if_neg hgoes, advance]
      split
      · rw [List.append_nil]
        exact walks_enters (depth + 1) _ k
      · exact .done k

/-- Carrying out an agenda does its errands one after the other. -/
theorem walks_carryOut (agenda : List Errand) : ∀ k : Walk σ,
    Walks kinds agenda k (carryOut kinds agenda k) := by
  induction agenda with
  | nil => exact .done
  | cons errand rest ih =>
    intro k
    exact (walks_whole errand k).append (ih _)

/-- Doing the first errand, and then what is left and what it has led to, is carrying out the
agenda. -/
theorem carryOut_step (h : k.failure = none) (errand : Errand) (rest : List Errand) :
    carryOut kinds (errand :: rest) k =
      carryOut kinds ((advance kinds errand k).1 ++ rest) (advance kinds errand k).2 :=
  (walks_carryOut (errand :: rest) k).unique (.step h (walks_carryOut _ _))

theorem carryOut_of_failed {e : WatchError} (h : k.failure = some e) :
    carryOut kinds agenda k = k :=
  (walks_carryOut agenda k).of_failed h

/-- An agenda comes to the same from a walk that begins afresh. -/
theorem carryOut_fresh (h : k.failure = none) :
    carryOut kinds agenda k = k.after (carryOut kinds agenda (.start k.site k.tree)) := by
  have hfresh : Walks kinds agenda (k.after (.start k.site k.tree)) _ :=
    (walks_carryOut agenda (.start k.site k.tree)).after k
  rw [Walk.after_start h] at hfresh
  exact (walks_carryOut agenda k).unique hfresh

end ChangeWatch.DirTree
