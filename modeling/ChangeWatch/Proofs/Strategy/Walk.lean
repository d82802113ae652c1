import ChangeWatch.Proofs.Service.Steps
import ChangeWatch.Strategy.DirTree

/-!
# A walk, errand by errand

The walk over a tree is written twice: whole, by recursion (`DirTree.registerTree`,
`DirTree.descend`), and as an agenda of errands of which `DirTree.advance` does
one at a time.  `Walks` says that an agenda is done to its end, or up to a failure;
the whole walk is what doing the agenda of its start amounts to
(`walks_registerTree`), and so what every errand preserves holds after it
(`Walks.preserved`).

A step adds to what was registered and noted before, and does not look at it
(`advance_eq`), so a walk may be begun afresh at every step.
-/

namespace ChangeWatch.DirTree

variable {σ : Type} [Site σ] {kinds : List EventKind}

/-! ### One step -/

/-- A walk with what was registered and noted before it. -/
def Walk.after (before k : Walk σ) : Walk σ :=
  { k with
    registered := before.registered ++ k.registered
    warnings := before.warnings ++ k.warnings }

theorem enter_eq {w : Walk σ} (h : w.failure = none) (dir : Path) (depth : Nat) :
    enter kinds dir depth w = ((enter kinds dir depth (.start w.site w.tree)).1,
      w.after (enter kinds dir depth (.start w.site w.tree)).2) := by
  obtain ⟨site, tree, registered, warnings, failure⟩ := w
  obtain rfl : failure = none := h
  simp only [enter, Walk.start, Walk.after]
  rcases Site.register dir kinds site with ⟨r, site'⟩
  cases r with
  | error e => simp
  | ok key =>
    by_cases hdeep : (tree.setNode key ⟨dir, depth⟩).maxDepth ≤ depth
    · simp [hdeep]
    · by_cases hopened : (Site.disk site).isDir dir = true
      · simp [hdeep, hopened]
      · simp [hdeep, hopened]

/-- A step does the same from wherever the walk has come. -/
theorem advance_eq {w : Walk σ} (h : w.failure = none) (errand : Errand) :
    advance kinds errand w = ((advance kinds errand (.start w.site w.tree)).1,
      w.after (advance kinds errand (.start w.site w.tree)).2) := by
  cases errand with
  | look start depth =>
    obtain ⟨site, tree, registered, warnings, failure⟩ := w
    obtain rfl : failure = none := h
    simp only [advance, Walk.start, Walk.after]
    by_cases hdeep : tree.maxDepth < depth
    · simp [hdeep]
    · cases footing (Site.disk site) start <;> simp [hdeep]
  | enter dir depth =>
    simp only [advance]
    rw [enter_eq h]
    rcases enter kinds dir depth (.start w.site w.tree) with ⟨below, k⟩
    cases below <;> rfl
  | list dir depth =>
    obtain ⟨site, tree, registered, warnings, failure⟩ := w
    obtain rfl : failure = none := h
    simp only [advance, Walk.start, Walk.after]
    by_cases hbelow : depth < tree.maxDepth
    · simp [hbelow]
    · simp [hbelow]

@[simp] theorem setNode_root (t : DirTree) (key : Key) (node : Node) :
    (t.setNode key node).root = t.root := by
  unfold setNode
  split <;> rfl

@[simp] theorem setNode_maxDepth (t : DirTree) (key : Key) (node : Node) :
    (t.setNode key node).maxDepth = t.maxDepth := by
  unfold setNode
  split <;> rfl

/-- A node is kept under its key alone. -/
theorem node?_setNode (t : DirTree) (key key' : Key) (node : Node) :
    (t.setNode key node).node? key' = if key' = key then some node else t.node? key' := by
  unfold setNode node?
  rw [← lookup_write t.nodes key key' node]
  split <;> rfl

/-- Keeping a node adds no other one. -/
theorem mem_setNode {t : DirTree} {key : Key} {node : Node} {entry : Key × Node}
    (h : entry ∈ (t.setNode key node).nodes) : entry ∈ t.nodes ∨ entry = (key, node) := by
  unfold setNode at h
  split at h
  · obtain ⟨⟨k, old⟩, hmem, rfl⟩ := List.mem_map.mp h
    dsimp only
    split
    · next hkey => exact Or.inr (by rw [hkey])
    · exact Or.inl hmem
  · exact (List.mem_append.mp h).imp_right List.mem_singleton.mp

/-- Entering a directory fails, or keeps a node of it under the key that it was given. -/
theorem enter_cases (kinds : List EventKind) (dir : Path) (depth : Nat) (w : Walk σ) :
    (∃ e site, Site.register dir kinds w.site = (.error e, site) ∧
      enter kinds dir depth w = (false, { w with site, failure := some e })) ∨
    ∃ key site below warnings, Site.register dir kinds w.site = (.ok key, site) ∧
      (below = true → depth < w.tree.maxDepth) ∧
      enter kinds dir depth w = (below, { w with
        site, tree := w.tree.setNode key ⟨dir, depth⟩, registered := w.registered ++ [dir]
        warnings }) := by
  unfold enter
  rcases hregister : Site.register dir kinds w.site with ⟨r, site⟩
  cases r with
  | error e => exact Or.inl ⟨e, site, rfl, rfl⟩
  | ok key =>
    refine Or.inr ⟨key, site, ?_⟩
    dsimp only
    rw [setNode_maxDepth]
    split
    · exact ⟨false, _, rfl, by simp, rfl⟩
    · next hdeep =>
      split
      · exact ⟨true, _, rfl, fun _ => Nat.not_le.mp hdeep, rfl⟩
      · exact ⟨false, _, rfl, by simp, rfl⟩

/-- A step of a walk enters a directory, or adds warnings at most. -/
theorem advance_cases (kinds : List EventKind) (errand : Errand) (w : Walk σ) :
    (∃ dir depth, errand = .enter dir depth ∧
      (advance kinds errand w).2 = (enter kinds dir depth w).2) ∨
    ∃ warnings, (advance kinds errand w).2 = { w with warnings } := by
  cases errand with
  | look start depth =>
    refine Or.inr ?_
    simp only [advance]
    split
    · exact ⟨_, rfl⟩
    · split <;> exact ⟨_, rfl⟩
  | enter dir depth =>
    refine Or.inl ⟨dir, depth, rfl, ?_⟩
    simp only [advance]
    split <;> next heq => rw [heq]
  | list dir depth =>
    refine Or.inr ?_
    simp only [advance]
    split <;> exact ⟨_, rfl⟩

/-- No step changes how deep the tree goes. -/
theorem enter_maxDepth {w w' : Walk σ} {dir : Path} {depth : Nat} {below : Bool}
    (h : enter kinds dir depth w = (below, w')) : w'.tree.maxDepth = w.tree.maxDepth := by
  rcases enter_cases kinds dir depth w with
    ⟨_, _, -, heq⟩ | ⟨_, _, _, _, -, -, heq⟩ <;>
    obtain ⟨-, rfl⟩ := Prod.mk.inj (h.symm.trans heq)
  · rfl
  · exact setNode_maxDepth _ _ _

/-- A walk goes on below a directory only if it may, and then it has not failed. -/
theorem enter_below {w w' : Walk σ} {dir : Path} {depth : Nat}
    (h : enter kinds dir depth w = (true, w')) :
    depth < w.tree.maxDepth ∧ w'.failure = w.failure := by
  rcases enter_cases kinds dir depth w with
    ⟨_, _, -, heq⟩ | ⟨_, _, _, _, -, hbelow, heq⟩ <;>
    obtain ⟨hgoes, rfl⟩ := Prod.mk.inj (h.symm.trans heq)
  · exact absurd hgoes (by simp)
  · exact ⟨hbelow hgoes.symm, rfl⟩

/-! ### A whole agenda -/

/-- The errands of an agenda are done one after the other, each followed by what it
leads to, until there is none left or the walk has failed. -/
inductive Walks (kinds : List EventKind) : List Errand → Walk σ → Walk σ → Prop
  | done (w : Walk σ) : Walks kinds [] w w
  | failed {agenda : List Errand} {w : Walk σ} {e : WatchError} :
      w.failure = some e → Walks kinds agenda w w
  | step {errand : Errand} {rest : List Errand} {w w' : Walk σ} :
      w.failure = none →
        Walks kinds ((advance kinds errand w).1 ++ rest) (advance kinds errand w).2 w' →
        Walks kinds (errand :: rest) w w'

theorem Walks.of_failed {agenda : List Errand} {w w' : Walk σ} {e : WatchError}
    (h : Walks kinds agenda w w') (hw : w.failure = some e) : w' = w := by
  cases h with
  | done => rfl
  | failed => rfl
  | step hnone => exact absurd (hw.symm.trans hnone) (by simp)

/-- With nothing left to do, nothing is done. -/
theorem Walks.of_nil {w w' : Walk σ} (h : Walks kinds [] w w') : w' = w := by
  cases h <;> rfl

/-- A walk that has not failed goes on with the errand that is next. -/
theorem Walks.next {errand : Errand} {rest : List Errand} {w w' : Walk σ}
    (h : Walks kinds (errand :: rest) w w') (hnone : w.failure = none) :
    Walks kinds ((advance kinds errand w).1 ++ rest) (advance kinds errand w).2 w' := by
  cases h with
  | failed hfailed => exact absurd (hnone.symm.trans hfailed) (by simp)
  | step _ hrest => exact hrest

/-- The first part of an agenda is done before the second. -/
theorem Walks.append {a b : List Errand} {w w' w'' : Walk σ} (ha : Walks kinds a w w')
    (hb : Walks kinds b w' w'') : Walks kinds (a ++ b) w w'' := by
  induction ha with
  | done w => exact hb
  | failed hw =>
    obtain rfl := hb.of_failed hw
    exact .failed hw
  | @step errand rest w w' hnone _ ih =>
    have hnext : Walks kinds ((advance kinds errand w).1 ++ (rest ++ b)) (advance kinds errand w).2
        w'' := by
      rw [← List.append_assoc]
      exact ih hb
    exact .step hnone hnext

/-- What every errand of a kind preserves, and leads to no errand of another kind, a
walk preserves. -/
theorem Walks.preserved {I : Walk σ → Prop} {P : Errand → Prop}
    (hstep : ∀ errand w, P errand → w.failure = none → I w →
      I (advance kinds errand w).2 ∧ ∀ e ∈ (advance kinds errand w).1, P e)
    {agenda : List Errand} {w w' : Walk σ} (h : Walks kinds agenda w w')
    (hagenda : ∀ e ∈ agenda, P e) (hw : I w) : I w' := by
  induction h with
  | done => exact hw
  | failed => exact hw
  | @step errand rest w w' hnone _ ih =>
    obtain ⟨hnext, hmore⟩ := hstep errand w (hagenda errand List.mem_cons_self) hnone hw
    refine ih (fun e he => ?_) hnext
    rcases List.mem_append.mp he with he | he
    · exact hmore e he
    · exact hagenda e (List.mem_cons_of_mem _ he)

/-! ### The whole walk -/

theorem descend_of_failed {levels : Nat} {w : Walk σ} {e : WatchError} (h : w.failure = some e)
    (dir : Path) (depth : Nat) : descend kinds levels dir depth w = w := by
  unfold descend
  rw [if_pos (by rw [h]; rfl)]

theorem descend_of_leaf {levels : Nat} {w w' : Walk σ} {dir : Path} {depth : Nat}
    (h : w.failure = none) (henter : enter kinds dir depth w = (false, w')) :
    descend kinds levels dir depth w = w' := by
  unfold descend
  rw [if_neg (by rw [h]; simp), henter]

theorem descend_of_below {levels : Nat} {w w' : Walk σ} {dir : Path} {depth : Nat}
    (h : w.failure = none) (henter : enter kinds dir depth w = (true, w')) :
    descend kinds (levels + 1) dir depth w =
      (subdirectories (Site.disk w'.site) dir).foldl
        (fun w child => descend kinds levels child (depth + 1) w) w' := by
  rw [descend.eq_def]
  dsimp only
  rw [if_neg (by rw [h]; simp), henter]

/-- The whole walk from a directory leaves the depth of the tree as it is. -/
theorem descend_maxDepth (levels : Nat) :
    ∀ (dir : Path) (depth : Nat) (w : Walk σ), levels = w.tree.maxDepth - depth →
      (descend kinds levels dir depth w).tree.maxDepth = w.tree.maxDepth := by
  induction levels with
  | zero =>
    intro dir depth w hlevels
    cases hfailure : w.failure with
    | some e => rw [descend_of_failed hfailure]
    | none =>
      rcases hentered : enter kinds dir depth w with ⟨below, w₁⟩
      cases below with
      | false => rw [descend_of_leaf hfailure hentered, enter_maxDepth hentered]
      | true =>
        -- at the bottom there is no level left to go on to
        have hdeep := (enter_below hentered).1
        omega
  | succ levels ih =>
    intro dir depth w hlevels
    have hfold : ∀ (dirs : List Path) (w : Walk σ), levels = w.tree.maxDepth - (depth + 1) →
        (dirs.foldl (fun w child => descend kinds levels child (depth + 1) w) w).tree.maxDepth =
          w.tree.maxDepth := by
      intro dirs
      induction dirs with
      | nil => intro w _; rfl
      | cons child rest ihDirs =>
        intro w hw
        have hchild := ih child (depth + 1) w hw
        rw [List.foldl_cons, ihDirs _ (hw.trans (by rw [hchild])), hchild]
    cases hfailure : w.failure with
    | some e => rw [descend_of_failed hfailure]
    | none =>
      rcases hentered : enter kinds dir depth w with ⟨below, w₁⟩
      have hmax := enter_maxDepth hentered
      cases below with
      | false => rw [descend_of_leaf hfailure hentered, hmax]
      | true => rw [descend_of_below hfailure hentered, hfold _ w₁ (by omega), hmax]

/-- Errands to enter several directories, if each is done as the whole walk is. -/
theorem walks_each {levels depth : Nat}
    (h : ∀ (dir : Path) (w : Walk σ), levels = w.tree.maxDepth - depth →
      Walks kinds [.enter dir depth] w (descend kinds levels dir depth w)) :
    ∀ (dirs : List Path) (w : Walk σ), levels = w.tree.maxDepth - depth →
      Walks kinds (dirs.map (.enter · depth)) w
        (dirs.foldl (fun w child => descend kinds levels child depth w) w) := by
  intro dirs
  induction dirs with
  | nil => intro w _; exact .done w
  | cons child rest ih =>
    intro w hw
    have hmax : (descend kinds levels child depth w).tree.maxDepth = w.tree.maxDepth :=
      descend_maxDepth levels child depth w hw
    exact (h child w hw).append (ih _ (by rw [hmax]; exact hw))

/-- Doing the errand to enter a directory, and what it leads to, is the whole walk
from there. -/
theorem walks_descend (levels : Nat) :
    ∀ (depth : Nat) (dir : Path) (w : Walk σ), levels = w.tree.maxDepth - depth →
      Walks kinds [.enter dir depth] w (descend kinds levels dir depth w) := by
  induction levels with
  | zero =>
    intro depth dir w hlevels
    cases hfailure : w.failure with
    | some e =>
      rw [descend_of_failed hfailure]
      exact .failed hfailure
    | none =>
      refine .step hfailure ?_
      simp only [advance]
      rcases hentered : enter kinds dir depth w with ⟨below, w₁⟩
      cases below with
      | false =>
        rw [descend_of_leaf hfailure hentered]
        exact .done w₁
      | true =>
        have hdeep := (enter_below hentered).1
        omega
  | succ levels ih =>
    intro depth dir w hlevels
    cases hfailure : w.failure with
    | some e =>
      rw [descend_of_failed hfailure]
      exact .failed hfailure
    | none =>
      refine .step hfailure ?_
      simp only [advance]
      rcases hentered : enter kinds dir depth w with ⟨below, w₁⟩
      have hmax := enter_maxDepth hentered
      cases below with
      | false =>
        rw [descend_of_leaf hfailure hentered]
        exact .done w₁
      | true =>
        obtain ⟨hbelow, hkept⟩ := enter_below hentered
        rw [descend_of_below hfailure hentered]
        -- the errand that follows lists the directory, and enters what is in it
        refine .step (hkept.trans hfailure) ?_
        have hlist : depth < w₁.tree.maxDepth := hmax ▸ hbelow
        simp only [advance, if_pos hlist]
        show Walks kinds (_ ++ []) w₁ _
        rw [List.append_nil]
        exact walks_each (ih (depth + 1)) _ w₁ (by omega)

/-- Looking at the start of a walk, and what it leads to, is the whole walk. -/
theorem walks_registerTree {w : Walk σ} (h : w.failure = none) (start : Path) (depth : Nat) :
    Walks kinds [.look start depth] w (registerTree kinds start depth w) := by
  refine .step h ?_
  unfold registerTree
  simp only [advance]
  by_cases hdeep : w.tree.maxDepth < depth
  · rw [if_pos hdeep, if_pos hdeep]
    exact .done w
  · rw [if_neg hdeep, if_neg hdeep]
    cases footing (Site.disk w.site) start with
    | directory => exact walks_descend _ depth start w rfl
    | nothing => exact .done w
    | unreadable => exact .done _
    | linked =>
      refine .step h ?_
      simp only [advance]
      cases hlevels : w.tree.maxDepth - depth with
      | zero =>
        rw [if_neg (by omega)]
        exact .done w
      | succ levels =>
        have hbelow : depth < w.tree.maxDepth := by omega
        simp only [if_pos hbelow]
        show Walks kinds (_ ++ []) w _
        rw [List.append_nil]
        exact walks_each (walks_descend levels (depth + 1)) _ w (by omega)

end ChangeWatch.DirTree
