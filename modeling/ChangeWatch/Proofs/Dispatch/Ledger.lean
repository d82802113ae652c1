import ChangeWatch.Dispatch.Debouncer
import Mathlib.Data.List.Nodup

/-!
# A ledger of what a scheduler is given

An entry is posted for every call of a scheduler, and for every task that begins.  The ledger
says which entries may come: a task is given under a key only while no other task of that key is
outstanding, a task begins only while it is outstanding, and nothing comes after the scheduler was
shut down, when all that is outstanding is dropped (`Ledger.post`).

So every task that was accepted has begun, is outstanding or was dropped, and is one of the
three only (`Ledger.Sound`); in particular it begins once at most.  A ledger that is closed takes
no more entries (`post_of_closed`), and so the shutdown is the last one (`shut_is_last`).
-/

namespace ChangeWatch

/-- What happens between a debouncer and its scheduler. -/
inductive Posting where
  /-- The scheduler is called with a task, and accepts it. -/
  | accepted (d : Dispatch)
  /-- The scheduler is called with a task, and refuses it. -/
  | refused (d : Dispatch)
  /-- A task begins. -/
  | begun (d : Dispatch)
  /-- The scheduler is shut down. -/
  | shut
  deriving DecidableEq, Repr

/-- What became of all tasks so far. -/
structure Ledger where
  accepted : List Dispatch
  /-- Accepted and not yet begun. -/
  outstanding : List Dispatch
  begun : List Dispatch
  /-- Accepted and never begun. -/
  dropped : List Dispatch
  closed : Bool
  deriving DecidableEq, Repr

namespace Ledger

def blank : Ledger := ⟨[], [], [], [], false⟩

/-- A task may be given under the key: the ledger is not closed, and no task of the key is
outstanding. -/
def Free (l : Ledger) (key : String) : Prop :=
  l.closed = false ∧ ∀ d ∈ l.outstanding, d.key ≠ key

instance (l : Ledger) (key : String) : Decidable (l.Free key) :=
  inferInstanceAs (Decidable (_ ∧ _))

/-- The ledger with one more entry, if it may come. -/
def post (l : Ledger) : Posting → Option Ledger
  | .accepted d =>
    if l.Free d.key then
      some { l with accepted := l.accepted ++ [d], outstanding := l.outstanding ++ [d] }
    else none
  | .refused d => if l.Free d.key then some l else none
  | .begun d =>
    if d ∈ l.outstanding then
      some { l with outstanding := l.outstanding.erase d, begun := l.begun ++ [d] }
    else none
  | .shut =>
    if l.closed then none
    else some { l with outstanding := [], dropped := l.dropped ++ l.outstanding, closed := true }

/-- The ledger with all these entries, if they may come in this order. -/
def postAll (l : Ledger) (postings : List Posting) : Option Ledger :=
  postings.foldlM post l

variable {l l' : Ledger} {d : Dispatch} {posting : Posting} {postings more : List Posting}

theorem postAll_append (l : Ledger) (postings more : List Posting) :
    l.postAll (postings ++ more) = (l.postAll postings).bind (·.postAll more) :=
  List.foldlM_append

theorem postAll_singleton (l : Ledger) (posting : Posting) :
    l.postAll [posting] = l.post posting := by
  show (l.post posting).bind some = _
  cases l.post posting <;> rfl

/-! ### One entry -/

theorem post_accepted : l.post (.accepted d) = some l' ↔ l.Free d.key ∧
    l' = { l with accepted := l.accepted ++ [d], outstanding := l.outstanding ++ [d] } := by
  show (if l.Free d.key then _ else _) = _ ↔ _
  rw [Option.ite_none_right_eq_some, Option.some.injEq, eq_comm (b := l')]

theorem post_refused : l.post (.refused d) = some l' ↔ l.Free d.key ∧ l' = l := by
  show (if l.Free d.key then _ else _) = _ ↔ _
  rw [Option.ite_none_right_eq_some, Option.some.injEq, eq_comm (b := l')]

theorem post_begun : l.post (.begun d) = some l' ↔ d ∈ l.outstanding ∧
    l' = { l with outstanding := l.outstanding.erase d, begun := l.begun ++ [d] } := by
  show (if d ∈ l.outstanding then _ else _) = _ ↔ _
  rw [Option.ite_none_right_eq_some, Option.some.injEq, eq_comm (b := l')]

theorem post_shut : l.post .shut = some l' ↔ l.closed = false ∧
    l' = { l with outstanding := [], dropped := l.dropped ++ l.outstanding, closed := true } := by
  show (if l.closed then _ else _) = _ ↔ _
  rw [Option.ite_none_left_eq_some, Option.some.injEq, eq_comm (b := l'), Bool.not_eq_true]

/-! ### What the rules come to -/

/-- Every accepted task has begun, is outstanding, or was dropped; no two outstanding ones have one
key; and nothing is outstanding once the ledger is closed. -/
structure Sound (l : Ledger) : Prop where
  accounted : l.accepted.Perm (l.begun ++ l.outstanding ++ l.dropped)
  distinct : (l.outstanding.map (·.key)).Nodup
  closed : l.closed = true → l.outstanding = []

theorem sound_blank : blank.Sound :=
  ⟨.refl _, List.nodup_nil, fun _ => rfl⟩

theorem Sound.post (h : l.Sound) (hpost : l.post posting = some l') : l'.Sound := by
  cases posting with
  | accepted d =>
    obtain ⟨⟨hopen, hfree⟩, rfl⟩ := post_accepted.mp hpost
    refine ⟨?_, ?_, fun hclosed => absurd (hopen.symm.trans hclosed) (by simp)⟩
    · have hmoved : (l.begun ++ l.outstanding ++ l.dropped ++ [d]).Perm
          (l.begun ++ (l.outstanding ++ [d]) ++ l.dropped) := by
        simp only [List.append_assoc]
        exact (List.perm_append_comm.append_left _).append_left _
      exact (h.accounted.append_right [d]).trans hmoved
    · rw [List.map_append, List.map_singleton, ← List.concat_eq_append]
      refine h.distinct.concat fun hmem => ?_
      obtain ⟨o, ho, hkey⟩ := List.mem_map.mp hmem
      exact hfree o ho hkey
  | refused d =>
    obtain ⟨-, rfl⟩ := post_refused.mp hpost
    exact h
  | begun d =>
    obtain ⟨hmem, rfl⟩ := post_begun.mp hpost
    refine ⟨?_, h.distinct.sublist (List.erase_sublist.map _), fun hclosed => ?_⟩
    · refine h.accounted.trans (List.Perm.append_right _ ?_)
      rw [List.append_assoc, List.singleton_append]
      exact (List.perm_cons_erase hmem).append_left _
    · rw [h.closed hclosed] at hmem
      exact absurd hmem List.not_mem_nil
  | shut =>
    obtain ⟨-, rfl⟩ := post_shut.mp hpost
    refine ⟨?_, List.nodup_nil, fun _ => rfl⟩
    refine h.accounted.trans ?_
    rw [List.append_nil, List.append_assoc]
    exact List.perm_append_comm.append_left _

theorem Sound.postAll (h : l.Sound) (hpost : l.postAll postings = some l') : l'.Sound := by
  induction postings generalizing l with
  | nil =>
    obtain rfl := Option.some.inj hpost
    exact h
  | cons posting rest ih =>
    obtain ⟨next, hnext, hrest⟩ := Option.bind_eq_some_iff.mp hpost
    exact ih (h.post hnext) hrest

/-- A ledger is closed by the shutdown, and by nothing else. -/
theorem closed_iff (hpost : l.postAll postings = some l') :
    l'.closed = true ↔ l.closed = true ∨ .shut ∈ postings := by
  induction postings generalizing l with
  | nil =>
    obtain rfl := Option.some.inj hpost
    simp
  | cons posting rest ih =>
    obtain ⟨next, hnext, hrest⟩ := Option.bind_eq_some_iff.mp hpost
    rw [ih hrest, List.mem_cons]
    cases posting with
    | accepted d =>
      obtain ⟨-, rfl⟩ := post_accepted.mp hnext
      simp
    | refused d =>
      obtain ⟨-, rfl⟩ := post_refused.mp hnext
      simp
    | begun d =>
      obtain ⟨-, rfl⟩ := post_begun.mp hnext
      simp
    | shut =>
      obtain ⟨-, rfl⟩ := post_shut.mp hnext
      simp

/-- A ledger that is closed takes no entry. -/
theorem post_of_closed (h : l.Sound) (hclosed : l.closed = true) (posting : Posting) :
    l.post posting = none := by
  refine Option.eq_none_iff_forall_not_mem.mpr fun l' hpost => ?_
  cases posting with
  | accepted d => exact absurd (hclosed.symm.trans (post_accepted.mp hpost).1.1) (by simp)
  | refused d => exact absurd (hclosed.symm.trans (post_refused.mp hpost).1.1) (by simp)
  | begun d =>
    have hmem := (post_begun.mp hpost).1
    rw [h.closed hclosed] at hmem
    exact absurd hmem List.not_mem_nil
  | shut => exact absurd (hclosed.symm.trans (post_shut.mp hpost).1) (by simp)

/-- Nothing comes after the shutdown. -/
theorem shut_is_last (h : l.Sound) (hpost : l.postAll postings = some l')
    {front back : List Posting} (hsplit : postings = front ++ .shut :: back) : back = [] := by
  rw [hsplit, postAll_append] at hpost
  obtain ⟨before, hbefore, hback⟩ := Option.bind_eq_some_iff.mp hpost
  obtain ⟨after, hafter, hlast⟩ := Option.bind_eq_some_iff.mp hback
  have hsound := (h.postAll hbefore).post hafter
  obtain ⟨-, rfl⟩ := post_shut.mp hafter
  cases back with
  | nil => rfl
  | cons posting rest =>
    obtain ⟨next, hnext, -⟩ := Option.bind_eq_some_iff.mp hlast
    rw [post_of_closed hsound rfl] at hnext
    exact absurd hnext (by simp)

end Ledger

end ChangeWatch
