import ChangeWatch.Proofs.Dispatch.Shutdown
import ChangeWatch.Proofs.Dispatch.Windows

/-!
# A debouncer that is given something

What a job does to a debouncer whose scheduler accepts everything is one of five
things (`Desk.Operated`): an offer falls into an open window or opens one, the change
that opened it is queued, and when it is taken up the window closes and its callback
is next; any other job changes nothing (`Desk.operate_accepting`).  So the debouncer
stays what it is, and what waits goes on waiting until it is taken up.
-/

namespace ChangeWatch

namespace Debouncer

/-- A dispatch waits with the scheduler. -/
def Awaits (g : Debouncer) (d : Dispatch) : Prop :=
  ∃ w ∈ g.scheduler.waiting, w.task = d

/-- The debouncer after its scheduler queued a dispatch. -/
def queued (g : Debouncer) (d : Dispatch) : Debouncer :=
  { g with scheduler := g.scheduler.enqueue g.delay d }

variable {g : Debouncer} {d : Dispatch}

theorem awaits_queued {d' : Dispatch} : (g.queued d).Awaits d' ↔ g.Awaits d' ∨ d' = d := by
  unfold Awaits
  show (∃ w ∈ g.scheduler.waiting ++ [⟨g.scheduler.now + g.delay.nanoseconds, d⟩], w.task = d') ↔ _
  constructor
  · rintro ⟨w, hw, rfl⟩
    rcases List.mem_append.mp hw with hw | hw
    · exact Or.inl ⟨w, hw, rfl⟩
    · rw [List.mem_singleton.mp hw]
      exact Or.inr rfl
  · rintro (⟨w, hw, rfl⟩ | rfl)
    · exact ⟨w, List.mem_append_left _ hw, rfl⟩
    · exact ⟨_, List.mem_append_right _ (List.mem_singleton_self _), rfl⟩

/-- Taking one thing out of a list leaves all others in it. -/
theorem mem_or_mem_eraseIdx {α : Type} {l : List α} {n : Nat} {a b : α} (ha : l[n]? = some a)
    (hb : b ∈ l) : b = a ∨ b ∈ l.eraseIdx n := by
  obtain ⟨k, hk⟩ := List.getElem?_of_mem hb
  by_cases hkn : k = n
  · subst hkn
    exact Or.inl (Option.some.inj (hk.symm.trans ha))
  · exact Or.inr (List.mem_eraseIdx_iff_getElem?.mpr ⟨k, hkn, hk⟩)

/-- When one of the dispatches that wait is taken up, the others go on waiting. -/
theorem Awaits.erase (h : g.Awaits d) {n : Nat} {w : Waiting Dispatch}
    (hw : g.scheduler.waiting[n]? = some w) (now : Nat) :
    d = w.task ∨ Awaits { g with
      scheduler := { g.scheduler with now, waiting := g.scheduler.waiting.eraseIdx n } } d := by
  obtain ⟨v, hv, rfl⟩ := h
  rcases mem_or_mem_eraseIdx hw hv with rfl | hleft
  · exact Or.inl rfl
  · exact Or.inr ⟨v, hleft, rfl⟩

theorem new_accepting {policy : Policy} {delay : Duration} (h : policy.Accepts delay) :
    (Debouncer.new delay policy).Accepting :=
  ⟨rfl, rfl, rfl, h⟩

theorem Accepting.unlock_eq (h : g.Accepting) : g.unlock = g := by
  obtain ⟨delay, scheduler, pending, locked, shutDown⟩ := g
  obtain rfl : locked = false := h.unlocked
  rfl

/-- What a dispatch is taken out of goes on accepting. -/
theorem Accepting.take (h : g.Accepting) (now : Nat) (waiting : List (Waiting Dispatch)) :
    Accepting { g with scheduler := { g.scheduler with now, waiting } } :=
  ⟨h.unlocked, h.running, h.accepting, h.policy⟩

end Debouncer

namespace Desk

variable {ρ : Type} {g g' : Debouncer} {job : Job ρ} {next : List (Job ρ)}

/-- What a job does to a debouncer that accepts everything, and what is next. -/
inductive Operated (g : Debouncer) : Job ρ → Debouncer → List (Job ρ) → Prop
  /-- The window of the key is open. -/
  | fallsIn (d : Dispatch) (caller : Caller) : d.key ∈ g.pending →
      Operated g (.offer d caller) g [.answer d.key false caller]
  | opens (d : Dispatch) (caller : Caller) : d.key ∉ g.pending →
      Operated g (.offer d caller) (g.opened d.key) [.commit d caller]
  | queues (d : Dispatch) (caller : Caller) :
      Operated g (.commit d caller) (g.queued d) [.answer d.key true caller]
  | begins (d : Dispatch) :
      Operated g (.begin d) (g.begin d) [.call d.callback d.context .modifyPanicked]
  | idles {job : Job ρ} : job.idle = true → Operated g job g []

theorem operate_accepting (hg : g.Accepting) (hjob : job ≠ .shutdown)
    (h : operate g job = some (g', next)) : Operated g job g' next := by
  cases operate_operates h with
  | fallsIn d caller hpending => exact .fallsIn d caller hpending
  | opens d caller hfree => exact .opens d caller hfree
  | commits d caller =>
    rw [hg.commit_eq]
    exact .queues d caller
  | begins d => exact .begins d
  | unlocks =>
    rw [hg.unlock_eq]
    exact .idles rfl
  | closes => exact absurd rfl hjob
  | remains => exact absurd rfl hjob
  | idles hidle => exact .idles hidle

/-- A debouncer that accepts everything goes on doing so. -/
theorem Operated.accepting (h : Operated g job g' next) (hg : g.Accepting) : g'.Accepting := by
  cases h with
  | fallsIn => exact hg
  | idles => exact hg
  | _ => exact ⟨hg.unlocked, hg.running, hg.accepting, hg.policy⟩

/-- What waits goes on waiting. -/
theorem Operated.awaits (h : Operated g job g' next) {d : Dispatch} (hd : g.Awaits d) :
    g'.Awaits d := by
  cases h with
  | queues => exact Debouncer.awaits_queued.mpr (Or.inl hd)
  | _ => exact hd

end Desk

end ChangeWatch
