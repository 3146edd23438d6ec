import Mathlib.Tactic

/-!
# Undo logs

An undo log is a list of places with the values they had. `rollback` writes
the entries back, oldest first. When every entry is true to the original store
and the log covers whatever has changed, the original store is back; a
rollback that was interrupted, or is made again, then leaves no trace.
-/

namespace Undo

variable {α β : Type*} [DecidableEq α]

def rollback (log : List (α × β)) (st : α → β) : α → β :=
  log.foldl (fun st e => Function.update st e.1 e.2) st

@[simp] theorem rollback_nil (st : α → β) : rollback [] st = st := rfl

@[simp] theorem rollback_cons (e : α × β) (log : List (α × β)) (st : α → β) :
    rollback (e :: log) st = rollback log (Function.update st e.1 e.2) := rfl

theorem rollback_append (log log' : List (α × β)) (st : α → β) :
    rollback (log ++ log') st = rollback log' (rollback log st) :=
  List.foldl_append

/-- The log records values of the store `orig`. -/
def TrueTo (orig : α → β) (log : List (α × β)) : Prop :=
  ∀ e ∈ log, orig e.1 = e.2

/-- The store differs from `orig` at places of the log only. -/
def Covers (orig : α → β) (log : List (α × β)) (st : α → β) : Prop :=
  ∀ a, (∀ e ∈ log, e.1 ≠ a) → st a = orig a

theorem rollback_of_forall_ne {log : List (α × β)} {a : α} (h : ∀ e ∈ log, e.1 ≠ a)
    (st : α → β) : rollback log st a = st a := by
  induction log generalizing st with
  | nil => rfl
  | cons e log ih =>
      rw [rollback_cons, ih fun e' he => h e' (List.mem_cons_of_mem _ he)]
      exact Function.update_of_ne (h e (List.mem_cons_self ..)).symm _ _

theorem rollback_of_mem {orig : α → β} {log : List (α × β)} (htrue : TrueTo orig log)
    {e : α × β} (he : e ∈ log) (st : α → β) : rollback log st e.1 = orig e.1 := by
  induction log generalizing st e with
  | nil => cases he
  | cons e' log ih =>
      have htrue' : TrueTo orig log := fun f hf => htrue f (List.mem_cons_of_mem _ hf)
      by_cases hlog : ∀ f ∈ log, f.1 ≠ e.1
      · -- the last entry for this place
        obtain rfl : e = e' := by
          rcases List.mem_cons.mp he with rfl | he
          · rfl
          · exact absurd rfl (hlog e he)
        rw [rollback_cons, rollback_of_forall_ne hlog, Function.update_self]
        exact (htrue e (List.mem_cons_self ..)).symm
      · push Not at hlog
        obtain ⟨f, hf, hfe⟩ := hlog
        rw [← hfe]
        exact ih htrue' hf _

/-- **Rollback restores.** -/
theorem rollback_eq {orig : α → β} {log : List (α × β)} {st : α → β}
    (htrue : TrueTo orig log) (hcov : Covers orig log st) : rollback log st = orig := by
  ext a
  by_cases h : ∀ e ∈ log, e.1 ≠ a
  · rw [rollback_of_forall_ne h, hcov a h]
  · push Not at h
    obtain ⟨e, he, rfl⟩ := h
    exact rollback_of_mem htrue he st

/-- A rollback after part of a rollback is a rollback. -/
theorem rollback_part {orig : α → β} {log part : List (α × β)} (htrue : TrueTo orig log)
    (hpart : part ⊆ log) (st : α → β) :
    rollback log (rollback part st) = rollback log st := by
  ext a
  by_cases h : ∀ e ∈ log, e.1 ≠ a
  · rw [rollback_of_forall_ne h, rollback_of_forall_ne h,
      rollback_of_forall_ne fun e he => h e (hpart he)]
  · push Not at h
    obtain ⟨e, he, rfl⟩ := h
    rw [rollback_of_mem htrue he, rollback_of_mem htrue he]

end Undo
