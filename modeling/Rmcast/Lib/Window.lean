import Mathlib.Tactic

/-!
# Events in a window of time

How many of a list of times fall into a half-open window. Times that keep a
distance `P` fit a window of length `L` at most `f` times where `L ≤ f • P`.
-/

namespace Window

variable {α : Type*} [AddCommGroup α] [LinearOrder α]

/-- The times in the window of length `L` from `a` on. -/
def count (a L : α) (ts : List α) : ℕ := ts.countP fun t => decide (a ≤ t ∧ t < a + L)

/-- Each time is at least `P` after those before it. -/
def Spaced (P : α) (ts : List α) : Prop := ts.Pairwise fun t u => t + P ≤ u

theorem count_eq_length {a L : α} {ts : List α} (h : ∀ t ∈ ts, a ≤ t ∧ t < a + L) :
    count a L ts = ts.length := by
  unfold count
  rw [List.countP_eq_length]
  intro t ht
  exact decide_eq_true (h t ht)

theorem spaced_cons {P t : α} {ts : List α} :
    Spaced P (t :: ts) ↔ (∀ u ∈ ts, t + P ≤ u) ∧ Spaced P ts :=
  List.pairwise_cons

variable [IsOrderedAddMonoid α]

/-- The first of the times is that much before a bound on all of them. -/
theorem Spaced.add_nsmul_lt {P b : α} {t : α} {ts : List α} (h : Spaced P (t :: ts))
    (hb : ∀ u ∈ t :: ts, u < b) : t + ts.length • P < b := by
  induction ts generalizing t with
  | nil =>
      rw [List.length_nil, zero_nsmul, add_zero]
      exact hb t (List.mem_singleton.mpr rfl)
  | cons u ts ih =>
      obtain ⟨hhead, htail⟩ := spaced_cons.mp h
      have hlt := ih htail fun v hv => hb v (List.mem_cons_of_mem t hv)
      calc t + (u :: ts).length • P = t + P + ts.length • P := by
            rw [List.length_cons, succ_nsmul', add_assoc]
        _ ≤ u + ts.length • P := by
            apply add_le_add_left
            exact hhead u (List.mem_cons_self ..)
        _ < b := hlt

/-- **Spaced times are rare**: no window has more of them than its length has
distances. -/
theorem Spaced.count_le {P a L : α} {ts : List α} {f : ℕ} (h : Spaced P ts) (hP : 0 ≤ P)
    (hL : L ≤ f • P) : count a L ts ≤ f := by
  unfold count
  rw [List.countP_eq_length_filter]
  have hsub := List.filter_sublist (l := ts) (p := fun t => decide (a ≤ t ∧ t < a + L))
  have hin : ∀ t ∈ ts.filter fun t => decide (a ≤ t ∧ t < a + L), a ≤ t ∧ t < a + L :=
    fun t ht => of_decide_eq_true (List.mem_filter.mp ht).2
  have hspaced : Spaced P (ts.filter fun t => decide (a ≤ t ∧ t < a + L)) := h.sublist hsub
  generalize ts.filter _ = us at hin hspaced
  cases us with
  | nil => exact Nat.zero_le f
  | cons t us =>
      have hlt := hspaced.add_nsmul_lt fun u hu => (hin u hu).2
      have hle : a + us.length • P ≤ t + us.length • P := by
        apply add_le_add_left
        exact (hin t (List.mem_cons_self ..)).1
      have hmul : us.length • P < f • P :=
        lt_of_lt_of_le (lt_of_add_lt_add_left (hle.trans_lt hlt)) hL
      by_contra hlong
      exact absurd hmul (not_lt_of_ge (nsmul_le_nsmul_left hP (Nat.le_of_not_lt hlong)))

end Window
