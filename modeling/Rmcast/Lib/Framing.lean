import Mathlib.Tactic

/-!
# Readers of a framed stream

A reader looks at the front of its buffer and either waits for more, takes a
frame and looks again, or takes a frame and stops (`Turn`). `drain` is the
loop. The laws of a `Reader` say that a frame, once complete, stays the same
frame when more arrives, and that taking one makes progress; from them `drain`
needs no more fuel than the buffer is long (`drain_total`) and does not depend
on where the stream is cut (`drain_append`, `drain_append_stopped`).
-/

namespace Framing

/-- What a reader in a state of type `σ` does about its buffer. -/
inductive Turn (σ : Type*) where
  | wait
  | take (n : ℕ) (s : σ)
  | stop (n : ℕ) (s : σ)

structure Reader (σ β : Type*) where
  look : σ → List β → Turn σ
  take_pos : ∀ {s b n t}, look s b = .take n t → 0 < n
  take_le : ∀ {s b n t}, look s b = .take n t → n ≤ b.length
  stop_le : ∀ {s b n t}, look s b = .stop n t → n ≤ b.length
  take_append : ∀ {s b n t} (c : List β), look s b = .take n t →
    look s (b ++ c) = .take n t
  stop_append : ∀ {s b n t} (c : List β), look s b = .stop n t →
    look s (b ++ c) = .stop n t

namespace Reader

variable {σ β : Type*} (R : Reader σ β)

/-- The read loop: the state, what is left of the buffer, and whether the
loop was left by a `stop`. `none` is a loop that ran out of fuel. -/
def drain : ℕ → σ → List β → Option (σ × List β × Bool)
  | 0, _, _ => none
  | k + 1, s, b =>
      match R.look s b with
      | .wait => some (s, b, false)
      | .take n t => drain k t (b.drop n)
      | .stop n t => some (t, b.drop n, true)

variable {R} {s t : σ} {b c rest : List β} {k n : ℕ} {r : σ × List β × Bool}

theorem drain_wait (h : R.look s b = .wait) :
    R.drain (k + 1) s b = some (s, b, false) := by
  simp only [drain, h]

theorem drain_take (h : R.look s b = .take n t) :
    R.drain (k + 1) s b = R.drain k t (b.drop n) := by
  simp only [drain, h]

theorem drain_stop (h : R.look s b = .stop n t) :
    R.drain (k + 1) s b = some (t, b.drop n, true) := by
  simp only [drain, h]

/-- More fuel changes nothing. -/
theorem drain_mono (h : R.drain k s b = some r) {k' : ℕ} (hk : k ≤ k') :
    R.drain k' s b = some r := by
  induction k generalizing s b k' with
  | zero => cases h
  | succ k ih =>
      obtain ⟨k', rfl⟩ : ∃ j, k' = j + 1 := ⟨k' - 1, by omega⟩
      cases hl : R.look s b with
      | wait =>
          rw [drain_wait hl] at h ⊢
          exact h
      | take n t =>
          rw [drain_take hl] at h ⊢
          exact ih h (by omega)
      | stop n t =>
          rw [drain_stop hl] at h ⊢
          exact h

/-- **The loop terminates**: each frame takes at least one entry. -/
theorem drain_total (hk : b.length < k) (s : σ) : ∃ r, R.drain k s b = some r := by
  induction k generalizing s b with
  | zero => omega
  | succ k ih =>
      cases hl : R.look s b with
      | wait => exact ⟨_, drain_wait hl⟩
      | take n t =>
          have hpos := R.take_pos hl
          have hle := R.take_le hl
          have hlen : (b.drop n).length < k := by
            rw [List.length_drop]
            omega
          obtain ⟨r, hr⟩ := ih hlen t
          exact ⟨r, by rw [drain_take hl, hr]⟩
      | stop n t => exact ⟨_, drain_stop hl⟩

theorem drain_unique {r' : σ × List β × Bool} {k' : ℕ}
    (h : R.drain k s b = some r) (h' : R.drain k' s b = some r') : r = r' := by
  have h1 := drain_mono h (Nat.le_max_left k k')
  have h2 := drain_mono h' (Nat.le_max_right k k')
  exact Option.some.inj (h1.symm.trans h2)

/-- A drain that waited goes on from where it was when more arrives. -/
theorem drain_append (h : R.drain k s b = some (t, rest, false)) {k' : ℕ}
    (hr : R.drain k' t (rest ++ c) = some r) :
    R.drain (k + k') s (b ++ c) = some r := by
  induction k generalizing s b with
  | zero => cases h
  | succ k ih =>
      have e : k + 1 + k' = k + k' + 1 := by omega
      cases hl : R.look s b with
      | wait =>
          rw [drain_wait hl] at h
          obtain ⟨rfl, rfl, -⟩ : s = t ∧ b = rest ∧ True := by
            simpa using h
          exact drain_mono hr (by omega)
      | take n u =>
          rw [drain_take hl] at h
          rw [e, drain_take (R.take_append c hl),
            List.drop_append_of_le_length (R.take_le hl)]
          exact ih h
      | stop n u =>
          rw [drain_stop hl] at h
          simp at h

/-- A drain that stopped stops at the same place when more has arrived. -/
theorem drain_append_stopped (h : R.drain k s b = some (t, rest, true)) :
    R.drain k s (b ++ c) = some (t, rest ++ c, true) := by
  induction k generalizing s b with
  | zero => cases h
  | succ k ih =>
      cases hl : R.look s b with
      | wait =>
          rw [drain_wait hl] at h
          simp at h
      | take n u =>
          rw [drain_take hl] at h
          rw [drain_take (R.take_append c hl),
            List.drop_append_of_le_length (R.take_le hl)]
          exact ih h
      | stop n u =>
          rw [drain_stop hl] at h
          obtain ⟨rfl, rfl, -⟩ : u = t ∧ b.drop n = rest ∧ True := by
            simpa using h
          rw [drain_stop (R.stop_append c hl),
            List.drop_append_of_le_length (R.stop_le hl)]

/-! ## Rules -/

/-- **Invariant rule** of the read loop: `I` before each turn, `J` after the
turn that ends the loop. -/
theorem drain_inv (I : σ → List β → Prop) (J : σ → List β → Bool → Prop)
    (hwait : ∀ s b, I s b → R.look s b = .wait → J s b false)
    (htake : ∀ s b n t, I s b → R.look s b = .take n t → I t (b.drop n))
    (hstop : ∀ s b n t, I s b → R.look s b = .stop n t → J t (b.drop n) true)
    (hI : I s b) (h : R.drain k s b = some r) : J r.1 r.2.1 r.2.2 := by
  induction k generalizing s b with
  | zero => cases h
  | succ k ih =>
      cases hl : R.look s b with
      | wait =>
          rw [drain_wait hl] at h
          obtain rfl := Option.some.inj h
          exact hwait s b hI hl
      | take n t =>
          rw [drain_take hl] at h
          exact ih (htake s b n t hI hl) h
      | stop n t =>
          rw [drain_stop hl] at h
          obtain rfl := Option.some.inj h
          exact hstop s b n t hI hl

/-- The turns of two states that a simulation relates: the same turn, and
related states again. -/
inductive Turn.Rel (I J : σ → σ → List β → Prop) (b : List β) :
    Turn σ → Turn σ → Prop
  | wait : Turn.Rel I J b .wait .wait
  | take {n : ℕ} {s t : σ} : I s t (b.drop n) →
      Turn.Rel I J b (.take n s) (.take n t)
  | stop {n : ℕ} {s t : σ} : J s t (b.drop n) →
      Turn.Rel I J b (.stop n s) (.stop n t)

/-- **Simulation rule.** Two runs of the loop over the same buffer, from
states related by `I`, end in related states: by `J` if they stopped. -/
theorem drain_sim {I J : σ → σ → List β → Prop}
    (hstep : ∀ s t b, I s t b → Turn.Rel I J b (R.look s b) (R.look t b))
    {t : σ} (hI : I s t b) (h : R.drain k s b = some r) :
    ∃ t', R.drain k t b = some (t', r.2.1, r.2.2) ∧
      (r.2.2 = false → I r.1 t' r.2.1) ∧ (r.2.2 = true → J r.1 t' r.2.1) := by
  induction k generalizing s t b with
  | zero => cases h
  | succ k ih =>
      have hrel := hstep s t b hI
      unfold drain at h ⊢
      generalize R.look s b = u at h hrel
      generalize R.look t b = v at hrel
      cases hrel with
      | wait =>
          obtain rfl := Option.some.inj h
          exact ⟨t, rfl, fun _ => hI, fun he => absurd he (by simp)⟩
      | take hI' => exact ih hI' h
      | stop hJ =>
          obtain rfl := Option.some.inj h
          exact ⟨_, rfl, fun he => absurd he (by simp), fun _ => hJ⟩

end Reader

end Framing
