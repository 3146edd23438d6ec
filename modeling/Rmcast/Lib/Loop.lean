import Mathlib.Tactic

/-!
# Loops and runs of a partial machine

`forUpTo n f` is `for (i = 0; i < n; ++i)` over a body `f` that may fail,
`repeatUntil` a loop whose body says when it is left, and `run step` feeds a
list of events to a machine that may fail. Each comes with its invariant
rule: the loop rules ask for one iteration, the run rule for one event, and
all return that nothing failed together with the invariant at the end.
-/

namespace Loop

variable {σ ε : Type*}

/-! ## Counted loops -/

def forUpTo (n : ℕ) (f : ℕ → σ → Option σ) (s : σ) : Option σ :=
  (List.range n).foldlM (fun s i => f i s) s

@[simp] theorem forUpTo_zero (f : ℕ → σ → Option σ) (s : σ) :
    forUpTo 0 f s = some s := rfl

theorem forUpTo_succ (n : ℕ) (f : ℕ → σ → Option σ) (s : σ) :
    forUpTo (n + 1) f s = (forUpTo n f s).bind (f n) := by
  unfold forUpTo
  rw [List.range_succ, List.foldlM_append]
  simp only [List.foldlM_cons, List.foldlM_nil]
  cases (List.range n).foldlM (fun s i => f i s) s <;> simp

/-- **Loop rule.** `I i` holds before iteration `i`. -/
theorem forUpTo_inv {n : ℕ} {f : ℕ → σ → Option σ} {s : σ}
    (I : ℕ → σ → Prop) (h0 : I 0 s)
    (hstep : ∀ i t, i < n → I i t → ∃ t', f i t = some t' ∧ I (i + 1) t') :
    ∃ s', forUpTo n f s = some s' ∧ I n s' := by
  induction n with
  | zero => exact ⟨s, rfl, h0⟩
  | succ n ih =>
      obtain ⟨t, ht, hI⟩ := ih fun i t hi => hstep i t (by omega)
      obtain ⟨t', ht', hI'⟩ := hstep n t (by omega) hI
      exact ⟨t', by rw [forUpTo_succ, ht]; exact ht', hI'⟩

/-! ## Loops that are left -/

/-- How an iteration ends. -/
inductive Next (σ : Type*) where
  | again (s : σ)
  | leave (s : σ)

/-- At most `k` iterations. -/
def repeatUntil (f : σ → Option (Next σ)) : ℕ → σ → Option σ
  | 0, _ => none
  | k + 1, s =>
      match f s with
      | none => none
      | some (.again t) => repeatUntil f k t
      | some (.leave t) => some t

/-- **Loop rule.** `I` holds before each iteration, `J` when the loop is
left, and the measure `m` bounds the iterations. -/
theorem repeatUntil_inv {f : σ → Option (Next σ)} (m : σ → ℕ) (I J : σ → Prop)
    (hstep : ∀ s, I s → (∃ t, f s = some (.again t) ∧ I t ∧ m t < m s) ∨
      ∃ t, f s = some (.leave t) ∧ J t) :
    ∀ {k : ℕ} {s : σ}, I s → m s < k → ∃ t, repeatUntil f k s = some t ∧ J t := by
  intro k
  induction k with
  | zero =>
      intro s _ hlt
      exact absurd hlt (Nat.not_lt_zero _)
  | succ k ih =>
      intro s hI hlt
      rcases hstep s hI with ⟨t, ht, hIt, hm⟩ | ⟨t, ht, hJ⟩
      · obtain ⟨u, hu, hJu⟩ := ih hIt (by omega)
        exact ⟨u, by rw [repeatUntil, ht]; exact hu, hJu⟩
      · exact ⟨t, by rw [repeatUntil, ht], hJ⟩

/-! ## Runs -/

def run (step : σ → ε → Option σ) (s : σ) (es : List ε) : Option σ :=
  es.foldlM step s

@[simp] theorem run_nil (step : σ → ε → Option σ) (s : σ) :
    run step s [] = some s := rfl

theorem run_cons (step : σ → ε → Option σ) (s : σ) (e : ε) (es : List ε) :
    run step s (e :: es) = (step s e).bind fun t => run step t es := by
  unfold run
  rw [List.foldlM_cons]
  rfl

theorem run_snoc (step : σ → ε → Option σ) (s : σ) (es : List ε) (e : ε) :
    run step s (es ++ [e]) = (run step s es).bind fun t => step t e := by
  unfold run
  rw [List.foldlM_append]
  cases es.foldlM step s <;> simp

/-- Every event of the run meets `P` in the state it is taken in. -/
def EveryStep (step : σ → ε → Option σ) (P : σ → ε → Prop) :
    σ → List ε → Prop
  | _, [] => True
  | s, e :: es => P s e ∧ ∀ t ∈ step s e, EveryStep step P t es

instance EveryStep.decide {step : σ → ε → Option σ} {P : σ → ε → Prop}
    [∀ s e, Decidable (P s e)] :
    ∀ s es, Decidable (EveryStep step P s es)
  | _, [] => isTrue trivial
  | s, e :: es =>
      have : ∀ t, Decidable (EveryStep step P t es) := fun t => decide t es
      inferInstanceAs (Decidable (P s e ∧ ∀ t ∈ step s e, EveryStep step P t es))

theorem EveryStep.of_append {step : σ → ε → Option σ} {P : σ → ε → Prop} :
    ∀ {es fs : List ε} {s : σ}, EveryStep step P s (es ++ fs) →
      EveryStep step P s es
  | [], _, _, _ => trivial
  | _ :: _, _, _, ⟨hP, hrest⟩ => ⟨hP, fun t ht => (hrest t ht).of_append⟩

theorem EveryStep.imp {step : σ → ε → Option σ} {P Q : σ → ε → Prop}
    (h : ∀ s e, P s e → Q s e) :
    ∀ {es : List ε} {s : σ}, EveryStep step P s es → EveryStep step Q s es
  | [], _, _ => trivial
  | _ :: _, _, ⟨hP, hrest⟩ => ⟨h _ _ hP, fun t ht => (hrest t ht).imp h⟩

/-- **Run rule.** An invariant that every admitted event preserves, without
failing, holds at the end of every run of admitted events. -/
theorem run_inv {step : σ → ε → Option σ} {P : σ → ε → Prop} (I : σ → Prop)
    (hstep : ∀ s e, I s → P s e → ∃ t, step s e = some t ∧ I t) :
    ∀ {es : List ε} {s : σ}, I s → EveryStep step P s es →
      ∃ t, run step s es = some t ∧ I t
  | [], s, hI, _ => ⟨s, rfl, hI⟩
  | e :: es, s, hI, ⟨hP, hrest⟩ => by
      obtain ⟨t, ht, hIt⟩ := hstep s e hI hP
      obtain ⟨u, hu, hIu⟩ := run_inv I hstep hIt (hrest t ht)
      exact ⟨u, by rw [run_cons, ht]; exact hu, hIu⟩

/-- **Run rule**, with its converse where nothing but an admitted event gets
through. -/
theorem run_iff {step : σ → ε → Option σ} {P : σ → ε → Prop} (I : σ → Prop)
    (hstep : ∀ s e, I s → P s e → ∃ t, step s e = some t ∧ I t)
    (hstuck : ∀ s e, I s → ¬ P s e → step s e = none) {es : List ε} {s : σ} (hI : I s) :
    (∃ t, run step s es = some t ∧ I t) ↔ EveryStep step P s es := by
  refine ⟨?_, run_inv I hstep hI⟩
  induction es generalizing s with
  | nil => exact fun _ => trivial
  | cons e es ih =>
      rintro ⟨u, hu, hIu⟩
      rw [run_cons] at hu
      obtain ⟨t, ht, hrest⟩ := Option.bind_eq_some_iff.mp hu
      have hP : P s e := by
        by_contra hnot
        cases (hstuck s e hI hnot).symm.trans ht
      obtain ⟨t', ht', hIt⟩ := hstep s e hI hP
      cases ht.symm.trans ht'
      refine ⟨hP, fun v hv => ?_⟩
      cases ht.symm.trans hv
      exact ih hIt ⟨u, hrest, hIu⟩

/-- **Run rule**, for a machine that may get stuck: an invariant that every
admitted event preserves holds in every state a run of admitted events passes
through. -/
theorem run_keeps {step : σ → ε → Option σ} {P : σ → ε → Prop} (I : σ → Prop)
    (hstep : ∀ s e t, I s → P s e → step s e = some t → I t) :
    ∀ {es : List ε} {s t : σ}, I s → EveryStep step P s es → run step s es = some t →
      I t
  | [], s, t, hI, _, hrun => by
      cases hrun
      exact hI
  | e :: es, s, t, hI, ⟨hP, hrest⟩, hrun => by
      rw [run_cons] at hrun
      cases hs : step s e with
      | none =>
          rw [hs] at hrun
          cases hrun
      | some u =>
          rw [hs] at hrun
          exact run_keeps I hstep (hstep s e u hI hP hs) (hrest u hs) hrun

/-- What holds of every event with those before it, one event at a time. -/
theorem forall_prefix_snoc {P : List ε → ε → Prop} {es : List ε} {e : ε} :
    (∀ pre a, pre ++ [a] <+: es ++ [e] → P pre a) ↔
      (∀ pre a, pre ++ [a] <+: es → P pre a) ∧ P es e := by
  constructor
  · intro h
    exact ⟨fun pre a hpre => h pre a (hpre.trans (List.prefix_append _ _)),
      h es e (List.prefix_refl _)⟩
  · rintro ⟨h, he⟩ pre a hpre
    rcases List.prefix_concat_iff.mp hpre with heq | hpre
    · obtain ⟨rfl, ha⟩ := List.append_inj' heq rfl
      obtain rfl : a = e := List.singleton_inj.mp ha
      exact he
    · exact h pre a hpre

theorem forall_prefix_nil {P : List ε → ε → Prop} :
    ∀ pre a, pre ++ [a] <+: [] → P pre a := by
  intro pre a hpre
  exact absurd (List.prefix_nil.mp hpre) (List.append_ne_nil_of_right_ne_nil pre
    (List.cons_ne_nil a []))

/-- **Exact run rule.** If a step from a state that meets `Q` meets `Q` again
exactly when it is admitted, then the states a run passes through all meet `Q`
exactly when all its steps are admitted. -/
theorem every_prefix_iff {step : σ → ε → Option σ} {P : σ → ε → Prop} {A : ε → Prop}
    {I Q : σ → Prop}
    (hstep : ∀ s e, I s → Q s → A e → ∃ t, step s e = some t ∧ I t ∧ (Q t ↔ P s e)) :
    ∀ {es : List ε} {s : σ}, I s → Q s → (∀ e ∈ es, A e) →
      ((∀ pre, pre <+: es → ∃ t, run step s pre = some t ∧ Q t) ↔
        EveryStep step P s es) := by
  intro es
  induction es with
  | nil =>
      intro s _ hQ _
      refine ⟨fun _ => trivial, fun _ pre hpre => ?_⟩
      rw [List.prefix_nil.mp hpre]
      exact ⟨s, rfl, hQ⟩
  | cons e es ih =>
      intro s hI hQ hA
      -- the first step decides whether `Q` holds behind it
      obtain ⟨t, ht, hIt, hiff⟩ := hstep s e hI hQ (hA e (List.mem_cons_self ..))
      have hrun : ∀ pre, run step s (e :: pre) = run step t pre := by
        intro pre
        rw [run_cons, ht]
        rfl
      have hrest := fun hQt => ih hIt hQt fun e he => hA e (List.mem_cons_of_mem _ he)
      constructor
      · intro h
        have hQt : Q t := by
          obtain ⟨u, hu, hQu⟩ := h [e] ⟨es, rfl⟩
          rw [hrun] at hu
          cases hu
          exact hQu
        refine ⟨hiff.mp hQt, fun u hu => ?_⟩
        obtain rfl : t = u := Option.some.inj (ht.symm.trans hu)
        refine (hrest hQt).mp fun pre hpre => ?_
        have := h (e :: pre) ((List.prefix_cons_inj e).mpr hpre)
        rw [hrun] at this
        exact this
      · rintro ⟨hP, hes⟩ pre hpre
        cases pre with
        | nil => exact ⟨s, rfl, hQ⟩
        | cons e' pre =>
            obtain ⟨rfl, htail⟩ := List.cons_prefix_cons.mp hpre
            rw [hrun]
            exact (hrest (hiff.mpr hP)).mpr (hes t ht) pre htail

/-- **Exact run rule**, for a machine that fails where it is not admitted: the
events of a run all come to what they are to come to exactly when they are all
admitted. -/
theorem every_event_iff {step : σ → ε → Option σ} {P : σ → ε → Prop} {S : ε → σ → Prop}
    (hstep : ∀ s e, (∃ t, step s e = some t ∧ S e t) ↔ P s e) {es : List ε} {s : σ} :
    (∀ pre e, pre ++ [e] <+: es → ∃ t, run step s (pre ++ [e]) = some t ∧ S e t) ↔
      EveryStep step P s es := by
  induction es generalizing s with
  | nil =>
      exact ⟨fun _ => trivial, fun _ => forall_prefix_nil⟩
  | cons a es ih =>
      constructor
      · intro h
        obtain ⟨t, ht, hS⟩ := h [] a ⟨es, rfl⟩
        rw [List.nil_append, run_cons] at ht
        obtain ⟨u, hu, hut⟩ := Option.bind_eq_some_iff.mp ht
        cases hut
        refine ⟨(hstep s a).mp ⟨_, hu, hS⟩, fun u' hu' => ih.mp fun pre e hpre => ?_⟩
        have hnext := h (a :: pre) e ((List.prefix_cons_inj a).mpr hpre)
        rw [List.cons_append, run_cons, show step s a = some u' from hu'] at hnext
        exact hnext
      · rintro ⟨hP, hes⟩ pre e hpre
        obtain ⟨t, ht, hS⟩ := (hstep s a).mpr hP
        cases pre with
        | nil =>
            obtain ⟨rfl, -⟩ := List.cons_prefix_cons.mp hpre
            exact ⟨t, by rw [List.nil_append, run_cons, ht]; rfl, hS⟩
        | cons a' pre =>
            obtain ⟨rfl, htail⟩ := List.cons_prefix_cons.mp hpre
            obtain ⟨u, hu, hSu⟩ := ih.mpr (hes t ht) pre e htail
            exact ⟨u, by rw [List.cons_append, run_cons, ht]; exact hu, hSu⟩

/-! ## Machines that never get stuck -/

theorem run_total (step : σ → ε → σ) (s : σ) (es : List ε) :
    run (fun s e => some (step s e)) s es = some (es.foldl step s) := by
  induction es generalizing s with
  | nil => rfl
  | cons e es ih =>
      rw [run_cons]
      exact ih (step s e)

/-- **Run rule**, for a total machine. -/
theorem foldl_keeps {step : σ → ε → σ} {P : σ → ε → Prop} (I : σ → Prop)
    (hstep : ∀ s e, I s → P s e → I (step s e)) {es : List ε} {s : σ} (hI : I s)
    (hes : EveryStep (fun s e => some (step s e)) P s es) : I (es.foldl step s) := by
  refine run_keeps I (fun s e t hIs hP ht => ?_) hI hes (run_total step s es)
  cases ht
  exact hstep s e hIs hP

/-- **Exact run rule**, for a total machine. -/
theorem foldl_prefix_iff {step : σ → ε → σ} {P : σ → ε → Prop} {I Q : σ → Prop}
    (hstep : ∀ s e, I s → Q s → I (step s e) ∧ (Q (step s e) ↔ P s e))
    {es : List ε} {s : σ} (hI : I s) (hQ : Q s) :
    (∀ pre, pre <+: es → Q (pre.foldl step s)) ↔
      EveryStep (fun s e => some (step s e)) P s es := by
  have hexact : (∀ pre, pre <+: es → ∃ t, run (fun s e => some (step s e)) s pre = some t ∧ Q t) ↔
      EveryStep (fun s e => some (step s e)) P s es :=
    every_prefix_iff (A := fun _ => True)
      (fun s e hI hQ _ => ⟨step s e, rfl, hstep s e hI hQ⟩) hI hQ fun _ _ => trivial
  rw [← hexact]
  refine forall₂_congr fun pre _ => ⟨fun hQ => ⟨_, run_total step s pre, hQ⟩, ?_⟩
  rintro ⟨t, ht, hQt⟩
  rw [run_total] at ht
  cases ht
  exact hQt

end Loop
