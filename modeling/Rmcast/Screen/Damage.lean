import Rmcast.Screen.Trace

/-!
# The size of an announcement

`commit_updates` merges a rectangle into the accumulator unless that would
more than double the sum of the two areas. A bound on what is announced,
relative to what has been committed since the last announcement, does not
follow: the threshold goes by the area of the accumulator. In fast mode the
accumulator survives its announcement, and after a merge it may be larger than
what it stands for. As long as no rectangle is merged into an accumulator
larger than what has been committed since the last announcement, the threshold
gives the bound.
-/

namespace Rmcast.Screen

open Loop

/-! ## §1  The bound -/

/-- The rectangles committed since the last announcement. -/
def committedSince (log : List Entry) : List Rect :=
  log.foldl (fun rs e => match e with
    | .committed r => rs ++ [r]
    | .copied _ _ => rs
    | .announced _ _ _ => []) []

@[simp] theorem committedSince_committed (log : List Entry) (r : Rect) :
    committedSince (log ++ [.committed r]) = committedSince log ++ [r] := by
  unfold committedSince
  rw [List.foldl_append]
  rfl

@[simp] theorem committedSince_copied (log : List Entry) (o : Orientation) (r : Rect) :
    committedSince (log ++ [.copied o r]) = committedSince log := by
  unfold committedSince
  rw [List.foldl_append]
  rfl

@[simp] theorem committedSince_announced (log : List Entry) (d : Rect)
    (o : Orientation) (mode : RepaintMode) :
    committedSince (log ++ [.announced d o mode]) = [] := by
  unfold committedSince
  rw [List.foldl_append]
  rfl

def totalArea (rs : List Rect) : ℤ := (rs.map Rect.area).sum

theorem totalArea_snoc (rs : List Rect) (r : Rect) :
    totalArea (rs ++ [r]) = totalArea rs + r.area := by
  unfold totalArea
  rw [List.map_append, List.sum_append]
  simp

/-- A rectangle that a repaint announces after new commits has at most twice
their area. -/
def NoBlowUp (log : List Entry) : Prop :=
  ∀ before o s d o' mode after,
    log = before ++ [.copied o s] ++ .announced d o' mode :: after →
    committedSince before ≠ [] → d.area ≤ 2 * totalArea (committedSince before)

/-! ## §2  Its invariant -/

/-- The accumulator and the commits it stands for. -/
structure Bounded (g : Geometry) (k : Track) (log : List Entry) : Prop where
  noBlowUp : NoBlowUp log
  inside : k.rect.Inside g.srcW g.srcH
  since_nonneg : 0 ≤ totalArea (committedSince log)
  area_le : committedSince log ≠ [] →
    k.rect.area ≤ 2 * totalArea (committedSince log)

/-- A rectangle is merged into an accumulator that is larger than what has been
committed since the last announcement. It makes no difference if the rectangle
covers the accumulator, or adds nothing to one that has been collected since. -/
def Overdrawn (t : Trace) : Act → Prop
  | .commit _ r =>
      t.screen.updateInfo.hasUpdate = true ∧
      badMerge t.screen.updateInfo.rect r = false ∧
      totalArea (committedSince t.log) < t.screen.updateInfo.rect.area ∧
      ¬ t.screen.updateInfo.rect ⊆ r ∧
      ¬ (committedSince t.log ≠ [] ∧ r ⊆ t.screen.updateInfo.rect)
  | .tick _ _ | .repaint _ | .setMode _ | .setEffective _ => False

instance (t : Trace) : ∀ a, Decidable (Overdrawn t a)
  | .commit _ _ => inferInstanceAs (Decidable (_ ∧ _ ∧ _ ∧ _ ∧ _))
  | .tick _ _ | .repaint _ | .setMode _ | .setEffective _ =>
      inferInstanceAs (Decidable False)

/-- The calls of a vncast session: commits of rectangles that are not empty
and lie in the source, and ticks. -/
def CastAct (t : Trace) : Act → Prop
  | .commit src r =>
      src.length = t.screen.srcBuffer.length ∧ 0 < r.w ∧ 0 < r.h ∧
        r.Inside t.screen.srcWidth t.screen.srcHeight
  | .tick _ _ => True
  | .repaint _ | .setMode _ | .setEffective _ => False

instance (t : Trace) : ∀ a, Decidable (CastAct t a)
  | .commit _ _ => inferInstanceAs (Decidable (_ ∧ _ ∧ _ ∧ _))
  | .tick _ _ => inferInstanceAs (Decidable True)
  | .repaint _ | .setMode _ | .setEffective _ => inferInstanceAs (Decidable False)

section Area

variable {g : Geometry} {d : Rect}

/-- The clamp to the panel makes no rectangle larger. -/
theorem clampToPanel_area_le (hw : 0 ≤ d.w) (hh : 0 ≤ d.h) :
    (clampToPanel g d).area ≤ d.area := by
  have haxis : ∀ x w bound : ℤ, 0 ≤ w → (Rect.clampAxis x w bound).2 ≤ w := by
    intro x w bound hw
    unfold Rect.clampAxis
    simp only
    split_ifs <;> omega
  have hx := haxis d.x d.w g.panelW hw
  have hy := haxis d.y d.h g.panelH hh
  apply Rect.area_le
  · show (if (Rect.clampAxis d.x d.w g.panelW).2 < 0 then 0
      else (Rect.clampAxis d.x d.w g.panelW).2) ≤ d.w
    split
    · exact hw
    · exact hx
  · show (if (Rect.clampAxis d.y d.h g.panelH).2 < 0 then 0
      else (Rect.clampAxis d.y d.h g.panelH).2) ≤ d.h
    split
    · exact hh
    · exact hy
  · show 0 ≤ if (Rect.clampAxis d.y d.h g.panelH).2 < 0 then 0
      else (Rect.clampAxis d.y d.h g.panelH).2
    split
    · exact le_refl 0
    · omega
  · exact hw

/-- A panel rectangle is no larger than the source rectangle it is the image
of. -/
theorem imageRect_area_le {o : Orientation} {s : Rect} (hs : s.Inside g.srcW g.srcH) :
    (imageRect g o s).area ≤ s.area := by
  have hw := hs.w_nonneg
  have hh := hs.h_nonneg
  have hswap : ∀ x y, (clampToPanel g ⟨x, y, s.h, s.w⟩).area ≤ s.area := by
    intro x y
    refine (clampToPanel_area_le hh hw).trans (le_of_eq ?_)
    exact mul_comm s.h s.w
  unfold imageRect
  rw [hs.clamp_eq]
  simp only
  split
  · exact hs.area_nonneg
  · cases o with
    | Portrait | Auto =>
        simp only
        split
        · exact hs.area_nonneg
        · rename_i hcrop
          refine (clampToPanel_area_le (by simp only; omega) (by simp only; omega)).trans ?_
          exact Rect.area_le (min_le_left _ _) (min_le_left _ _) (by simp only; omega) hw
    | InvertedPortrait => exact clampToPanel_area_le hw hh
    | LandscapeCW => exact hswap _ _
    | LandscapeCCW => exact hswap _ _

end Area

/-- What the threshold lets pass, also where the `int` products wrap. -/
theorem hull_area_le {u r : Rect} (hu : 0 ≤ u.area) (hr : 0 ≤ r.area)
    (hb : badMerge u r = false) : (u.hull r).area ≤ 2 * (u.area + r.area) := by
  have hpass : (u.hull r).area ≤ (Word.int32 u.area + Word.int32 r.area) * 2 :=
    not_lt.mp (of_decide_eq_false hb)
  have := Word.int32_le hu
  have := Word.int32_le hr
  omega

section Steps

variable {g : Geometry} {k : Track} {log : List Entry}

theorem NoBlowUp.nil : NoBlowUp [] := by
  intro before o s d o' mode after h
  cases before <;> cases h

/-- An entry that is no announcement after a copy. -/
theorem NoBlowUp.snoc {e : Entry} (h : NoBlowUp log)
    (he : ∀ before o s d o' mode, log = before ++ [.copied o s] →
      e = .announced d o' mode → committedSince before ≠ [] →
      d.area ≤ 2 * totalArea (committedSince before)) : NoBlowUp (log ++ [e]) := by
  intro before o s d o' mode after heq
  rcases snoc_eq_split heq with ⟨hl, rfl, -⟩ | ⟨rest, -, hl⟩
  · exact he before o s d o' mode hl rfl
  · exact h before o s d o' mode rest hl

theorem NoBlowUp.snoc_silent {e : Entry} (h : NoBlowUp log)
    (he : ∀ d o mode, e ≠ .announced d o mode) : NoBlowUp (log ++ [e]) :=
  h.snoc fun _ _ _ d o' mode _ hed => absurd hed (he d o' mode)

/-- A commit after which the accumulator is within the bound. -/
theorem Bounded.commit {r u : Rect} (hlog : NoBlowUp log)
    (hsince : 0 ≤ totalArea (committedSince log)) (hr : r.Inside g.srcW g.srcH)
    (hu : u.Inside g.srcW g.srcH) (hk : k.rect = u)
    (hle : u.area ≤ 2 * totalArea (committedSince log ++ [r])) :
    Bounded g k (log ++ [.committed r]) where
  noBlowUp := hlog.snoc_silent fun d o mode he => by cases he
  inside := by
    rw [hk]
    exact hu
  since_nonneg := by
    rw [committedSince_committed, totalArea_snoc]
    exact add_nonneg hsince hr.area_nonneg
  area_le := fun _ => by
    rw [hk, committedSince_committed]
    exact hle

/-- A rectangle on its own is within the bound. -/
theorem area_le_since {r : Rect} (hsince : 0 ≤ totalArea (committedSince log))
    (hr : r.Inside g.srcW g.srcH) :
    r.area ≤ 2 * totalArea (committedSince log ++ [r]) := by
  have := hr.area_nonneg
  rw [totalArea_snoc]
  linarith

/-- **A merge within the bound**: the accumulator is no larger than what has been
committed, and the threshold does the rest; or one of the two rectangles is the
merged one. -/
theorem Bounded.merge_le {r : Rect} (h : Bounded g k log) (hr : r.Inside g.srcW g.srcH)
    (hw : 0 < r.w) (hh : 0 < r.h) (hb : badMerge k.rect r = false)
    (hdrawn : totalArea (committedSince log) < k.rect.area → ¬ k.rect ⊆ r →
      committedSince log ≠ [] ∧ r ⊆ k.rect) :
    (k.rect.hull r).area ≤ 2 * totalArea (committedSince log ++ [r]) := by
  have harea := hr.area_nonneg
  have hsince := h.since_nonneg
  rw [totalArea_snoc]
  by_cases hle : k.rect.area ≤ totalArea (committedSince log)
  · have := hull_area_le h.inside.area_nonneg harea hb
    linarith
  · by_cases hcov : k.rect ⊆ r
    · -- the accumulator has an area, so it is not empty
      obtain ⟨hkw, hkh⟩ : 0 < k.rect.w ∧ 0 < k.rect.h := by
        have hpos : 0 < k.rect.w * k.rect.h := hsince.trans_lt (not_le.mp hle)
        have := h.inside.w_nonneg
        have := h.inside.h_nonneg
        constructor <;> by_contra hnot <;> nlinarith
      rw [Rect.hull_comm, Rect.hull_of_subset hkw hkh hcov]
      linarith
    · obtain ⟨hne, hin⟩ := hdrawn (not_le.mp hle) hcov
      have := h.area_le hne
      rw [Rect.hull_of_subset hw hh hin]
      linarith

/-- An accumulator within the bound can be announced, whole or in part. -/
theorem Bounded.announce {d : Rect} (h : Bounded g k log) (o : Orientation)
    (mode : RepaintMode) (hd : d.area ≤ k.rect.area) :
    Bounded g k (log ++ [.announced d o mode]) where
  noBlowUp := h.noBlowUp.snoc fun before o s d' o' mode' hl he hne => by
    cases he
    rw [hl] at h
    have hle := h.area_le
    rw [committedSince_copied] at hle
    exact hd.trans (hle hne)
  inside := h.inside
  since_nonneg := by
    rw [committedSince_announced]
    exact le_refl 0
  area_le := fun hne => absurd (committedSince_announced log d o mode) hne

theorem Bounded.copied {o : Orientation} {r : Rect} (h : Bounded g k log) :
    Bounded g k (log ++ [.copied o r]) where
  noBlowUp := h.noBlowUp.snoc_silent fun d o mode he => by cases he
  inside := h.inside
  since_nonneg := by
    rw [committedSince_copied]
    exact h.since_nonneg
  area_le := by
    rw [committedSince_copied]
    exact h.area_le

theorem Bounded.repaint (h : Bounded g k log) :
    Bounded g k.afterRepaint (log ++ k.repaintLog g) := by
  have hlog : Bounded g k (log ++ k.repaintLog g) := by
    unfold Track.repaintLog Screen.announce
    split
    · exact h.copied
    · rw [List.append_cons]
      exact h.copied.announce _ _ (imageRect_area_le h.inside)
  exact ⟨hlog.noBlowUp, hlog.inside, hlog.since_nonneg, hlog.area_le⟩

/-- **Step lemma.** -/
theorem Bounded.step {t t' : Trace} {a : Act} {es : List Entry} (ht : Wired g t.screen)
    (h : Bounded g t.screen.track t.log) (hcast : CastAct t a) (hdrawn : ¬ Overdrawn t a)
    (hmove : Move g t.screen.track a es t'.screen.track) :
    Bounded g t'.screen.track (t.log ++ es) := by
  have hin : ∀ {src r}, CastAct t (.commit src r) → r.Inside g.srcW g.srcH := by
    intro src r hr
    rw [← ht.geometry]
    exact hr.2.2.2
  generalize t'.screen.track = k' at hmove
  cases hmove with
  | idle =>
      rw [List.append_nil]
      exact h
  | fresh src r hu =>
      have hr := hin hcast
      exact Bounded.commit h.noBlowUp h.since_nonneg hr hr rfl
        (area_le_since h.since_nonneg hr)
  | merge src r hu hb =>
      have hr := hin hcast
      refine Bounded.commit h.noBlowUp h.since_nonneg hr (h.inside.hull hr) rfl ?_
      refine h.merge_le hr hcast.2.1 hcast.2.2.1 hb fun hlt hcov => ?_
      exact not_not.mp fun hadd => hdrawn ⟨hu, hb, hlt, hcov, hadd⟩
  | flush src r hu hb =>
      have hr := hin hcast
      have hann := h.announce t.screen.track.effective t.screen.track.mode (le_refl _)
      rw [List.append_cons]
      exact Bounded.commit hann.noBlowUp hann.since_nonneg hr hr rfl
        (area_le_since hann.since_nonneg hr)
  | tick now now' hu => exact h.repaint
  | repaint now => exact h.repaint
  | setMode mode => exact hcast.elim
  | setEffective o ho hne => exact hcast.elim

end Steps

/-- **Damage does not blow up** in a run in which no rectangle is merged into an
accumulator larger than what has been committed since the last announcement. -/
theorem no_blow_up {d : Device} {o : Orientation} {env : Option (List Char)}
    {sw sh : ℤ} {t₀ : Trace} {as : List Act} (hd : d.Ready)
    (hstart : Trace.start d o env sw sh = some t₀)
    (has : EveryStep Trace.step (fun t a => CastAct t a ∧ ¬ Overdrawn t a) t₀ as) :
    ∃ t, run Trace.step t₀ as = some t ∧ NoBlowUp t.log := by
  obtain ⟨hwired, hlog⟩ := Trace.start_wired hd hstart
  have hsized : ∀ t a, CastAct t a ∧ ¬ Overdrawn t a → Sized t a := by
    rintro t a ⟨hcast, -⟩
    cases a with
    | commit src r => exact hcast.1
    | tick now now' => trivial
    | repaint now => trivial
    | setMode mode => trivial
    | setEffective o => trivial
  have hrect : t₀.screen.track.rect = ⟨0, 0, 0, 0⟩ := by
    obtain ⟨-, -, e, rfl⟩ := Trace.start_cases hstart
    rfl
  obtain ⟨t, hrun, -, h⟩ := Wired.run
    (I := Bounded t₀.screen.geometry) hsized
    (fun t a t' es ht hI hP _ hmove => hI.step ht hP.1 hP.2 hmove) hwired
    (by
      rw [hlog]
      refine ⟨NoBlowUp.nil, ?_, le_refl 0, fun hne => absurd rfl hne⟩
      have hsrc := hwired.src_pos
      rw [hrect]
      constructor <;> simp only <;> omega) has
  exact ⟨t, hrun, h.noBlowUp⟩

/-- Two neighbouring pixels in one announcement. -/
def castNeighbours : List Act :=
  [.commit [1, 1, 0, 0, 0, 0, 0, 0, 0, 0] ⟨0, 0, 1, 1⟩,
   .commit [1, 1, 2, 2, 0, 0, 0, 0, 0, 0] ⟨1, 0, 1, 1⟩,
   .tick 500000000 500000001]

theorem no_blow_up_neighbours :
    ∃ t₀, Trace.start castStrip .Portrait none 5 1 = some t₀ ∧
      ∃ t, run Trace.step t₀ castNeighbours = some t ∧ NoBlowUp t.log := by
  obtain ⟨t₀, hstart⟩ : ∃ t₀, Trace.start castStrip .Portrait none 5 1 = some t₀ :=
    ⟨_, rfl⟩
  have has : ∀ t ∈ Trace.start castStrip .Portrait none 5 1,
      EveryStep Trace.step (fun t a => CastAct t a ∧ ¬ Overdrawn t a) t
        castNeighbours := by
    decide +kernel
  exact ⟨t₀, hstart, no_blow_up castStrip_ready hstart (has t₀ hstart)⟩

/-- The whole strip is announced, then a single pixel changes: the accumulator
is still the whole strip, and it is announced again. -/
def castPixel : List Act :=
  [.commit [1, 1, 1, 1, 1, 1, 1, 1, 1, 1] ⟨0, 0, 5, 1⟩,
   .tick 500000000 500000001,
   .commit [2, 2, 1, 1, 1, 1, 1, 1, 1, 1] ⟨0, 0, 1, 1⟩,
   .tick 600000000 600000001]

theorem pixel_blows_up :
    ¬ ∀ t₀, Trace.start castStrip .Portrait none 5 1 = some t₀ →
      EveryStep Trace.step CastAct t₀ castPixel →
      ∃ t, run Trace.step t₀ castPixel = some t ∧ NoBlowUp t.log := by
  intro H
  obtain ⟨t₀, hstart⟩ : ∃ t₀, Trace.start castStrip .Portrait none 5 1 = some t₀ :=
    ⟨_, rfl⟩
  have has : ∀ t ∈ Trace.start castStrip .Portrait none 5 1,
      EveryStep Trace.step CastAct t castPixel := by
    decide +kernel
  obtain ⟨t, hrun, h⟩ := H t₀ hstart (has t₀ hstart)
  have hlog : ∀ t₀ ∈ Trace.start castStrip .Portrait none 5 1,
      ∀ t ∈ run Trace.step t₀ castPixel,
        t.log = [.committed ⟨0, 0, 5, 1⟩, .copied .Portrait ⟨0, 0, 5, 1⟩,
            .announced ⟨0, 0, 5, 1⟩ .Portrait .fast, .committed ⟨0, 0, 1, 1⟩] ++
          [.copied .Portrait ⟨0, 0, 5, 1⟩] ++
          .announced ⟨0, 0, 5, 1⟩ .Portrait .fast :: [] := by
    decide +kernel
  exact absurd (h _ _ _ _ _ _ _ (hlog t₀ hstart t hrun) (by decide)) (by decide)

end Rmcast.Screen
