import Mathlib.Tactic

/-!
# Boxes, quarter turns and fitting

Axis-parallel boxes of the plane over an ordered field: what scaling and
turning by a multiple of ninety degrees makes of them, and the largest factor
by which a rectangle can be scaled to fit into another one. The second axis
points down, and turns are clockwise.
-/

namespace Plane

variable {K : Type*} [Field K] [LinearOrder K]

/-! ## Boxes -/

/-- The box with the corner `(x, y)` and the size `w × h`. -/
def box (x y w h : K) : Set (K × K) :=
  Set.Icc x (x + w) ×ˢ Set.Icc y (y + h)

theorem mem_box {x y w h : K} {p : K × K} :
    p ∈ box x y w h ↔ (x ≤ p.1 ∧ p.1 ≤ x + w) ∧ y ≤ p.2 ∧ p.2 ≤ y + h := Iff.rfl

theorem box_subset_box {x y w h x' y' w' h' : K} (hx : x' ≤ x) (hy : y' ≤ y)
    (hw : x + w ≤ x' + w') (hh : y + h ≤ y' + h') : box x y w h ⊆ box x' y' w' h' :=
  Set.prod_mono (Set.Icc_subset_Icc hx hw) (Set.Icc_subset_Icc hy hh)

/-! ## Scaling and turning -/

variable [IsStrictOrderedRing K] {s : K}

theorem image_along (hs : 0 < s) (a x w : K) :
    (fun u => a + s * u) '' Set.Icc x (x + w) =
      Set.Icc (a + s * x) (a + s * x + s * w) := by
  have h := Set.image_affine_Icc' hs a x (x + w)
  rw [show (fun u => a + s * u) = fun u => s * u + a from funext fun u => add_comm _ _, h]
  congr 1 <;> ring

theorem image_against (hs : 0 < s) (a x w : K) :
    (fun u => a - s * u) '' Set.Icc x (x + w) =
      Set.Icc (a - s * (x + w)) (a - s * (x + w) + s * w) := by
  have hturn : (fun u : K => a - s * u) = (fun u => a + s * u) ∘ fun u => -u :=
    funext fun u => by simp [sub_eq_add_neg]
  rw [hturn, Set.image_comp, Set.image_neg_Icc]
  have h := image_along hs a (-(x + w)) w
  rw [show -(x + w) + w = -x by ring] at h
  rw [h]
  congr 1 <;> ring

/-- Scaled, not turned. -/
theorem image_box_upright (hs : 0 < s) (a b x y w h : K) :
    (fun p : K × K => (a + s * p.1, b + s * p.2)) '' box x y w h =
      box (a + s * x) (b + s * y) (s * w) (s * h) := by
  unfold box
  rw [← image_along hs, ← image_along hs, Set.prod_image_image_eq]

/-- Turned by a half. -/
theorem image_box_half (hs : 0 < s) (a b x y w h : K) :
    (fun p : K × K => (a - s * p.1, b - s * p.2)) '' box x y w h =
      box (a - s * (x + w)) (b - s * (y + h)) (s * w) (s * h) := by
  unfold box
  rw [← image_against hs, ← image_against hs, Set.prod_image_image_eq]

/-- Turned by a quarter. -/
theorem image_box_quarter (hs : 0 < s) (a b x y w h : K) :
    (fun p : K × K => (a - s * p.2, b + s * p.1)) '' box x y w h =
      box (a - s * (y + h)) (b + s * x) (s * h) (s * w) := by
  unfold box
  rw [← image_against hs, ← image_along hs, Set.prod_image_image_eq, ← Set.image_swap_prod,
    Set.image_image]
  rfl

/-- Turned by three quarters. -/
theorem image_box_three_quarters (hs : 0 < s) (a b x y w h : K) :
    (fun p : K × K => (a + s * p.2, b - s * p.1)) '' box x y w h =
      box (a + s * y) (b - s * (x + w)) (s * h) (s * w) := by
  unfold box
  rw [← image_against hs, ← image_along hs, Set.prod_image_image_eq, ← Set.image_swap_prod,
    Set.image_image]
  rfl

/-! ## Fitting -/

/-- The factors by which `w × h` fits into `w' × h'`. -/
def fitting (w h w' h' : K) : Set K :=
  {k | k * w ≤ w' ∧ k * h ≤ h'}

/-- **The largest factor** is the smaller ratio. -/
theorem isGreatest_fitting_iff {w h w' h' k : K} (hw : 0 < w) (hh : 0 < h) :
    IsGreatest (fitting w h w' h') k ↔ k = min (w' / w) (h' / h) := by
  have hmem : ∀ k, k ∈ fitting w h w' h' ↔ k ≤ min (w' / w) (h' / h) := by
    intro k
    rw [le_min_iff, le_div_iff₀ hw, le_div_iff₀ hh]
    rfl
  constructor
  · rintro ⟨hk, hmax⟩
    exact le_antisymm ((hmem k).mp hk) (hmax ((hmem _).mpr (le_refl _)))
  · rintro rfl
    exact ⟨(hmem _).mpr (le_refl _), fun k hk => (hmem k).mp hk⟩

end Plane
