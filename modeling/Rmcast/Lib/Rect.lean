import Rmcast.Lib.Loop

/-!
# Integer rectangles

A rectangle is its left and top bound with a width and a height, as picture
code passes it around; a width or height that is not positive makes it
empty. `clampAxis` is the idiom that clips one axis to `0 .. bound`, `hull`
the bounding box of two rectangles, and `scan` the double loop over the
points of a rectangle.
-/

/-- Left and top bound, width and height. -/
structure Rect where
  x : ℤ
  y : ℤ
  w : ℤ
  h : ℤ
deriving DecidableEq, Repr

namespace Rect

/-- The points of a rectangle. -/
def Has (r : Rect) (p : ℤ × ℤ) : Prop :=
  r.x ≤ p.1 ∧ p.1 < r.x + r.w ∧ r.y ≤ p.2 ∧ p.2 < r.y + r.h

instance : Membership (ℤ × ℤ) Rect := ⟨Rect.Has⟩

theorem mem_iff {r : Rect} {p : ℤ × ℤ} :
    p ∈ r ↔ r.x ≤ p.1 ∧ p.1 < r.x + r.w ∧ r.y ≤ p.2 ∧ p.2 < r.y + r.h :=
  Iff.rfl

instance (p : ℤ × ℤ) (r : Rect) : Decidable (p ∈ r) :=
  decidable_of_iff _ mem_iff.symm

/-- The whole picture of `w` columns and `h` rows. -/
def full (w h : ℤ) : Rect := ⟨0, 0, w, h⟩

theorem mem_full {w h : ℤ} {p : ℤ × ℤ} :
    p ∈ full w h ↔ 0 ≤ p.1 ∧ p.1 < w ∧ 0 ≤ p.2 ∧ p.2 < h := by
  rw [mem_iff, full, zero_add, zero_add]

/-- Containment in a picture of `w` columns and `h` rows, the bounds of an
empty rectangle included. -/
structure Inside (r : Rect) (w h : ℤ) : Prop where
  x_nonneg : 0 ≤ r.x
  y_nonneg : 0 ≤ r.y
  w_nonneg : 0 ≤ r.w
  h_nonneg : 0 ≤ r.h
  right : r.x + r.w ≤ w
  bottom : r.y + r.h ≤ h

instance (r : Rect) (w h : ℤ) : Decidable (r.Inside w h) :=
  decidable_of_iff
    (0 ≤ r.x ∧ 0 ≤ r.y ∧ 0 ≤ r.w ∧ 0 ≤ r.h ∧ r.x + r.w ≤ w ∧ r.y + r.h ≤ h)
    ⟨fun ⟨h1, h2, h3, h4, h5, h6⟩ => ⟨h1, h2, h3, h4, h5, h6⟩,
     fun ⟨h1, h2, h3, h4, h5, h6⟩ => ⟨h1, h2, h3, h4, h5, h6⟩⟩

theorem Inside.mem_full {r : Rect} {w h : ℤ} (hr : r.Inside w h) {p : ℤ × ℤ}
    (hp : p ∈ r) : p ∈ full w h := by
  obtain ⟨h1, h2, h3, h4⟩ := hp
  have := hr.x_nonneg
  have := hr.y_nonneg
  have := hr.right
  have := hr.bottom
  rw [Rect.mem_full]
  omega

/-! ## Inclusion -/

instance : HasSubset Rect := ⟨fun r s => ∀ p ∈ r, p ∈ s⟩

/-- A rectangle that is not empty is in another one by its bounds. -/
theorem subset_iff {r s : Rect} :
    r ⊆ s ↔ r.w ≤ 0 ∨ r.h ≤ 0 ∨
      (s.x ≤ r.x ∧ r.x + r.w ≤ s.x + s.w ∧ s.y ≤ r.y ∧ r.y + r.h ≤ s.y + s.h) := by
  constructor
  · intro hsub
    by_cases hw : r.w ≤ 0
    · exact .inl hw
    by_cases hh : r.h ≤ 0
    · exact .inr (.inl hh)
    -- the two opposite corners
    have h1 := hsub (r.x, r.y) ⟨le_rfl, by simp only; omega, le_rfl, by simp only; omega⟩
    have h2 := hsub (r.x + r.w - 1, r.y + r.h - 1)
      ⟨by simp only; omega, by simp only; omega, by simp only; omega, by simp only; omega⟩
    rw [mem_iff] at h1 h2
    exact .inr (.inr (by omega))
  · intro h p hp
    rw [mem_iff] at hp ⊢
    omega

instance (r s : Rect) : Decidable (r ⊆ s) := decidable_of_iff _ subset_iff.symm

/-- A rectangle that is not empty lies where its points do. -/
theorem Inside.of_mem {r : Rect} {w h : ℤ} (hw : 0 < r.w) (hh : 0 < r.h)
    (hr : ∀ p ∈ r, p ∈ full w h) : r.Inside w h := by
  have hsub : r ⊆ full w h := hr
  obtain h' | h' | ⟨hx, hright, hy, hbottom⟩ := subset_iff.mp hsub
  · exact absurd hw (not_lt.mpr h')
  · exact absurd hh (not_lt.mpr h')
  · rw [full, zero_add] at hright hbottom
    exact ⟨hx, hy, hw.le, hh.le, hright, hbottom⟩

/-! ## Clipping -/

/-- `if (x < 0) { w += x; x = 0; }  if (x + w > bound) w = bound - x;` -/
def clampAxis (x w bound : ℤ) : ℤ × ℤ :=
  let x' := if x < 0 then 0 else x
  let w' := if x < 0 then w + x else w
  (x', if x' + w' > bound then bound - x' else w')

theorem clampAxis_fst_nonneg (x w bound : ℤ) :
    0 ≤ (clampAxis x w bound).1 := by
  simp only [clampAxis]
  split_ifs <;> omega

theorem clampAxis_le (x w bound : ℤ) :
    (clampAxis x w bound).1 + (clampAxis x w bound).2 ≤ bound := by
  simp only [clampAxis]
  split_ifs <;> omega

/-- Clipping keeps exactly the points inside the bound. -/
theorem mem_clampAxis (x w bound i : ℤ) :
    (clampAxis x w bound).1 ≤ i ∧
        i < (clampAxis x w bound).1 + (clampAxis x w bound).2 ↔
      (x ≤ i ∧ i < x + w) ∧ 0 ≤ i ∧ i < bound := by
  simp only [clampAxis]
  split_ifs <;> omega

/-- Both axes clipped to a picture of `w` columns and `h` rows. -/
def clamp (r : Rect) (w h : ℤ) : Rect :=
  ⟨(clampAxis r.x r.w w).1, (clampAxis r.y r.h h).1,
    (clampAxis r.x r.w w).2, (clampAxis r.y r.h h).2⟩

theorem mem_clamp {r : Rect} {w h : ℤ} {p : ℤ × ℤ} :
    p ∈ r.clamp w h ↔ p ∈ r ∧ p ∈ full w h := by
  have hx := mem_clampAxis r.x r.w w p.1
  have hy := mem_clampAxis r.y r.h h p.2
  simp only [mem_iff, clamp, full] at *
  constructor
  · rintro ⟨h1, h2, h3, h4⟩
    obtain ⟨⟨a1, a2⟩, a3, a4⟩ := hx.mp ⟨h1, h2⟩
    obtain ⟨⟨b1, b2⟩, b3, b4⟩ := hy.mp ⟨h3, h4⟩
    exact ⟨⟨a1, a2, b1, b2⟩, a3, by omega, b3, by omega⟩
  · rintro ⟨⟨a1, a2, b1, b2⟩, a3, a4, b3, b4⟩
    obtain ⟨h1, h2⟩ := hx.mpr ⟨⟨a1, a2⟩, a3, by omega⟩
    obtain ⟨h3, h4⟩ := hy.mpr ⟨⟨b1, b2⟩, b3, by omega⟩
    exact ⟨h1, h2, h3, h4⟩

/-- A rectangle inside the picture is not clipped. -/
theorem Inside.clamp_eq {r : Rect} {w h : ℤ} (hr : r.Inside w h) : r.clamp w h = r := by
  have hx := hr.x_nonneg
  have hy := hr.y_nonneg
  have hright := hr.right
  have hbottom := hr.bottom
  unfold clamp clampAxis
  simp only [if_neg (not_lt.mpr hx), if_neg (not_lt.mpr hy), if_neg (not_lt.mpr hright),
    if_neg (not_lt.mpr hbottom)]

/-! ## Area -/

def area (r : Rect) : ℤ := r.w * r.h

theorem Inside.area_nonneg {r : Rect} {w h : ℤ} (hr : r.Inside w h) : 0 ≤ r.area :=
  mul_nonneg hr.w_nonneg hr.h_nonneg

/-- A rectangle with smaller sides is smaller. -/
theorem area_le {r s : Rect} (hw : r.w ≤ s.w) (hh : r.h ≤ s.h) (hr : 0 ≤ r.h)
    (hs : 0 ≤ s.w) : r.area ≤ s.area :=
  mul_le_mul hw hh hr hs

/-! ## Bounding boxes -/

/-- The bounding box of two rectangles. -/
def hull (r s : Rect) : Rect :=
  let left := min r.x s.x
  let top := min r.y s.y
  let right := max (r.x + r.w) (s.x + s.w)
  let bottom := max (r.y + r.h) (s.y + s.h)
  ⟨left, top, right - left, bottom - top⟩

theorem mem_hull_left {r s : Rect} {p : ℤ × ℤ} (h : p ∈ r) :
    p ∈ r.hull s := by
  simp only [mem_iff, hull] at *
  omega

theorem mem_hull_right {r s : Rect} {p : ℤ × ℤ} (h : p ∈ s) :
    p ∈ r.hull s := by
  simp only [mem_iff, hull] at *
  omega

/-- The bounding box with a rectangle that is already inside. -/
theorem hull_of_subset {r s : Rect} (hw : 0 < s.w) (hh : 0 < s.h) (h : s ⊆ r) :
    r.hull s = r := by
  rcases subset_iff.mp h with hempty | hempty | hin
  · omega
  · omega
  · cases r
    simp only [hull, mk.injEq] at hin ⊢
    omega

theorem hull_comm (r s : Rect) : r.hull s = s.hull r := by
  simp only [hull, min_comm, max_comm]

theorem Inside.hull {r s : Rect} {w h : ℤ} (hr : r.Inside w h)
    (hs : s.Inside w h) : (r.hull s).Inside w h := by
  obtain ⟨a1, a2, a3, a4, a5, a6⟩ := hr
  obtain ⟨b1, b2, b3, b4, b5, b6⟩ := hs
  constructor <;> simp only [Rect.hull] <;> omega

/-! ## Scanning -/

/-- `for (y = 0; y < h; ++y) for (x = 0; x < w; ++x)` over the points of a
rectangle, row by row. -/
def scan {σ : Type*} (r : Rect) (f : ℤ → ℤ → σ → Option σ) (s : σ) : Option σ :=
  Loop.forUpTo r.h.toNat (fun y s =>
    Loop.forUpTo r.w.toNat (fun x s => f (r.x + x) (r.y + y) s) s) s

/-- **Scan rule.** `I S s` says that the points in `S` are done; the body
adds its point. -/
theorem scan_inv {σ : Type*} {r : Rect} {f : ℤ → ℤ → σ → Option σ} {s : σ}
    (I : (ℤ × ℤ → Prop) → σ → Prop)
    (hcongr : ∀ S S' t, (∀ p, S p ↔ S' p) → I S t → I S' t)
    (h0 : I (fun _ => False) s)
    (hstep : ∀ S t p, p ∈ r → (∀ q, S q → q ∈ r) → I S t →
      ∃ t', f p.1 p.2 t = some t' ∧ I (fun q => S q ∨ q = p) t') :
    ∃ s', scan r f s = some s' ∧ I (· ∈ r) s' := by
  -- the rows above `y` are done
  let Rows (y : ℕ) (p : ℤ × ℤ) : Prop :=
    r.x ≤ p.1 ∧ p.1 < r.x + r.w ∧ r.y ≤ p.2 ∧ p.2 < r.y + y ∧ y ≤ r.h.toNat
  have hrow : ∀ y t, y < r.h.toNat → I (Rows y) t →
      ∃ t', Loop.forUpTo r.w.toNat (fun x s => f (r.x + x) (r.y + y) s) t
        = some t' ∧ I (Rows (y + 1)) t' := by
    intro y t hy hI
    -- and in row `y` the columns left of `x`
    obtain ⟨t', hrun, hI'⟩ := Loop.forUpTo_inv (n := r.w.toNat)
      (f := fun x s => f (r.x + x) (r.y + y) s)
      (fun x t => I (fun p => Rows y p ∨
        (p.2 = r.y + y ∧ r.x ≤ p.1 ∧ p.1 < r.x + x ∧ x ≤ r.w.toNat)) t)
      (hcongr _ _ _ (fun p => by push_cast; omega) hI) (fun x t hx hJ => by
        have hp : (r.x + (x : ℤ), r.y + (y : ℤ)) ∈ r := by
          refine ⟨?_, ?_, ?_, ?_⟩ <;> simp only <;> omega
        obtain ⟨t', ht', hJ'⟩ := hstep _ _ _ hp (by
          rintro q (hq | hq) <;> rw [mem_iff] <;> simp only [Rows] at * <;> omega) hJ
        refine ⟨t', ht', hcongr _ _ _ (fun q => ?_) hJ'⟩
        obtain ⟨a, b⟩ := q
        simp only [Rows, Prod.mk.injEq]
        push_cast
        omega)
    refine ⟨t', hrun, hcongr _ _ _ (fun q => ?_) hI'⟩
    simp only [Rows]
    push_cast
    omega
  obtain ⟨s', hrun, hI⟩ := Loop.forUpTo_inv (n := r.h.toNat)
    (fun y t => I (Rows y) t)
    (hcongr _ _ _ (fun q => by
      constructor
      · exact False.elim
      · rintro ⟨-, -, h1, h2, -⟩
        push_cast at h2
        omega) h0) hrow
  refine ⟨s', hrun, hcongr _ _ _ (fun q => ?_) hI⟩
  simp only [Rows, mem_iff]
  omega

end Rect
