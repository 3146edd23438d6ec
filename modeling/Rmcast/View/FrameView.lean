import Mathlib.Tactic
import Rmcast.Lib.Plane

/-!
# The frame view

`FrameView` (`qtfb/frame_view.cpp`) shows the picture in the shared memory,
scaled to fit and turned: the layout it caches, where `paint` draws the image,
and where `mapSourceRect` says that a rectangle of the image is seen.
Coordinates are exact.
-/

namespace Rmcast.View

/-! ## §1 Sizes and images -/

/-- A size of the toolkit that is not invalid. -/
@[ext] structure Size where
  w : ℚ
  h : ℚ
  w_nonneg : 0 ≤ w
  h_nonneg : 0 ≤ h
deriving DecidableEq

def Size.transposed (s : Size) : Size :=
  ⟨s.h, s.w, s.h_nonneg, s.w_nonneg⟩

/-- A `QImage` that is not null. -/
@[ext] structure Image where
  w : ℕ
  h : ℕ
  w_pos : 0 < w
  h_pos : 0 < h
deriving DecidableEq

def Image.size (m : Image) : Size :=
  ⟨m.w, m.h, Nat.cast_nonneg _, Nat.cast_nonneg _⟩

theorem Image.size_w_pos (m : Image) : 0 < m.size.w := Nat.cast_pos.mpr m.w_pos

theorem Image.size_h_pos (m : Image) : 0 < m.size.h := Nat.cast_pos.mpr m.h_pos

/-- `QRectF`. -/
@[ext] structure QRectF where
  x : ℚ
  y : ℚ
  w : ℚ
  h : ℚ
deriving DecidableEq, Repr

def QRectF.area (r : QRectF) : Set (ℚ × ℚ) :=
  Plane.box r.x r.y r.w r.h

/-- `QRect`. -/
structure QRect where
  x : ℤ
  y : ℤ
  w : ℤ
  h : ℤ
deriving DecidableEq, Repr

def QRect.area (r : QRect) : Set (ℚ × ℚ) :=
  Plane.box r.x r.y r.w r.h

/-- `QRect::adjust(-1, -1, 1, 1)`. -/
def QRect.inflated (r : QRect) : QRect :=
  ⟨r.x - 1, r.y - 1, r.w + 2, r.h + 2⟩

def QRect.isEmpty (r : QRect) : Prop := r.w ≤ 0 ∨ r.h ≤ 0

instance (r : QRect) : Decidable r.isEmpty := by
  unfold QRect.isEmpty
  infer_instance

theorem QRect.area_subset_inflated (r : QRect) : r.area ⊆ r.inflated.area := by
  refine Plane.box_subset_box ?_ ?_ ?_ ?_ <;> simp only [QRect.inflated] <;> push_cast <;>
    linarith

/-! ## §2 The toolkit -/

/-- What `FrameView` uses of the toolkit, with what is documented of it. -/
structure Toolkit where
  /-- `QSizeF::scaled` with `Qt::KeepAspectRatio`: as large as possible inside
  the given size, with the aspect ratio kept. -/
  scaled : Size → Size → Size
  scaled_fits : ∀ src dst : Size, 0 < src.w → 0 < src.h →
    ∃ k, IsGreatest (Plane.fitting src.w src.h dst.w dst.h) k ∧
      (scaled src dst).w = k * src.w ∧ (scaled src dst).h = k * src.h
  /-- `QRectF::toAlignedRect`: an integer rectangle that contains the
  rectangle. -/
  toAlignedRect : QRectF → QRect
  toAlignedRect_contains : ∀ r : QRectF, 0 ≤ r.w → 0 ≤ r.h →
    r.area ⊆ (toAlignedRect r).area
  /-- `QPainter::rotate`: turns the coordinates clockwise, by degrees. -/
  rotate : ℤ → ℚ × ℚ → ℚ × ℚ
  rotate_90 : ∀ p, rotate 90 p = (-p.2, p.1)
  rotate_180 : ∀ p, rotate 180 p = (-p.1, -p.2)
  rotate_270 : ∀ p, rotate 270 p = (p.2, -p.1)

/-- `QSizeF::scaled`, as it is computed. -/
def scaledKeepingAspect (src dst : Size) : Size :=
  if src.w = 0 ∨ src.h = 0 then dst
  else if dst.h * src.w / src.h ≤ dst.w then
    ⟨dst.h * src.w / src.h, dst.h,
      div_nonneg (mul_nonneg dst.h_nonneg src.w_nonneg) src.h_nonneg, dst.h_nonneg⟩
  else
    ⟨dst.w, dst.w * src.h / src.w, dst.w_nonneg,
      div_nonneg (mul_nonneg dst.w_nonneg src.h_nonneg) src.w_nonneg⟩

theorem scaledKeepingAspect_fits (src dst : Size) (hw : 0 < src.w) (hh : 0 < src.h) :
    ∃ k, IsGreatest (Plane.fitting src.w src.h dst.w dst.h) k ∧
      (scaledKeepingAspect src dst).w = k * src.w ∧
      (scaledKeepingAspect src dst).h = k * src.h := by
  have hsize : ¬(src.w = 0 ∨ src.h = 0) := by
    rintro (h | h)
    · exact hw.ne' h
    · exact hh.ne' h
  refine ⟨_, (Plane.isGreatest_fitting_iff hw hh).mpr rfl, ?_⟩
  have hcmp : dst.h * src.w / src.h ≤ dst.w ↔ dst.h / src.h ≤ dst.w / src.w := by
    rw [le_div_iff₀ hw, div_mul_eq_mul_div]
  unfold scaledKeepingAspect
  rw [if_neg hsize]
  split
  · rename_i hle
    rw [min_eq_right (hcmp.mp hle)]
    exact ⟨(div_mul_eq_mul_div ..).symm, (div_mul_cancel₀ _ hh.ne').symm⟩
  · rename_i hlt
    rw [min_eq_left (not_le.mp (mt hcmp.mpr hlt)).le]
    exact ⟨(div_mul_cancel₀ _ hw.ne').symm, (div_mul_eq_mul_div ..).symm⟩

/-- A toolkit that does what is documented. -/
def Toolkit.exact : Toolkit where
  scaled := scaledKeepingAspect
  scaled_fits := scaledKeepingAspect_fits
  toAlignedRect r := ⟨⌊r.x⌋, ⌊r.y⌋, ⌈r.x + r.w⌉ - ⌊r.x⌋, ⌈r.y + r.h⌉ - ⌊r.y⌋⟩
  toAlignedRect_contains r _ _ := by
    refine Plane.box_subset_box (Int.floor_le _) (Int.floor_le _) ?_ ?_
    · push_cast
      linarith [Int.le_ceil (r.x + r.w)]
    · push_cast
      linarith [Int.le_ceil (r.y + r.h)]
  rotate deg p :=
    if deg = 90 then (-p.2, p.1)
    else if deg = 180 then (-p.1, -p.2)
    else if deg = 270 then (p.2, -p.1)
    else p
  rotate_90 _ := rfl
  rotate_180 _ := rfl
  rotate_270 _ := rfl

/-! ## §3 The layout -/

/-- `m_scale`, `m_offset` and `m_drawn`, the drawn size before the turn. -/
structure Layout where
  scale : ℚ
  offsetX : ℚ
  offsetY : ℚ
  drawnW : ℚ
  drawnH : ℚ
deriving DecidableEq, Repr

/-- A quarter turn, one way or the other. -/
def sideways (rotation : ℤ) : Prop := rotation = 90 ∨ rotation = 270

instance (rotation : ℤ) : Decidable (sideways rotation) := by
  unfold sideways
  infer_instance

/-- `FrameView::recalcLayout`. -/
def recalcLayout (qt : Toolkit) (dst : Size) (rotation : ℤ) : Option Image → Layout
  | none => ⟨1, 0, 0, 0, 0⟩
  | some img =>
    let src := if sideways rotation then img.size.transposed else img.size
    let fit := qt.scaled src dst
    -- the size before the painter turns it
    let drawn := if sideways rotation then fit.transposed else fit
    { scale := if src.w > 0 then fit.w / src.w else 1
      offsetX := (dst.w - fit.w) / 2
      offsetY := (dst.h - fit.h) / 2
      drawnW := drawn.w
      drawnH := drawn.h }

/-- `FrameView::mapSourceRect` before the rounding; `none` for the null
rectangle. -/
def mapSourceRectF (l : Layout) (dst : Size) (rotation : ℤ) (img : Option Image)
    (sx sy sw sh : ℤ) : Option QRectF :=
  if img = none ∨ l.scale ≤ 0 then none
  else
    let s := l.scale
    if rotation = 0 then some ⟨l.offsetX + sx * s, l.offsetY + sy * s, sw * s, sh * s⟩
    else
      -- the painter turns about the centre, where the turned picture is centred too
      let postW := if sideways rotation then l.drawnH else l.drawnW
      let postH := if sideways rotation then l.drawnW else l.drawnH
      let left := (dst.w - postW) / 2
      let top := (dst.h - postH) / 2
      if rotation = 90 then
        some ⟨left + postW - (sy + sh) * s, top + sx * s, sh * s, sw * s⟩
      else if rotation = 270 then
        some ⟨left + sy * s, top + postH - (sx + sw) * s, sh * s, sw * s⟩
      else
        some ⟨left + postW - (sx + sw) * s, top + postH - (sy + sh) * s, sw * s, sh * s⟩

/-- `FrameView::mapSourceRect`. -/
def mapSourceRect (qt : Toolkit) (l : Layout) (dst : Size) (rotation : ℤ)
    (img : Option Image) (sx sy sw sh : ℤ) : QRect :=
  match mapSourceRectF l dst rotation img sx sy sw sh with
  | none => ⟨0, 0, 0, 0⟩
  | some r => qt.toAlignedRect r

/-- Where `paint` draws the point `p` of the image: into the target rectangle
at `m_offset`, or into one around the origin that is turned and moved to the
centre. -/
def drawPoint (qt : Toolkit) (l : Layout) (dst : Size) (rotation : ℤ) (img : Image)
    (p : ℚ × ℚ) : ℚ × ℚ :=
  if rotation = 0 then
    (l.offsetX + p.1 * (l.drawnW / img.w), l.offsetY + p.2 * (l.drawnH / img.h))
  else
    let q := qt.rotate rotation
      (-l.drawnW / 2 + p.1 * (l.drawnW / img.w), -l.drawnH / 2 + p.2 * (l.drawnH / img.h))
    (dst.w / 2 + q.1, dst.h / 2 + q.2)

/-- The points at which `paint` shows a rectangle of the image. A target
without a size shows nothing. -/
def shown (qt : Toolkit) (l : Layout) (dst : Size) (rotation : ℤ) (img : Option Image)
    (sx sy sw sh : ℤ) : Set (ℚ × ℚ) :=
  match img with
  | none => ∅
  | some img =>
    if 0 < l.drawnW ∧ 0 < l.drawnH then
      drawPoint qt l dst rotation img '' (QRect.mk sx sy sw sh).area
    else ∅

/-- The turns the view is used with. -/
def turns : List ℤ := [0, 90, 180, 270]

/-- The angle `FrameView::setRotation` stores; `%` rounds towards zero. -/
def normalized (deg : ℤ) : ℤ :=
  Int.tmod (Int.tmod deg 360 + 360) 360

/-! ## §4 The layout fits the image -/

variable (qt : Toolkit) (dst : Size) (rotation : ℤ) (img : Image)

/-- The size of the image as it is seen, turned. -/
def seenSize : Size :=
  if sideways rotation then img.size.transposed else img.size

theorem seenSize_w_pos : 0 < (seenSize rotation img).w := by
  unfold seenSize
  split
  · exact img.size_h_pos
  · exact img.size_w_pos

theorem seenSize_h_pos : 0 < (seenSize rotation img).h := by
  unfold seenSize
  split
  · exact img.size_w_pos
  · exact img.size_h_pos

/-- The factor that fits the turned image into the view. -/
def fitScale : ℚ :=
  min (dst.w / (seenSize rotation img).w) (dst.h / (seenSize rotation img).h)

theorem recalcLayout_some :
    recalcLayout qt dst rotation (some img) =
      { scale := fitScale dst rotation img
        offsetX := (dst.w - fitScale dst rotation img * (seenSize rotation img).w) / 2
        offsetY := (dst.h - fitScale dst rotation img * (seenSize rotation img).h) / 2
        drawnW := fitScale dst rotation img * img.w
        drawnH := fitScale dst rotation img * img.h } := by
  have hw := seenSize_w_pos rotation img
  have hh := seenSize_h_pos rotation img
  obtain ⟨k, hk, hfitW, hfitH⟩ := qt.scaled_fits (seenSize rotation img) dst hw hh
  obtain rfl : k = fitScale dst rotation img := (Plane.isGreatest_fitting_iff hw hh).mp hk
  have hscale : (qt.scaled (seenSize rotation img) dst).w / (seenSize rotation img).w =
      fitScale dst rotation img := by
    rw [hfitW, mul_div_cancel_right₀ _ hw.ne']
  unfold recalcLayout
  show Layout.mk (if (seenSize rotation img).w > 0 then
      (qt.scaled (seenSize rotation img) dst).w / (seenSize rotation img).w else 1)
    ((dst.w - (qt.scaled (seenSize rotation img) dst).w) / 2)
    ((dst.h - (qt.scaled (seenSize rotation img) dst).h) / 2)
    (if sideways rotation then (qt.scaled (seenSize rotation img) dst).transposed
      else qt.scaled (seenSize rotation img) dst).w
    (if sideways rotation then (qt.scaled (seenSize rotation img) dst).transposed
      else qt.scaled (seenSize rotation img) dst).h = _
  rw [if_pos hw, hscale, hfitW, hfitH]
  split
  · rename_i hside
    have hseen : seenSize rotation img = img.size.transposed := if_pos hside
    show Layout.mk _ _ _ (qt.scaled _ dst).h (qt.scaled _ dst).w = _
    rw [hfitW, hfitH, hseen]
    rfl
  · rename_i hside
    have hseen : seenSize rotation img = img.size := if_neg hside
    rw [hfitW, hfitH, hseen]
    rfl

theorem fitScale_nonneg : 0 ≤ fitScale dst rotation img :=
  le_min (div_nonneg dst.w_nonneg (seenSize_w_pos rotation img).le)
    (div_nonneg dst.h_nonneg (seenSize_h_pos rotation img).le)

theorem fitScale_pos_iff : 0 < fitScale dst rotation img ↔ dst.w ≠ 0 ∧ dst.h ≠ 0 := by
  unfold fitScale
  rw [lt_min_iff, div_pos_iff_of_pos_right (seenSize_w_pos rotation img),
    div_pos_iff_of_pos_right (seenSize_h_pos rotation img), dst.w_nonneg.lt_iff_ne',
    dst.h_nonneg.lt_iff_ne']

/-! ## §5 `mapSourceRect` at each turn -/

section Turns

variable {qt dst img} {k : ℚ}

theorem mapSourceRectF_none (hk : fitScale dst rotation img ≤ 0) (sx sy sw sh : ℤ) :
    mapSourceRectF (recalcLayout qt dst rotation (some img)) dst rotation (some img)
      sx sy sw sh = none := by
  rw [recalcLayout_some]
  exact if_pos (Or.inr hk)

theorem scale_pos_cond (hpos : 0 < k) : ¬(some img = none ∨ k ≤ 0) := by
  rintro (h | h)
  · cases h
  · exact absurd h hpos.not_ge

theorem mapSourceRectF_0 (hk : k = fitScale dst 0 img) (hpos : 0 < k) (sx sy sw sh : ℤ) :
    mapSourceRectF (recalcLayout qt dst 0 (some img)) dst 0 (some img) sx sy sw sh =
      some ⟨(dst.w - k * img.w) / 2 + k * sx, (dst.h - k * img.h) / 2 + k * sy,
        k * sw, k * sh⟩ := by
  have hseen : seenSize 0 img = img.size := if_neg (by decide)
  rw [recalcLayout_some, ← hk, hseen]
  refine (if_neg (scale_pos_cond hpos)).trans (congrArg some ?_)
  ext <;> simp only [Image.size] <;> ring

theorem mapSourceRectF_90 (hk : k = fitScale dst 90 img) (hpos : 0 < k) (sx sy sw sh : ℤ) :
    mapSourceRectF (recalcLayout qt dst 90 (some img)) dst 90 (some img) sx sy sw sh =
      some ⟨(dst.w + k * img.h) / 2 - k * (sy + sh), (dst.h - k * img.w) / 2 + k * sx,
        k * sh, k * sw⟩ := by
  rw [recalcLayout_some, ← hk]
  refine (if_neg (scale_pos_cond hpos)).trans (congrArg some ?_)
  ext <;> simp [sideways] <;> ring

theorem mapSourceRectF_180 (hk : k = fitScale dst 180 img) (hpos : 0 < k)
    (sx sy sw sh : ℤ) :
    mapSourceRectF (recalcLayout qt dst 180 (some img)) dst 180 (some img) sx sy sw sh =
      some ⟨(dst.w + k * img.w) / 2 - k * (sx + sw), (dst.h + k * img.h) / 2 - k * (sy + sh),
        k * sw, k * sh⟩ := by
  rw [recalcLayout_some, ← hk]
  refine (if_neg (scale_pos_cond hpos)).trans (congrArg some ?_)
  ext <;> simp [sideways] <;> ring

theorem mapSourceRectF_270 (hk : k = fitScale dst 270 img) (hpos : 0 < k)
    (sx sy sw sh : ℤ) :
    mapSourceRectF (recalcLayout qt dst 270 (some img)) dst 270 (some img) sx sy sw sh =
      some ⟨(dst.w - k * img.h) / 2 + k * sy, (dst.h + k * img.w) / 2 - k * (sx + sw),
        k * sh, k * sw⟩ := by
  rw [recalcLayout_some, ← hk]
  refine (if_neg (scale_pos_cond hpos)).trans (congrArg some ?_)
  ext <;> simp [sideways] <;> ring

/-! ## §6 `paint` at each turn -/

/-- The point of the image in the target rectangle. -/
theorem drawPoint_eq (hk : k = fitScale dst rotation img) (p : ℚ × ℚ) :
    drawPoint qt (recalcLayout qt dst rotation (some img)) dst rotation img p =
      if rotation = 0 then
        ((dst.w - k * img.w) / 2 + k * p.1, (dst.h - k * img.h) / 2 + k * p.2)
      else
        let q := qt.rotate rotation (-(k * img.w) / 2 + k * p.1, -(k * img.h) / 2 + k * p.2)
        (dst.w / 2 + q.1, dst.h / 2 + q.2) := by
  have hw : (img.w : ℚ) ≠ 0 := Nat.cast_ne_zero.mpr img.w_pos.ne'
  have hh : (img.h : ℚ) ≠ 0 := Nat.cast_ne_zero.mpr img.h_pos.ne'
  have hx : p.1 * (k * img.w / img.w) = k * p.1 := by rw [mul_div_cancel_right₀ _ hw, mul_comm]
  have hy : p.2 * (k * img.h / img.h) = k * p.2 := by rw [mul_div_cancel_right₀ _ hh, mul_comm]
  rw [recalcLayout_some, ← hk]
  unfold drawPoint
  dsimp only
  rw [hx, hy]
  split
  · rename_i hrot
    subst hrot
    rfl
  · rfl

theorem drawPoint_0 (hk : k = fitScale dst 0 img) :
    drawPoint qt (recalcLayout qt dst 0 (some img)) dst 0 img =
      fun p => ((dst.w - k * img.w) / 2 + k * p.1, (dst.h - k * img.h) / 2 + k * p.2) := by
  ext1 p
  exact (drawPoint_eq 0 hk p).trans (if_pos rfl)

theorem drawPoint_90 (hk : k = fitScale dst 90 img) :
    drawPoint qt (recalcLayout qt dst 90 (some img)) dst 90 img =
      fun p => ((dst.w + k * img.h) / 2 - k * p.2, (dst.h - k * img.w) / 2 + k * p.1) := by
  ext1 p
  refine (drawPoint_eq 90 hk p).trans ((if_neg (by decide)).trans ?_)
  rw [qt.rotate_90]
  ext <;> dsimp only <;> ring

theorem drawPoint_180 (hk : k = fitScale dst 180 img) :
    drawPoint qt (recalcLayout qt dst 180 (some img)) dst 180 img =
      fun p => ((dst.w + k * img.w) / 2 - k * p.1, (dst.h + k * img.h) / 2 - k * p.2) := by
  ext1 p
  refine (drawPoint_eq 180 hk p).trans ((if_neg (by decide)).trans ?_)
  rw [qt.rotate_180]
  ext <;> dsimp only <;> ring

theorem drawPoint_270 (hk : k = fitScale dst 270 img) :
    drawPoint qt (recalcLayout qt dst 270 (some img)) dst 270 img =
      fun p => ((dst.w - k * img.h) / 2 + k * p.2, (dst.h + k * img.w) / 2 - k * p.1) := by
  ext1 p
  refine (drawPoint_eq 270 hk p).trans ((if_neg (by decide)).trans ?_)
  rw [qt.rotate_270]
  ext <;> dsimp only <;> ring

/-! ## §7 `mapSourceRect` is where `paint` draws -/

theorem mem_turns {rotation : ℤ} (h : rotation ∈ turns) :
    rotation = 0 ∨ rotation = 90 ∨ rotation = 180 ∨ rotation = 270 := by
  simpa [turns] using h

/-- `paint` draws a rectangle of the image exactly over the rectangle that
`mapSourceRect` computes from the same layout. -/
theorem image_drawPoint (qt : Toolkit) {rotation : ℤ} (hrot : rotation ∈ turns)
    (hpos : 0 < fitScale dst rotation img) (sx sy sw sh : ℤ) :
    ∃ r, mapSourceRectF (recalcLayout qt dst rotation (some img)) dst rotation (some img)
        sx sy sw sh = some r ∧
      drawPoint qt (recalcLayout qt dst rotation (some img)) dst rotation img ''
        (QRect.mk sx sy sw sh).area = r.area := by
  rcases mem_turns hrot with rfl | rfl | rfl | rfl
  · refine ⟨_, mapSourceRectF_0 rfl hpos sx sy sw sh, ?_⟩
    rw [drawPoint_0 rfl]
    exact Plane.image_box_upright hpos _ _ _ _ _ _
  · refine ⟨_, mapSourceRectF_90 rfl hpos sx sy sw sh, ?_⟩
    rw [drawPoint_90 rfl]
    exact Plane.image_box_quarter hpos _ _ _ _ _ _
  · refine ⟨_, mapSourceRectF_180 rfl hpos sx sy sw sh, ?_⟩
    rw [drawPoint_180 rfl]
    exact Plane.image_box_half hpos _ _ _ _ _ _
  · refine ⟨_, mapSourceRectF_270 rfl hpos sx sy sw sh, ?_⟩
    rw [drawPoint_270 rfl]
    exact Plane.image_box_three_quarters hpos _ _ _ _ _ _

/-- **What is shown** of a rectangle of the image, in terms of
`mapSourceRect`. -/
theorem shown_eq {rotation : ℤ} (hrot : rotation ∈ turns) (sx sy sw sh : ℤ) :
    shown qt (recalcLayout qt dst rotation (some img)) dst rotation (some img) sx sy sw sh =
      match mapSourceRectF (recalcLayout qt dst rotation (some img)) dst rotation (some img)
        sx sy sw sh with
      | none => ∅
      | some r => r.area := by
  rcases (fitScale_nonneg dst rotation img).eq_or_lt with hzero | hpos
  · rw [mapSourceRectF_none rotation hzero.symm.le]
    refine if_neg fun h => ?_
    have hdrawn := h.1
    rw [recalcLayout_some, ← hzero] at hdrawn
    simp at hdrawn
  · obtain ⟨r, hr, himage⟩ := image_drawPoint qt hrot hpos sx sy sw sh
    rw [hr]
    refine (if_pos ?_).trans himage
    rw [recalcLayout_some]
    exact ⟨mul_pos hpos (Nat.cast_pos.mpr img.w_pos), mul_pos hpos (Nat.cast_pos.mpr img.h_pos)⟩

theorem mapSourceRectF_nonneg {rotation : ℤ} (hrot : rotation ∈ turns) {sx sy sw sh : ℤ}
    (hw : 0 ≤ sw) (hh : 0 ≤ sh) {r : QRectF}
    (hr : mapSourceRectF (recalcLayout qt dst rotation (some img)) dst rotation (some img)
      sx sy sw sh = some r) : 0 ≤ r.w ∧ 0 ≤ r.h := by
  rcases (fitScale_nonneg dst rotation img).eq_or_lt with hzero | hpos
  · rw [mapSourceRectF_none rotation hzero.symm.le] at hr
    cases hr
  · have hkw : 0 ≤ fitScale dst rotation img * sw :=
      mul_nonneg hpos.le (Int.cast_nonneg hw)
    have hkh : 0 ≤ fitScale dst rotation img * sh :=
      mul_nonneg hpos.le (Int.cast_nonneg hh)
    rcases mem_turns hrot with rfl | rfl | rfl | rfl
    · rw [mapSourceRectF_0 rfl hpos] at hr
      cases hr
      exact ⟨hkw, hkh⟩
    · rw [mapSourceRectF_90 rfl hpos] at hr
      cases hr
      exact ⟨hkh, hkw⟩
    · rw [mapSourceRectF_180 rfl hpos] at hr
      cases hr
      exact ⟨hkw, hkh⟩
    · rw [mapSourceRectF_270 rfl hpos] at hr
      cases hr
      exact ⟨hkh, hkw⟩

/-- **With a current layout**, the rounded and inflated rectangle contains what
is shown. -/
theorem shown_subset {rotation : ℤ} (hrot : rotation ∈ turns) (sx sy : ℤ) {sw sh : ℤ}
    (hw : 0 ≤ sw) (hh : 0 ≤ sh) :
    shown qt (recalcLayout qt dst rotation (some img)) dst rotation (some img) sx sy sw sh ⊆
      (mapSourceRect qt (recalcLayout qt dst rotation (some img)) dst rotation (some img)
        sx sy sw sh).inflated.area := by
  rw [shown_eq hrot]
  unfold mapSourceRect
  split
  · exact Set.empty_subset _
  · rename_i r hr
    obtain ⟨hrw, hrh⟩ := mapSourceRectF_nonneg hrot hw hh hr
    exact (qt.toAlignedRect_contains r hrw hrh).trans (QRect.area_subset_inflated _)

end Turns

end Rmcast.View
