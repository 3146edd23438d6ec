import Mathlib.Tactic
import Rmcast.View.FrameView

/-!
# The cursor tag

`cursorMap` (`qml/session.qml`) computes once more, in the scene, where the
frame view shows a rectangle of the image: the rectangle around the cursor,
which gets a waveform of its own.
-/

namespace Rmcast.View

/-! ## §1 `cursorMap` -/

/-- The item `frameView` in its parent. -/
structure Item where
  x : ℚ
  y : ℚ
  size : Size

/-- `cursorX`, `cursorY`, `cursorW`, `cursorH` of the server. -/
structure Cursor where
  x : ℤ
  y : ℤ
  w : ℤ
  h : ℤ
deriving DecidableEq, Repr

/-- `cursorMap`: `finalX`, `finalY`, `finalW`, `finalH`. -/
def cursorMap (frameView : Item) (rotation : ℤ) (srcW srcH : ℚ) (cs : Cursor) : QRectF :=
  let logW := if sideways rotation then srcH else srcW
  let logH := if sideways rotation then srcW else srcH
  let scale :=
    if logW ≤ 0 ∨ logH ≤ 0 then 1
    else min (frameView.size.w / logW) (frameView.size.h / logH)
  let drawnW := logW * scale
  let drawnH := logH * scale
  let offsetX := (frameView.size.w - drawnW) / 2
  let offsetY := (frameView.size.h - drawnH) / 2
  -- there is no case for 180
  let logX : ℚ :=
    if rotation = 90 then srcH - cs.y - cs.h else if rotation = 270 then cs.y else cs.x
  let logY : ℚ :=
    if rotation = 90 then cs.x else if rotation = 270 then srcW - cs.x - cs.w else cs.y
  let logCW : ℚ := if sideways rotation then cs.h else cs.w
  let logCH : ℚ := if sideways rotation then cs.w else cs.h
  { x := frameView.x + offsetX + logX * scale
    y := frameView.y + offsetY + logY * scale
    w := max 48 (logCW * scale)
    h := max 48 (logCH * scale) }

/-- `frameView.rotation`: the angle between the orientations, and half a turn
when the view is flipped. -/
def sessionRotation (base : ℤ) (flipped : Bool) : ℤ :=
  normalized (Int.tmod (base + if flipped then 180 else 0) 360)

theorem sessionRotation_mem {base : ℤ} (h : base ∈ turns) (flipped : Bool) :
    sessionRotation base flipped ∈ turns := by
  rcases mem_turns h with rfl | rfl | rfl | rfl <;> cases flipped <;> decide

/-- The rectangle lies in the image. -/
structure Cursor.Inside (cs : Cursor) (img : Image) : Prop where
  x_nonneg : 0 ≤ cs.x
  y_nonneg : 0 ≤ cs.y
  w_nonneg : 0 ≤ cs.w
  h_nonneg : 0 ≤ cs.h
  right : cs.x + cs.w ≤ img.w
  bottom : cs.y + cs.h ≤ img.h

/-- The rectangle is in the middle of the image. -/
def Cursor.Centred (cs : Cursor) (img : Image) : Prop :=
  2 * cs.x + cs.w = img.w ∧ 2 * cs.y + cs.h = img.h

/-- Where the frame view paints the rectangle, in the coordinates of the
parent. -/
def paintedRect (qt : Toolkit) (frameView : Item) (rotation : ℤ) (img : Image)
    (cs : Cursor) : Option QRectF :=
  (mapSourceRectF (recalcLayout qt frameView.size rotation (some img)) frameView.size
    rotation (some img) cs.x cs.y cs.w cs.h).map
    fun r => { r with x := frameView.x + r.x, y := frameView.y + r.y }

/-- The tag starts where the painted rectangle starts, and covers it. -/
def Agree (tag painted : QRectF) : Prop :=
  tag.x = painted.x ∧ tag.y = painted.y ∧ painted.area ⊆ tag.area

/-! ## §2 The tag in terms of the factor -/

section Turns

variable {v : Item} {img : Image} {cs : Cursor} {k : ℚ}

theorem cursorMap_eq (rotation : ℤ) (hk : k = fitScale v.size rotation img) :
    cursorMap v rotation img.w img.h cs =
      { x := v.x + (v.size.w - (seenSize rotation img).w * k) / 2 +
          (if rotation = 90 then (img.h : ℚ) - cs.y - cs.h
            else if rotation = 270 then (cs.y : ℚ) else cs.x) * k
        y := v.y + (v.size.h - (seenSize rotation img).h * k) / 2 +
          (if rotation = 90 then (cs.x : ℚ)
            else if rotation = 270 then (img.w : ℚ) - cs.x - cs.w else cs.y) * k
        w := max 48 ((if sideways rotation then (cs.h : ℚ) else cs.w) * k)
        h := max 48 ((if sideways rotation then (cs.w : ℚ) else cs.h) * k) } := by
  have hlogW : (if sideways rotation then (img.h : ℚ) else img.w) = (seenSize rotation img).w := by
    unfold seenSize
    split <;> rfl
  have hlogH : (if sideways rotation then (img.w : ℚ) else img.h) = (seenSize rotation img).h := by
    unfold seenSize
    split <;> rfl
  have hscale : (if (seenSize rotation img).w ≤ 0 ∨ (seenSize rotation img).h ≤ 0 then 1
      else min (v.size.w / (seenSize rotation img).w) (v.size.h / (seenSize rotation img).h)) =
      k := by
    rw [hk]
    refine if_neg ?_
    rintro (h | h)
    · exact absurd h (seenSize_w_pos rotation img).not_ge
    · exact absurd h (seenSize_h_pos rotation img).not_ge
  unfold cursorMap
  dsimp only
  rw [hlogW, hlogH, hscale]

theorem agree_of_start {tag painted : QRectF} (hx : tag.x = painted.x)
    (hy : tag.y = painted.y) (hw : painted.w ≤ tag.w) (hh : painted.h ≤ tag.h) :
    Agree tag painted :=
  ⟨hx, hy, Plane.box_subset_box hx.le hy.le (add_le_add hx.symm.le hw)
    (add_le_add hy.symm.le hh)⟩

theorem paintedRect_eq {qt : Toolkit} {rotation : ℤ} {r : QRectF}
    (h : mapSourceRectF (recalcLayout qt v.size rotation (some img)) v.size rotation
      (some img) cs.x cs.y cs.w cs.h = some r) :
    paintedRect qt v rotation img cs = some { r with x := v.x + r.x, y := v.y + r.y } := by
  unfold paintedRect
  rw [h]
  rfl

theorem paintedRect_none {qt : Toolkit} (rotation : ℤ)
    (hk : ¬0 < fitScale v.size rotation img) : paintedRect qt v rotation img cs = none := by
  unfold paintedRect
  rw [mapSourceRectF_none rotation (not_lt.mp hk)]
  rfl

/-! ## §3 Each turn -/

theorem agree_0 (hpos : 0 < fitScale v.size 0 img) (qt : Toolkit) :
    ∀ r ∈ paintedRect qt v 0 img cs, Agree (cursorMap v 0 img.w img.h cs) r := by
  intro r hr
  rw [paintedRect_eq (mapSourceRectF_0 rfl hpos _ _ _ _)] at hr
  cases hr
  have hseen : seenSize 0 img = img.size := if_neg (by decide)
  rw [cursorMap_eq 0 rfl, hseen]
  refine agree_of_start ?_ ?_ ?_ ?_
  · show _ + (_ - (img.w : ℚ) * _) / 2 + (cs.x : ℚ) * _ = v.x + _
    ring
  · show _ + (_ - (img.h : ℚ) * _) / 2 + (cs.y : ℚ) * _ = v.y + _
    ring
  · exact (mul_comm _ _).le.trans (le_max_right _ _)
  · exact (mul_comm _ _).le.trans (le_max_right _ _)

theorem agree_90 (hpos : 0 < fitScale v.size 90 img) (qt : Toolkit) :
    ∀ r ∈ paintedRect qt v 90 img cs, Agree (cursorMap v 90 img.w img.h cs) r := by
  intro r hr
  rw [paintedRect_eq (mapSourceRectF_90 rfl hpos _ _ _ _)] at hr
  cases hr
  have hseen : seenSize 90 img = img.size.transposed := if_pos (by decide)
  rw [cursorMap_eq 90 rfl, hseen]
  refine agree_of_start ?_ ?_ ?_ ?_
  · show _ + (_ - (img.h : ℚ) * _) / 2 + ((img.h : ℚ) - cs.y - cs.h) * _ = v.x + _
    ring
  · show _ + (_ - (img.w : ℚ) * _) / 2 + (cs.x : ℚ) * _ = v.y + _
    ring
  · exact (mul_comm _ _).le.trans (le_max_right _ _)
  · exact (mul_comm _ _).le.trans (le_max_right _ _)

theorem agree_270 (hpos : 0 < fitScale v.size 270 img) (qt : Toolkit) :
    ∀ r ∈ paintedRect qt v 270 img cs, Agree (cursorMap v 270 img.w img.h cs) r := by
  intro r hr
  rw [paintedRect_eq (mapSourceRectF_270 rfl hpos _ _ _ _)] at hr
  cases hr
  have hseen : seenSize 270 img = img.size.transposed := if_pos (by decide)
  rw [cursorMap_eq 270 rfl, hseen]
  refine agree_of_start ?_ ?_ ?_ ?_
  · show _ + (_ - (img.h : ℚ) * _) / 2 + (cs.y : ℚ) * _ = v.x + _
    ring
  · show _ + (_ - (img.w : ℚ) * _) / 2 + ((img.w : ℚ) - cs.x - cs.w) * _ = v.y + _
    ring
  · exact (mul_comm _ _).le.trans (le_max_right _ _)
  · exact (mul_comm _ _).le.trans (le_max_right _ _)

/-- Turned by a half, the tag stays where the rectangle would be if the view
were not turned. -/
theorem agree_180_iff (hpos : 0 < fitScale v.size 180 img) (qt : Toolkit) :
    (∀ r ∈ paintedRect qt v 180 img cs, Agree (cursorMap v 180 img.w img.h cs) r) ↔
      cs.Centred img := by
  have hseen : seenSize 180 img = img.size := if_neg (by decide)
  rw [paintedRect_eq (mapSourceRectF_180 rfl hpos _ _ _ _), cursorMap_eq 180 rfl, hseen]
  generalize fitScale v.size 180 img = k at hpos
  have hx : v.x + (v.size.w - img.w * k) / 2 + cs.x * k =
      v.x + ((v.size.w + k * img.w) / 2 - k * (cs.x + cs.w)) ↔ 2 * cs.x + cs.w = img.w := by
    rw [← @Int.cast_inj ℚ]
    push_cast
    constructor
    · intro h
      refine mul_left_cancel₀ hpos.ne' ?_
      linear_combination h
    · intro h
      linear_combination k * h
  have hy : v.y + (v.size.h - img.h * k) / 2 + cs.y * k =
      v.y + ((v.size.h + k * img.h) / 2 - k * (cs.y + cs.h)) ↔ 2 * cs.y + cs.h = img.h := by
    rw [← @Int.cast_inj ℚ]
    push_cast
    constructor
    · intro h
      refine mul_left_cancel₀ hpos.ne' ?_
      linear_combination h
    · intro h
      linear_combination k * h
  constructor
  · intro h
    obtain ⟨hstartX, hstartY, -⟩ := h _ rfl
    exact ⟨hx.mp hstartX, hy.mp hstartY⟩
  · rintro ⟨hcx, hcy⟩ r hr
    cases hr
    refine agree_of_start (hx.mpr hcx) (hy.mpr hcy) ?_ ?_
    · exact (mul_comm _ _).le.trans (le_max_right _ _)
    · exact (mul_comm _ _).le.trans (le_max_right _ _)

end Turns

/-! ## §4 The two mappings -/

/-- **The tag is where the view paints the cursor** exactly when the view is
not upside down, or the rectangle is in the middle of the image, or the view
has no area. -/
theorem cursorMap_agrees_iff (qt : Toolkit) (v : Item) (img : Image) {rotation : ℤ}
    (hrot : rotation ∈ turns) (cs : Cursor) :
    (∀ r ∈ paintedRect qt v rotation img cs,
        Agree (cursorMap v rotation img.w img.h cs) r) ↔
      (rotation = 180 → cs.Centred img ∨ v.size.w = 0 ∨ v.size.h = 0) := by
  by_cases hpos : 0 < fitScale v.size rotation img
  · obtain ⟨hw, hh⟩ := (fitScale_pos_iff v.size rotation img).mp hpos
    -- only the half turn lacks its case
    rcases mem_turns hrot with rfl | rfl | rfl | rfl
    · exact iff_of_true (agree_0 hpos qt) (fun h => absurd h (by decide))
    · exact iff_of_true (agree_90 hpos qt) (fun h => absurd h (by decide))
    · rw [agree_180_iff hpos qt]
      constructor
      · exact fun hc _ => Or.inl hc
      · intro h
        rcases h rfl with hc | hw' | hh'
        · exact hc
        · exact absurd hw' hw
        · exact absurd hh' hh
    · exact iff_of_true (agree_270 hpos qt) (fun h => absurd h (by decide))
  · refine iff_of_true ?_ fun _ => ?_
    · rw [paintedRect_none rotation hpos]
      exact nofun
    · rw [fitScale_pos_iff, not_and_or, not_not, not_not] at hpos
      exact Or.inr hpos

/-- A picture of 50 × 50. -/
def Image.small : Image := ⟨50, 50, by decide, by decide⟩

/-- A view of 200 × 100 whose origin is its parent's. -/
def Item.wide : Item := ⟨0, 0, ⟨200, 100, by norm_num, by norm_num⟩⟩

theorem cursorMap_agrees_sideways :
    paintedRect Toolkit.exact Item.wide 90 Image.small ⟨10, 20, 4, 8⟩ =
        some ⟨94, 20, 16, 8⟩ ∧
      Agree (cursorMap Item.wide 90 Image.small.w Image.small.h ⟨10, 20, 4, 8⟩)
        ⟨94, 20, 16, 8⟩ := by
  have hpainted : paintedRect Toolkit.exact Item.wide 90 Image.small ⟨10, 20, 4, 8⟩ =
      some ⟨94, 20, 16, 8⟩ := by decide +kernel
  exact ⟨hpainted, (cursorMap_agrees_iff Toolkit.exact Item.wide Image.small (by decide)
    ⟨10, 20, 4, 8⟩).mpr (fun h => absurd h (by decide)) _ hpainted⟩

/-- Flipped, the tag of a cursor near the left border stays there, and the
cursor is painted near the right border. -/
theorem cursorMap_flipped :
    ¬∀ (qt : Toolkit) (v : Item) (img : Image) (base : ℤ) (flipped : Bool) (cs : Cursor),
      base ∈ turns → cs.Inside img →
        ∀ r ∈ paintedRect qt v (sessionRotation base flipped) img cs,
          Agree (cursorMap v (sessionRotation base flipped) img.w img.h cs) r := by
  intro h
  have hagree := h Toolkit.exact Item.wide Image.small 0 true ⟨10, 20, 4, 8⟩
    (by decide) ⟨by decide, by decide, by decide, by decide, by decide, by decide⟩
  have hpos : 0 < fitScale Item.wide.size 180 Image.small :=
    (fitScale_pos_iff _ _ _).mpr ⟨by decide, by decide⟩
  have hcentred := (agree_180_iff hpos Toolkit.exact).mp hagree
  exact absurd hcentred.1 (by decide)

end Rmcast.View
