import Rmcast.Screen.Updates

/-!
# The cursor overlay

`handle_cursor_pos` passes the server's cursor position on to the display,
which draws its overlay at that position of the picture it shows. The picture
has been rotated, the position has not: they agree on the pixels the rotation
leaves in place, and on no others.
-/

namespace Rmcast.Screen

open Word

/-! ## §1  The code -/

/-- `screen::handle_cursor_pos`: the state and the message sent. -/
def handleCursorPos (s : State) (x y : ℤ) : State × Option Qtfb.CursorC2S :=
  let (device, m) := s.device.updateCursor x y true
  ({ s with device := device }, m)

/-- The cursor position the vncast backend has forwarded last. -/
def Device.cursorPos (d : Device) : Option (ℤ × ℤ) :=
  match d.backend with
  | .appload _ => none
  | .vncast c => some (c.cursorX, c.cursorY)

/-! ## §2  What is forwarded -/

/-- The position is forwarded as it is, and the message, when one is due,
carries it. -/
theorem handleCursorPos_spec {s : State} {c : Vncast.Connection}
    (hc : s.device.backend = .vncast c) (x y : ℤ) :
    (handleCursorPos s x y).1.device.cursorPos = some (x, y) ∧
      ∀ m, (handleCursorPos s x y).2 = some m → m.x = ofInt x ∧ m.y = ofInt y := by
  unfold handleCursorPos Device.updateCursor Device.cursorPos
  simp only [hc, Vncast.sendCursorPos]
  by_cases hsame : x = c.cursorX ∧ y = c.cursorY ∧ ofInt 64 = c.cursorW ∧
      ofInt 64 = c.cursorH ∧ true = c.cursorVisible
  · rw [if_pos hsame]
    refine ⟨?_, fun m hm => by cases hm⟩
    rw [hsame.1, hsame.2.1]
  · rw [if_neg hsame]
    refine ⟨rfl, fun m hm => ?_⟩
    obtain rfl := Option.some.inj hm
    exact ⟨rfl, rfl⟩

/-! ## §3  Where the picture shows a pixel -/

/-- A copy of the source pixel `q` announces the panel position `p`, and
leaves the pixel there. -/
def DisplaysAt (s : State) (q p : ℤ × ℤ) : Prop :=
  ∃ dst d, blitRotated s.geometry s.effective s.srcBuffer s.device.getData
      ⟨q.1, q.2, 1, 1⟩ = some (dst, d) ∧ p ∈ d ∧
    pixel dst s.geometry.panelW s.geometry.bpp p
      = pixel s.srcBuffer s.geometry.srcW s.geometry.bpp q

/-- The buffers of the screen have the sizes it works with. -/
structure State.Sized (s : State) : Prop where
  ready : s.device.Ready
  bpp : s.bytesPerPixel = 2
  src_length : (s.srcBuffer.length : ℤ) = s.srcWidth * 2 * s.srcHeight

theorem mem_pixel {q q' : ℤ × ℤ} :
    q' ∈ (⟨q.1, q.2, 1, 1⟩ : Rect) ↔ q' = q := by
  rw [Rect.mem_iff, Prod.ext_iff]
  simp only
  omega

theorem displaysAt_iff {s : State} (hs : s.Sized) {q p : ℤ × ℤ}
    (hq : q ∈ s.geometry.source) :
    DisplaysAt s q p ↔ s.OnPanel q ∧ rotate s.geometry s.effective q = p := by
  have hfit : Fits s.geometry s.srcBuffer s.device.getData := by
    constructor
    · simp only [State.geometry, hs.bpp]
      exact hs.src_length
    · simp only [State.geometry, hs.bpp]
      exact hs.ready.data_length
  obtain ⟨dst, d, hblit, hB⟩ := blitRotated_spec (o := s.effective)
    (s := ⟨q.1, q.2, 1, 1⟩) hfit
  have hd : p ∈ d ↔ s.OnPanel q ∧ rotate s.geometry s.effective q = p := by
    rw [hB.announced]
    constructor
    · rintro ⟨hp, q', ⟨hq', -⟩, rfl⟩
      rw [mem_pixel.mp hq'] at hp ⊢
      exact ⟨hp, rfl⟩
    · rintro ⟨hon, rfl⟩
      exact ⟨hon, q, ⟨mem_pixel.mpr rfl, hq⟩, rfl⟩
  constructor
  · rintro ⟨dst', d', hblit', hp, -⟩
    rw [hblit] at hblit'
    obtain ⟨rfl, rfl⟩ := Prod.mk.inj (Option.some.inj hblit')
    exact hd.mp hp
  · intro h
    refine ⟨dst, d, hblit, hd.mpr h, ?_⟩
    rw [← h.2]
    exact hB.painted.shown q ⟨mem_pixel.mpr rfl, hq⟩ h.1

/-! ## §4  When the overlay follows the picture -/

/-- The overlay is drawn where the picture shows the pixel `q` under the
cursor. -/
def FollowsPicture (s : State) (q : ℤ × ℤ) : Prop :=
  ∀ p, DisplaysAt s q p →
    (handleCursorPos s q.1 q.2).1.device.cursorPos = some p

/-- The pixels an orientation leaves in place: all in portrait, the centre of
the picture when it is turned around, and the centre of the turn on the
diagonal when it is turned by a right angle. -/
def Fixed (g : Geometry) (o : Orientation) (q : ℤ × ℤ) : Prop :=
  match o with
  | .Portrait | .Auto => True
  | .InvertedPortrait => 2 * q.1 + 1 = g.srcW ∧ 2 * q.2 + 1 = g.srcH
  | .LandscapeCW => q.1 = q.2 ∧ 2 * q.2 + 1 = g.srcH
  | .LandscapeCCW => q.1 = q.2 ∧ 2 * q.1 + 1 = g.srcW

theorem rotate_eq_self_iff {g : Geometry} {o : Orientation} {q : ℤ × ℤ} :
    rotate g o q = q ↔ Fixed g o q := by
  obtain ⟨a, b⟩ := q
  cases o with
  | Portrait => exact iff_of_true rfl trivial
  | Auto => exact iff_of_true rfl trivial
  | InvertedPortrait =>
      simp only [rotate, Fixed, Prod.mk.injEq]
      omega
  | LandscapeCW =>
      simp only [rotate, Fixed, Prod.mk.injEq]
      omega
  | LandscapeCCW =>
      simp only [rotate, Fixed, Prod.mk.injEq]
      omega

/-- **The overlay follows the picture exactly at the fixed pixels** of the
orientation, and at pixels that are not on the panel. -/
theorem followsPicture_iff {s : State} {c : Vncast.Connection} {q : ℤ × ℤ}
    (hs : s.Sized) (hc : s.device.backend = .vncast c)
    (hq : q ∈ s.geometry.source) :
    FollowsPicture s q ↔
      ¬ s.OnPanel q ∨ Fixed s.geometry s.effective q := by
  have hpos := (handleCursorPos_spec hc q.1 q.2).1
  rw [← rotate_eq_self_iff]
  constructor
  · intro h
    by_cases hon : s.OnPanel q
    · right
      have hp := h _ ((displaysAt_iff hs hq).mpr ⟨hon, rfl⟩)
      rw [hpos] at hp
      exact (Option.some.inj hp).symm
    · exact Or.inl hon
  · rintro h p hp
    obtain ⟨hon, rfl⟩ := (displaysAt_iff hs hq).mp hp
    rw [hpos, h.resolve_left fun hn => hn hon]

/-- The strip of five pixels, standing upright on its panel. -/
def upright : State where
  device :=
    { backend := .vncast
        { w := 1, h := 5, stride := 1, bpp := 8, format := 2
          shm := List.replicate 5 0xFF
          shadow := List.replicate 10 0
          forceGrayscale := false } }
  repaintMode := .fast
  standardRepaintDelay := 500
  fastRepaintDelay := 16
  standardWaveformMode := .UI
  fastWaveformMode := .ANIMATE
  requested := .LandscapeCCW
  effective := .LandscapeCCW
  srcBuffer := List.replicate 10 0
  srcWidth := 5
  srcHeight := 1
  bytesPerPixel := 2

theorem upright_sized : upright.Sized where
  ready :=
    { w_lt := by decide
      h_lt := by decide
      shadow_length := by decide
      shm_length := by decide
      format := ⟨1, Vncast.toGrayscale8, rfl, by decide⟩ }
  bpp := rfl
  src_length := by decide

theorem upright_iff : FollowsPicture upright (0, 0) ↔
    ¬ upright.OnPanel (0, 0) ∨ Fixed upright.geometry upright.effective (0, 0) :=
  followsPicture_iff upright_sized rfl (by decide)

/-- The leftmost pixel of the strip is shown at the bottom of the panel, the
overlay for it at the top. -/
theorem overlay_misplaced : ¬ FollowsPicture upright (0, 0) := by
  intro h
  have hat : DisplaysAt upright (0, 0) (0, 4) := by
    refine ⟨_, _, rfl, by decide, by decide⟩
  have hp := h (0, 4) hat
  exact absurd hp (by decide)

end Rmcast.Screen
