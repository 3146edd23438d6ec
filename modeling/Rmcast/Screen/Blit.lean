import Rmcast.Lib.Memory
import Rmcast.Lib.Loop
import Rmcast.Lib.Rect
import Rmcast.Orientation

/-!
# The rotating blit

`screen::blit_rotated` copies a rectangle of the source picture into the
panel picture under the effective orientation. §1 is the code; §2 says what
it computes: every source pixel of the clipped rectangle whose rotated
position is on the panel is there, the rest of the panel is untouched, and
the rectangle handed back is the image of the one handed in.
-/

namespace Rmcast.Screen

open Mem Loop

/-! ## §1  The code -/

/-- The sizes `blit_rotated` reads. -/
structure Geometry where
  srcW : ℤ
  srcH : ℤ
  panelW : ℤ
  panelH : ℤ
  /-- `bytes_per_pixel_`. -/
  bpp : ℕ
deriving DecidableEq, Repr

/-- The lambda `put`: copy the source pixel at offset `p`, unless its
destination is off the panel. -/
def put (g : Geometry) (src : List UInt8) (dstCol dstRow p : ℤ)
    (dst : List UInt8) : Option (List UInt8) :=
  if dstCol < 0 ∨ dstCol ≥ g.panelW then some dst
  else if dstRow < 0 ∨ dstRow ≥ g.panelH then some dst
  else memcpy dst ((dstRow * g.panelW + dstCol) * g.bpp) src p g.bpp

/-- The double loop of the three rotated branches; they differ in `dest`,
the panel column and row of a source column and row. -/
def putPixels (g : Geometry) (src : List UInt8) (dest : ℤ → ℤ → ℤ × ℤ)
    (c : Rect) (dst : List UInt8) : Option (List UInt8) :=
  c.scan (fun srcCol srcRow dst =>
    put g src (dest srcCol srcRow).1 (dest srcCol srcRow).2
      ((srcRow * g.srcW + srcCol) * g.bpp) dst) dst

/-- The row copy of the portrait branch. -/
def copyRows (g : Geometry) (src : List UInt8) (c : Rect)
    (dst : List UInt8) : Option (List UInt8) :=
  forUpTo c.h.toNat (fun y dst =>
    memcpy dst (((c.y + y) * g.panelW + c.x) * g.bpp)
      src (((c.y + y) * g.srcW + c.x) * g.bpp) (c.w.toNat * g.bpp)) dst

/-- The final clamp to the panel. -/
def clampToPanel (g : Geometry) (d : Rect) : Rect :=
  let d := d.clamp g.panelW g.panelH
  ⟨d.x, d.y, if d.w < 0 then 0 else d.w, if d.h < 0 then 0 else d.h⟩

/-- `screen::blit_rotated`: the panel after the copy and `(dx, dy, dw, dh)`. -/
def blitRotated (g : Geometry) (effective : Orientation)
    (src dst : List UInt8) (s : Rect) : Option (List UInt8 × Rect) :=
  let c := s.clamp g.srcW g.srcH
  if c.w ≤ 0 ∨ c.h ≤ 0 then some (dst, ⟨0, 0, 0, 0⟩)
  else match effective with
  | .Portrait | .Auto =>
      let copyW := min c.w (g.panelW - c.x)
      let copyH := min c.h (g.panelH - c.y)
      if copyW ≤ 0 ∨ copyH ≤ 0 then some (dst, ⟨0, 0, 0, 0⟩)
      else do
        let dst ← copyRows g src ⟨c.x, c.y, copyW, copyH⟩ dst
        return (dst, clampToPanel g ⟨c.x, c.y, copyW, copyH⟩)
  | .InvertedPortrait => do
      let dst ← putPixels g src
        (fun col row => (g.srcW - 1 - col, g.srcH - 1 - row)) c dst
      return (dst, clampToPanel g
        ⟨g.srcW - c.x - c.w, g.srcH - c.y - c.h, c.w, c.h⟩)
  | .LandscapeCW => do
      let dst ← putPixels g src (fun col row => (g.srcH - 1 - row, col)) c dst
      return (dst, clampToPanel g ⟨g.srcH - c.y - c.h, c.x, c.h, c.w⟩)
  | .LandscapeCCW => do
      let dst ← putPixels g src (fun col row => (row, g.srcW - 1 - col)) c dst
      return (dst, clampToPanel g ⟨c.y, g.srcW - c.x - c.w, c.h, c.w⟩)

/-- `screen::transform_input`: the inverse of the rotation, for touch events. -/
def transformInput (g : Geometry) (effective : Orientation) (p : ℤ × ℤ) :
    ℤ × ℤ :=
  if g.srcW ≤ 0 ∨ g.srcH ≤ 0 then p
  else match effective with
  | .Portrait | .Auto => p
  | .InvertedPortrait => (g.srcW - 1 - p.1, g.srcH - 1 - p.2)
  | .LandscapeCW => (p.2, g.srcH - 1 - p.1)
  | .LandscapeCCW => (g.srcW - 1 - p.2, p.1)

/-! ## §2  What the blit computes -/

/-- The pixel at `p` of a picture with rows of `w` pixels. -/
def pixel (b : List UInt8) (w : ℤ) (bpp : ℕ) (p : ℤ × ℤ) :
    Option (List UInt8) :=
  cell b (w * bpp) bpp p.1 p.2

/-- Where the orientation puts a source pixel on the panel. -/
def rotate (g : Geometry) (o : Orientation) (q : ℤ × ℤ) : ℤ × ℤ :=
  match o with
  | .Portrait | .Auto => q
  | .InvertedPortrait => (g.srcW - 1 - q.1, g.srcH - 1 - q.2)
  | .LandscapeCW => (g.srcH - 1 - q.2, q.1)
  | .LandscapeCCW => (q.2, g.srcW - 1 - q.1)

theorem rotate_injective (g : Geometry) (o : Orientation) :
    Function.Injective (rotate g o) := by
  rintro ⟨a, b⟩ ⟨c, d⟩ h
  cases o <;> simp only [rotate, Prod.mk.injEq] at h ⊢ <;> omega

/-- Once the framebuffer has a size, `transform_input` undoes the rotation. -/
theorem transformInput_eq_iff {g : Geometry} {o : Orientation}
    (hw : 0 < g.srcW) (hh : 0 < g.srcH) {p q : ℤ × ℤ} :
    transformInput g o p = q ↔ rotate g o q = p := by
  obtain ⟨a, b⟩ := p
  obtain ⟨c, d⟩ := q
  unfold transformInput
  rw [if_neg (by omega)]
  cases o <;> simp only [rotate, Prod.mk.injEq] <;> omega

/-- The source picture. -/
abbrev Geometry.source (g : Geometry) : Rect := Rect.full g.srcW g.srcH

/-- The panel picture. -/
abbrev Geometry.panel (g : Geometry) : Rect := Rect.full g.panelW g.panelH

/-- The two buffers have the sizes the geometry says. -/
structure Fits (g : Geometry) (src dst : List UInt8) : Prop where
  src_length : (src.length : ℤ) = g.srcW * g.bpp * g.srcH
  dst_length : (dst.length : ℤ) = g.panelW * g.bpp * g.panelH

/-- The progress of a copy that started from the panel `dst₀`: the source
pixels in `S` are on the panel, and nothing else has changed. -/
structure Painted (g : Geometry) (o : Orientation) (src dst₀ : List UInt8)
    (S : ℤ × ℤ → Prop) (dst : List UInt8) : Prop where
  length : dst.length = dst₀.length
  shown : ∀ q, S q → rotate g o q ∈ g.panel →
    pixel dst g.panelW g.bpp (rotate g o q) = pixel src g.srcW g.bpp q
  kept : ∀ p ∈ g.panel, (∀ q, S q → rotate g o q ≠ p) →
    pixel dst g.panelW g.bpp p = pixel dst₀ g.panelW g.bpp p

section Copy

variable {g : Geometry} {o : Orientation} {src dst₀ dst : List UInt8}
  {S S' : ℤ × ℤ → Prop}

theorem Painted.start (g : Geometry) (o : Orientation)
    (src dst₀ : List UInt8) : Painted g o src dst₀ (fun _ => False) dst₀ :=
  ⟨rfl, fun _ h => h.elim, fun _ _ _ => rfl⟩

theorem Painted.congr (h : Painted g o src dst₀ S dst)
    (hS : ∀ q, S q ↔ S' q) : Painted g o src dst₀ S' dst where
  length := h.length
  shown := fun q hq => h.shown q ((hS q).mpr hq)
  kept := fun p hp hne => h.kept p hp fun q hq => hne q ((hS q).mp hq)

/-- A source pixel off the panel needs no copying. -/
theorem Painted.skip {q : ℤ × ℤ} (h : Painted g o src dst₀ S dst)
    (hq : rotate g o q ∉ g.panel) :
    Painted g o src dst₀ (fun q' => S q' ∨ q' = q) dst where
  length := h.length
  shown := by
    rintro q' (hq' | rfl) hp
    · exact h.shown q' hq' hp
    · exact absurd hp hq
  kept := fun p hp hne => h.kept p hp fun q' hq' => hne q' (Or.inl hq')

/-- The position is one of the `n` of a row from `p` on. -/
def InRun (p : ℤ × ℤ) (n : ℕ) (p' : ℤ × ℤ) : Prop :=
  p'.2 = p.2 ∧ p.1 ≤ p'.1 ∧ p'.1 < p.1 + n

section Run

variable {q p : ℤ × ℤ} {n : ℕ} {xs dst' : List UInt8}

/-- After the store of `n` source pixels, each is where the run has it. -/
theorem pixel_of_inRun
    (hxs : load src (q.2 * (g.srcW * g.bpp) + q.1 * g.bpp) (n * g.bpp) = some xs)
    (hst : Mem.store dst (p.2 * (g.panelW * g.bpp) + p.1 * g.bpp) xs = some dst')
    {i : ℤ} (h0 : 0 ≤ i) (hn : i < n) :
    pixel dst' g.panelW g.bpp (p.1 + i, p.2) = pixel src g.srcW g.bpp (q.1 + i, q.2) := by
  have hk : (0 : ℤ) ≤ g.bpp := Int.natCast_nonneg _
  have hpos : p.1 ≤ p.1 + i := le_add_of_nonneg_right h0
  have hend : p.1 + i + 1 ≤ p.1 + n := by
    rw [add_assoc]
    exact (add_le_add_iff_left _).mpr hn
  have hoff : 0 ≤ (p.1 + i - p.1) * (g.bpp : ℤ) := by
    rw [add_sub_cancel_left]
    exact mul_nonneg h0 hk
  have hlast : (p.1 + i - p.1) * (g.bpp : ℤ) + g.bpp ≤ (n * g.bpp : ℕ) := by
    rw [add_sub_cancel_left, Nat.cast_mul, ← add_one_mul]
    exact mul_le_mul_of_nonneg_right hn hk
  unfold pixel
  rw [cell_store_run hst (load_length hxs) hpos hend, load_load hxs hoff hlast, cell]
  congr 1
  ring

/-- The rest of the panel is as before. -/
theorem pixel_off_run {p' : ℤ × ℤ} (hlen : xs.length = n * g.bpp)
    (hst : Mem.store dst (p.2 * (g.panelW * g.bpp) + p.1 * g.bpp) xs = some dst')
    (hp0 : 0 ≤ p.1) (hpn : p.1 + n ≤ g.panelW) (hp' : p' ∈ g.panel)
    (hne : ¬InRun p n p') :
    pixel dst' g.panelW g.bpp p' = pixel dst g.panelW g.bpp p' := by
  have hk : (0 : ℤ) ≤ g.bpp := Int.natCast_nonneg _
  obtain ⟨h0, h1, -, -⟩ := Rect.mem_full.mp hp'
  exact cell_store_other hst hlen hp0 (mul_le_mul_of_nonneg_right hpn hk) h0
    (mul_le_mul_of_nonneg_right h1 hk) hne

/-- A position of the run is the image of the run's pixel. -/
theorem InRun.eq_rotate {p' : ℤ × ℤ}
    (hrun : ∀ i : ℤ, 0 ≤ i → i < n → rotate g o (q.1 + i, q.2) = (p.1 + i, p.2))
    (h : InRun p n p') : p' = rotate g o (q.1 + (p'.1 - p.1), q.2) := by
  obtain ⟨hrow, hleft, hright⟩ := h
  rw [hrun _ (sub_nonneg.mpr hleft) (sub_lt_iff_lt_add'.mpr hright), ← hrow,
    add_sub_cancel]

theorem InRun.rotate {q' : ℤ × ℤ}
    (hrun : ∀ i : ℤ, 0 ≤ i → i < n → rotate g o (q.1 + i, q.2) = (p.1 + i, p.2))
    (h : InRun q n q') : InRun p n (Screen.rotate g o q') := by
  obtain ⟨hrow, hleft, hright⟩ := h
  have hq : q' = (q.1 + (q'.1 - q.1), q.2) := by
    rw [add_sub_cancel, ← hrow]
  have hi := sub_nonneg.mpr hleft
  have hin := sub_lt_iff_lt_add'.mpr hright
  rw [hq, hrun _ hi hin]
  exact ⟨rfl, le_add_of_nonneg_right hi, (add_lt_add_iff_left _).mpr hin⟩

/-- The store of `n` source pixels of one row, where the orientation puts
them side by side from panel position `p` on. -/
theorem Painted.store (h : Painted g o src dst₀ S dst)
    (hrun : ∀ i : ℤ, 0 ≤ i → i < n → Screen.rotate g o (q.1 + i, q.2) = (p.1 + i, p.2))
    (hp0 : 0 ≤ p.1) (hpn : p.1 + n ≤ g.panelW)
    (hxs : load src (q.2 * (g.srcW * g.bpp) + q.1 * g.bpp) (n * g.bpp) = some xs)
    (hst : Mem.store dst (p.2 * (g.panelW * g.bpp) + p.1 * g.bpp) xs = some dst') :
    Painted g o src dst₀ (fun q' => S q' ∨ InRun q n q') dst' := by
  refine ⟨(store_length hst).trans h.length, ?_, ?_⟩
  · intro q' hq' hp'
    by_cases hr : InRun p n (Screen.rotate g o q')
    -- the position of `q'` is written, so `q'` is the pixel stored there
    · have he : q' = _ := rotate_injective g o (hr.eq_rotate hrun)
      have hv := pixel_of_inRun hxs hst (sub_nonneg.mpr hr.2.1)
        (sub_lt_iff_lt_add'.mpr hr.2.2)
      rwa [← he, add_sub_cancel, ← hr.1] at hv
    · rw [pixel_off_run (load_length hxs) hst hp0 hpn hp' hr]
      rcases hq' with hq' | hq'
      · exact h.shown q' hq' hp'
      · exact absurd (hq'.rotate hrun) hr
  · intro p' hp' hne
    -- a position of the run is the image of a pixel that counts as copied
    have hr : ¬InRun p n p' := by
      intro hr
      refine hne (q.1 + (p'.1 - p.1), q.2) (Or.inr ⟨rfl, ?_, ?_⟩) (hr.eq_rotate hrun).symm
      · exact le_add_of_nonneg_right (sub_nonneg.mpr hr.2.1)
      · exact (add_lt_add_iff_left _).mpr (sub_lt_iff_lt_add'.mpr hr.2.2)
    rw [pixel_off_run (load_length hxs) hst hp0 hpn hp' hr]
    exact h.kept p' hp' fun q' hq' => hne q' (Or.inl hq')

/-- One `memcpy` of `n` source pixels of a row that lie in both pictures. -/
theorem Painted.memcpy (h : Painted g o src dst₀ S dst) (hfit : Fits g src dst₀)
    (hrun : ∀ i : ℤ, 0 ≤ i → i < n → Screen.rotate g o (q.1 + i, q.2) = (p.1 + i, p.2))
    (hq0 : 0 ≤ q.1) (hqn : q.1 + n ≤ g.srcW) (hq1 : 0 ≤ q.2) (hqh : q.2 < g.srcH)
    (hp0 : 0 ≤ p.1) (hpn : p.1 + n ≤ g.panelW) (hp1 : 0 ≤ p.2) (hph : p.2 < g.panelH) :
    ∃ dst', Mem.memcpy dst ((p.2 * g.panelW + p.1) * g.bpp) src
        ((q.2 * g.srcW + q.1) * g.bpp) (n * g.bpp) = some dst' ∧
      Painted g o src dst₀ (fun q' => S q' ∨ InRun q n q') dst' := by
  have hdst : (dst.length : ℤ) = g.panelW * g.bpp * g.panelH := by
    rw [h.length]
    exact hfit.dst_length
  have hs := run_isSome (k := g.bpp) hfit.src_length le_rfl hq0 hqn hq1 hqh
  have hd := run_isSome (k := g.bpp) hdst le_rfl hp0 hpn hp1 hph
  have es : (q.2 * g.srcW + q.1) * (g.bpp : ℤ)
      = q.2 * (g.srcW * g.bpp) + q.1 * g.bpp := by ring
  have ed : (p.2 * g.panelW + p.1) * (g.bpp : ℤ)
      = p.2 * (g.panelW * g.bpp) + p.1 * g.bpp := by ring
  rw [es, ed]
  obtain ⟨dst', hcpy⟩ := memcpy_isSome hs.1 hs.2 hd.1 hd.2
  obtain ⟨xs, hxs, hst⟩ := memcpy_eq_some.mp hcpy
  exact ⟨dst', hcpy, h.store hrun hp0 hpn hxs hst⟩

end Run

theorem inRun_one {p p' : ℤ × ℤ} : InRun p 1 p' ↔ p' = p := by
  rw [Prod.ext_iff, InRun, Nat.cast_one, Int.lt_add_one_iff, and_comm (a := p'.1 = p.1),
    ← le_antisymm_iff, eq_comm (a := p.1)]

/-- One call of `put` for a source pixel. -/
theorem Painted.put {q : ℤ × ℤ} (h : Painted g o src dst₀ S dst)
    (hfit : Fits g src dst₀) (hq : q ∈ g.source) :
    ∃ dst', put g src (rotate g o q).1 (rotate g o q).2
        ((q.2 * g.srcW + q.1) * g.bpp) dst = some dst' ∧
      Painted g o src dst₀ (fun q' => S q' ∨ q' = q) dst' := by
  unfold Screen.put
  split_ifs with hcol hrow
  · refine ⟨dst, rfl, h.skip fun hp => ?_⟩
    obtain ⟨h0, h1, -, -⟩ := Rect.mem_full.mp hp
    rcases hcol with hneg | hbig
    · exact absurd h0 hneg.not_ge
    · exact absurd h1 hbig.not_gt
  · refine ⟨dst, rfl, h.skip fun hp => ?_⟩
    obtain ⟨-, -, h0, h1⟩ := Rect.mem_full.mp hp
    rcases hrow with hneg | hbig
    · exact absurd h0 hneg.not_ge
    · exact absurd h1 hbig.not_gt
  · push Not at hcol hrow
    obtain ⟨hx0, hx1, hy0, hy1⟩ := Rect.mem_full.mp hq
    have hrun : ∀ i : ℤ, 0 ≤ i → i < (1 : ℕ) →
        rotate g o (q.1 + i, q.2) = ((rotate g o q).1 + i, (rotate g o q).2) := by
      intro i h0 h1
      obtain rfl : i = 0 := le_antisymm (Int.lt_add_one_iff.mp h1) h0
      rw [add_zero, add_zero]
    obtain ⟨dst', hcpy, hP⟩ := h.memcpy hfit hrun hx0 hx1 hy0 hy1 hcol.1 hcol.2 hrow.1 hrow.2
    rw [one_mul] at hcpy
    exact ⟨dst', hcpy, hP.congr fun q' => or_congr_right inRun_one⟩

/-- The double loop paints the clipped rectangle. -/
theorem putPixels_painted {c : Rect} {f : ℤ → ℤ → ℤ × ℤ}
    (hdest : ∀ col row, f col row = rotate g o (col, row))
    (hfit : Fits g src dst₀) (hc : ∀ q ∈ c, q ∈ g.source) :
    ∃ dst', putPixels g src f c dst₀ = some dst' ∧
      Painted g o src dst₀ (· ∈ c) dst' := by
  apply Rect.scan_inv (Painted g o src dst₀)
  · intro S S' dst hS h
    exact h.congr hS
  · exact Painted.start g o src dst₀
  · intro S dst q hq hS h
    rw [hdest]
    exact h.put hfit (hc q hq)

/-- The row copy paints a rectangle that lies in both pictures. -/
theorem copyRows_painted {c : Rect} (hid : ∀ q, rotate g o q = q)
    (hfit : Fits g src dst₀) (hc : c.Inside g.srcW g.srcH)
    (hc' : c.Inside g.panelW g.panelH) :
    ∃ dst', copyRows g src c dst₀ = some dst' ∧
      Painted g o src dst₀ (· ∈ c) dst' := by
  have hw := hc.w_nonneg
  have hh := hc.h_nonneg
  let Rows (y : ℕ) (q : ℤ × ℤ) : Prop :=
    c.x ≤ q.1 ∧ q.1 < c.x + c.w ∧ c.y ≤ q.2 ∧ q.2 < c.y + y
  obtain ⟨dst', hrun, hI⟩ := forUpTo_inv (n := c.h.toNat)
    (f := fun y dst => memcpy dst (((c.y + y) * g.panelW + c.x) * g.bpp)
      src (((c.y + y) * g.srcW + c.x) * g.bpp) (c.w.toNat * g.bpp))
    (s := dst₀) (fun y dst => Painted g o src dst₀ (Rows y) dst)
    ((Painted.start g o src dst₀).congr fun q => by
      constructor
      · exact False.elim
      · rintro ⟨-, -, h1, h2⟩
        push_cast at h2
        omega)
    (by
      intro y dst hy hI
      have hyc : c.y + y < c.y + c.h :=
        (add_lt_add_iff_left _).mpr (Int.lt_toNat.mp hy)
      have hy0 : 0 ≤ c.y + y := add_nonneg hc.y_nonneg (Int.natCast_nonneg _)
      have hwn : (c.w.toNat : ℤ) = c.w := Int.toNat_of_nonneg hw
      obtain ⟨dst', hcpy, hP⟩ := hI.memcpy (n := c.w.toNat) (q := (c.x, c.y + y))
        (p := (c.x, c.y + y)) hfit (fun i _ _ => hid _)
        hc.x_nonneg (hwn ▸ hc.right) hy0 (hyc.trans_le hc.bottom)
        hc'.x_nonneg (hwn ▸ hc'.right) hy0 (hyc.trans_le hc'.bottom)
      refine ⟨dst', hcpy, hP.congr fun q => ?_⟩
      simp only [Rows, InRun]
      push_cast
      omega)
  refine ⟨dst', hrun, hI.congr fun q => ?_⟩
  simp only [Rows, Rect.mem_iff]
  omega

end Copy

/-- The clamped panel rectangle holds the panel points of the unclamped
one. -/
theorem mem_clampToPanel {g : Geometry} {d : Rect} {p : ℤ × ℤ} :
    p ∈ clampToPanel g d ↔ p ∈ d ∧ p ∈ g.panel := by
  rw [← Rect.mem_clamp]
  simp only [clampToPanel, Rect.mem_iff]
  split_ifs <;> omega

/-- What one blit of the rectangle `s` leaves behind: the panel `dst` and the
announced rectangle `d`. -/
structure Blitted (g : Geometry) (o : Orientation) (src dst₀ : List UInt8)
    (s : Rect) (dst : List UInt8) (d : Rect) : Prop where
  painted : Painted g o src dst₀ (fun q => q ∈ s ∧ q ∈ g.source) dst
  /-- The announced rectangle is the image of the copied pixels. -/
  announced : ∀ p, p ∈ d ↔
    p ∈ g.panel ∧ ∃ q, (q ∈ s ∧ q ∈ g.source) ∧ rotate g o q = p

section Spec

variable {g : Geometry} {o : Orientation} {src dst₀ : List UInt8} {s : Rect}

/-- Nothing of the rectangle lands on the panel: the code copies nothing. -/
theorem Blitted.nothing
    (h : ∀ q, q ∈ s ∧ q ∈ g.source → rotate g o q ∉ g.panel) :
    Blitted g o src dst₀ s dst₀ ⟨0, 0, 0, 0⟩ where
  painted := ⟨rfl, fun q hq hp => absurd hp (h q hq), fun _ _ _ => rfl⟩
  announced := fun p => by
    constructor
    · intro hp
      simp only [Rect.mem_iff] at hp
      omega
    · rintro ⟨hp, q, hq, rfl⟩
      exact absurd hp (h q hq)

/-- A rotated branch: `d` is the unclamped image of the clipped rectangle
`c`. -/
theorem Blitted.of_putPixels {c d : Rect} {f : ℤ → ℤ → ℤ × ℤ}
    (hdest : ∀ col row, f col row = rotate g o (col, row))
    (hfit : Fits g src dst₀) (hc : c = s.clamp g.srcW g.srcH)
    (hw : 0 < c.w) (hh : 0 < c.h)
    (hd : ∀ p, p ∈ d ↔ transformInput g o p ∈ c) :
    ∃ dst, putPixels g src f c dst₀ = some dst ∧
      Blitted g o src dst₀ s dst (clampToPanel g d) := by
  have hmem : ∀ q, q ∈ c ↔ q ∈ s ∧ q ∈ g.source := by
    rw [hc]
    exact fun q => Rect.mem_clamp
  have hsize : 0 < g.srcW ∧ 0 < g.srcH := by
    have hx := Rect.clampAxis_fst_nonneg s.x s.w g.srcW
    have hy := Rect.clampAxis_fst_nonneg s.y s.h g.srcH
    have hxw := Rect.clampAxis_le s.x s.w g.srcW
    have hyh := Rect.clampAxis_le s.y s.h g.srcH
    simp only [hc, Rect.clamp] at hw hh
    omega
  obtain ⟨dst, hrun, hP⟩ := putPixels_painted hdest hfit
    fun q hq => ((hmem q).mp hq).2
  refine ⟨dst, hrun, hP.congr hmem, fun p => ?_⟩
  rw [mem_clampToPanel, hd, and_comm]
  refine and_congr_right fun _ => ⟨fun h => ?_, ?_⟩
  · exact ⟨_, (hmem _).mp h, (transformInput_eq_iff hsize.1 hsize.2).mp rfl⟩
  · rintro ⟨q, hq, he⟩
    rw [(transformInput_eq_iff hsize.1 hsize.2).mpr he]
    exact (hmem q).mpr hq

/-- An identity branch: the rows of the clipped rectangle that are on the
panel. -/
theorem Blitted.of_copyRows {c : Rect} (hid : ∀ q, rotate g o q = q)
    (hfit : Fits g src dst₀) (hmem : ∀ q, q ∈ c ↔ q ∈ s ∧ q ∈ g.source)
    (hcx : 0 ≤ c.x) (hcy : 0 ≤ c.y) (hcw : c.x + c.w ≤ g.srcW) (hch : c.y + c.h ≤ g.srcH) :
    ∃ dst d, (if min c.w (g.panelW - c.x) ≤ 0 ∨ min c.h (g.panelH - c.y) ≤ 0 then
          some (dst₀, (⟨0, 0, 0, 0⟩ : Rect))
        else do
          let dst ← copyRows g src ⟨c.x, c.y, min c.w (g.panelW - c.x),
            min c.h (g.panelH - c.y)⟩ dst₀
          return (dst, clampToPanel g ⟨c.x, c.y, min c.w (g.panelW - c.x),
            min c.h (g.panelH - c.y)⟩)) = some (dst, d) ∧
      Blitted g o src dst₀ s dst d := by
  by_cases hcrop : min c.w (g.panelW - c.x) ≤ 0 ∨ min c.h (g.panelH - c.y) ≤ 0
  · refine ⟨dst₀, ⟨0, 0, 0, 0⟩, if_pos hcrop, ?_⟩
    apply Blitted.nothing
    intro q hq hp
    rw [hid, Rect.mem_full] at hp
    have hqc := (hmem q).mpr hq
    rw [Rect.mem_iff] at hqc
    omega
  · generalize hr : (⟨c.x, c.y, min c.w (g.panelW - c.x),
      min c.h (g.panelH - c.y)⟩ : Rect) = r
    have hin : ∀ q, q ∈ r ↔ q ∈ c ∧ q ∈ g.panel := by
      intro q
      rw [Rect.mem_full, ← hr]
      simp only [Rect.mem_iff]
      omega
    obtain ⟨dst, hrun, hP⟩ := copyRows_painted (c := r) hid hfit
      (by rw [← hr]; constructor <;> simp only <;> omega)
      (by rw [← hr]; constructor <;> simp only <;> omega)
    refine ⟨dst, _, by rw [if_neg hcrop, hrun]; rfl, ?_, fun p => ?_⟩
    · refine ⟨hP.length, fun q hq hp => hP.shown q ?_ hp,
        fun p hp hne => hP.kept p hp fun q hq => hne q ?_⟩
      · rw [hid] at hp
        exact (hin q).mpr ⟨(hmem q).mpr hq, hp⟩
      · exact (hmem q).mp ((hin q).mp hq).1
    · rw [mem_clampToPanel, hin]
      constructor
      · rintro ⟨⟨h1, -⟩, h2⟩
        exact ⟨h2, p, (hmem p).mp h1, hid p⟩
      · rintro ⟨h2, q, hq, rfl⟩
        rw [hid] at h2 ⊢
        exact ⟨⟨(hmem q).mpr hq, h2⟩, h2⟩

/-- Where a rectangle of the source lands, before it is clamped to the panel. -/
def turnedRect (g : Geometry) (o : Orientation) (c : Rect) : Rect :=
  match o with
  | .Portrait | .Auto => c
  | .InvertedPortrait => ⟨g.srcW - c.x - c.w, g.srcH - c.y - c.h, c.w, c.h⟩
  | .LandscapeCW => ⟨g.srcH - c.y - c.h, c.x, c.h, c.w⟩
  | .LandscapeCCW => ⟨c.y, g.srcW - c.x - c.w, c.h, c.w⟩

theorem mem_turnedRect (hw : 0 < g.srcW) (hh : 0 < g.srcH) (c : Rect) (p : ℤ × ℤ) :
    p ∈ turnedRect g o c ↔ transformInput g o p ∈ c := by
  obtain ⟨a, b⟩ := p
  unfold transformInput
  rw [if_neg (not_or.mpr ⟨hw.not_ge, hh.not_ge⟩)]
  cases o <;> simp only [turnedRect, Rect.mem_iff] <;> omega

/-- **`blit_rotated` computes the rotated copy**, in bounds, for every
rectangle. -/
theorem blitRotated_spec (hfit : Fits g src dst₀) :
    ∃ dst d, blitRotated g o src dst₀ s = some (dst, d) ∧
      Blitted g o src dst₀ s dst d := by
  have hmem : ∀ q, q ∈ s.clamp g.srcW g.srcH ↔ q ∈ s ∧ q ∈ g.source :=
    fun q => Rect.mem_clamp
  have hx := Rect.clampAxis_fst_nonneg s.x s.w g.srcW
  have hy := Rect.clampAxis_fst_nonneg s.y s.h g.srcH
  have hxw := Rect.clampAxis_le s.x s.w g.srcW
  have hyh := Rect.clampAxis_le s.y s.h g.srcH
  unfold blitRotated
  generalize hc : s.clamp g.srcW g.srcH = c at hmem ⊢
  have hcx : 0 ≤ c.x ∧ 0 ≤ c.y ∧ c.x + c.w ≤ g.srcW ∧ c.y + c.h ≤ g.srcH := by
    rw [← hc]
    exact ⟨hx, hy, hxw, hyh⟩
  obtain ⟨hcx, hcy, hcw, hch⟩ := hcx
  by_cases hemp : c.w ≤ 0 ∨ c.h ≤ 0
  · refine ⟨dst₀, ⟨0, 0, 0, 0⟩, by simp only [if_pos hemp], ?_⟩
    apply Blitted.nothing
    intro q hq _
    have hqc := (hmem q).mpr hq
    rw [Rect.mem_iff] at hqc
    omega
  simp only [if_neg hemp]
  obtain ⟨hw, hh⟩ := not_or.mp hemp
  rw [not_le] at hw hh
  have hmemd := fun o => mem_turnedRect (o := o)
    (hw.trans_le (le_of_add_le_of_nonneg_right hcw hcx))
    (hh.trans_le (le_of_add_le_of_nonneg_right hch hcy)) c
  cases o with
  | Portrait => exact Blitted.of_copyRows (fun q => rfl) hfit hmem hcx hcy hcw hch
  | Auto => exact Blitted.of_copyRows (fun q => rfl) hfit hmem hcx hcy hcw hch
  | InvertedPortrait =>
      obtain ⟨dst, hrun, hB⟩ := Blitted.of_putPixels (o := .InvertedPortrait)
        (f := fun col row => (g.srcW - 1 - col, g.srcH - 1 - row))
        (fun col row => rfl) hfit hc.symm hw hh (hmemd _)
      exact ⟨dst, _, by rw [hrun]; rfl, hB⟩
  | LandscapeCW =>
      obtain ⟨dst, hrun, hB⟩ := Blitted.of_putPixels (o := .LandscapeCW)
        (f := fun col row => (g.srcH - 1 - row, col))
        (fun col row => rfl) hfit hc.symm hw hh (hmemd _)
      exact ⟨dst, _, by rw [hrun]; rfl, hB⟩
  | LandscapeCCW =>
      obtain ⟨dst, hrun, hB⟩ := Blitted.of_putPixels (o := .LandscapeCCW)
        (f := fun col row => (row, g.srcW - 1 - col))
        (fun col row => rfl) hfit hc.symm hw hh (hmemd _)
      exact ⟨dst, _, by rw [hrun]; rfl, hB⟩

end Spec

end Rmcast.Screen
