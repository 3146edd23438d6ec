import Rmcast.Screen.Input
import Rmcast.Screen.Trace

/-!
# The blit is exact

`blit_rotated` clips the rectangle it is given to the source, copies what is
left pixel by pixel or row by row, and computes the rectangle it hands back on
its own. The two agree: what is handed back is the image of what is copied,
cut off at the borders of the panel, and it is empty exactly when the call
writes nothing, whatever the two pictures hold.
-/

namespace Rmcast.Screen

open Mem

/-! ## §1  Writing nothing -/

theorem load_replicate {α : Type*} {v : α} {m n : ℕ} {off : ℤ} {xs : List α}
    (h : load (List.replicate m v) off n = some xs) : xs = List.replicate n v := by
  refine List.eq_replicate_iff.mpr ⟨load_length h, ?_⟩
  obtain ⟨-, rfl⟩ := load_eq_some.mp h
  intro x hx
  exact List.eq_of_mem_replicate (List.mem_of_mem_drop (List.mem_of_mem_take hx))

/-- The call leaves every panel of the right size as it is. -/
def WritesNothing (g : Geometry) (o : Orientation) (s : Rect) : Prop :=
  ∀ src dst, Fits g src dst → ∃ d, blitRotated g o src dst s = some (dst, d)

section Exact

variable {g : Geometry} {o : Orientation} {src dst₀ dst : List UInt8} {s d : Rect}

/-- Two pictures of one value each have the sizes of given ones. -/
theorem Fits.replicate (h : Fits g src dst₀) (v v' : UInt8) :
    Fits g (List.replicate src.length v) (List.replicate dst₀.length v') := by
  refine ⟨?_, ?_⟩
  · rw [List.length_replicate]
    exact h.src_length
  · rw [List.length_replicate]
    exact h.dst_length

/-- A call that reaches a panel pixel shows there. -/
theorem not_writesNothing (hbpp : 0 < g.bpp) (hfit : Fits g src dst₀) {q : ℤ × ℤ}
    (hs : q ∈ s) (hq : q ∈ g.source) (hp : rotate g o q ∈ g.panel) :
    ¬ WritesNothing g o s := by
  intro h
  have hfit' := hfit.replicate 0 1
  obtain ⟨d, hd⟩ := h _ _ hfit'
  obtain ⟨dst, d', hblit, hB⟩ := blitRotated_spec (o := o) (s := s) hfit'
  cases hd.symm.trans hblit
  have hshown := hB.painted.shown q ⟨hs, hq⟩ hp
  obtain ⟨px, hpx⟩ := hfit'.pixel_isSome hq
  rw [hpx] at hshown
  -- the pixel is all ones, and all zeros
  have hzero := load_replicate hpx
  rw [hzero] at hshown
  have hone := load_replicate hshown
  rw [List.replicate_inj] at hone
  rcases hone.2 with h0 | h0
  · exact absurd h0 hbpp.ne'
  · exact absurd h0 (by decide)

theorem Blitted.image_iff (h : Blitted g o src dst₀ s dst d) (p : ℤ × ℤ) :
    p ∈ d ↔ p ∈ g.panel ∧ ∃ q ∈ s, q ∈ g.source ∧ rotate g o q = p := by
  rw [h.announced]
  refine and_congr_right fun _ => exists_congr fun q => ?_
  rw [and_assoc]

/-- The rectangle is empty if nothing of the source reaches the panel. -/
theorem Blitted.empty_iff (h : Blitted g o src dst₀ s dst d) :
    d.w ≤ 0 ∨ d.h ≤ 0 ↔ ∀ q ∈ s, q ∈ g.source → rotate g o q ∉ g.panel := by
  constructor
  · intro hempty q hs hq hp
    obtain ⟨hx, hx', hy, hy'⟩ := (h.image_iff _).mpr ⟨hp, q, hs, hq, rfl⟩
    rcases hempty with hw | hh
    · exact absurd (hx.trans_lt hx') (by omega)
    · exact absurd (hy.trans_lt hy') (by omega)
  · intro hnone
    by_contra hne
    obtain ⟨hw, hh⟩ := not_or.mp hne
    have hmem : (d.x, d.y) ∈ d :=
      ⟨le_refl _, lt_add_of_pos_right _ (not_le.mp hw), le_refl _,
        lt_add_of_pos_right _ (not_le.mp hh)⟩
    obtain ⟨hp, q, hs, hq, he⟩ := (h.image_iff _).mp hmem
    exact hnone q hs hq (he ▸ hp)

/-- Where nothing of the source goes to the panel, the panel stays. -/
theorem writesNothing_of_off (hw : 0 ≤ g.panelW)
    (h : ∀ q ∈ s, q ∈ g.source → rotate g o q ∉ g.panel) : WritesNothing g o s := by
  intro src dst₀ hfit
  obtain ⟨dst, d, hblit, hB⟩ := blitRotated_spec (o := o) (s := s) hfit
  have hsame : dst₀ = dst := by
    refine ext_cell hw hfit.dst_length hB.painted.length fun x y hx hx' hy hy' => ?_
    have hp : (x, y) ∈ g.panel := Rect.mem_full.mpr ⟨hx, hx', hy, hy'⟩
    refine (hB.painted.kept (x, y) hp fun q hq he => ?_).symm
    exact h q hq.1 hq.2 (he ▸ hp)
  rw [hsame] at hblit ⊢
  exact ⟨d, hblit⟩

/-! ## §2  The blit -/

/-- What a call with the rectangle `s` does to the panel `dst₀`, and what it
hands back. -/
structure Exact (g : Geometry) (o : Orientation) (src dst₀ : List UInt8) (s : Rect)
    (dst : List UInt8) (d : Rect) : Prop where
  length : dst.length = dst₀.length
  /-- The rotated positions on the panel hold the source pixels. -/
  shown : ∀ q ∈ s, q ∈ g.source → rotate g o q ∈ g.panel →
    ∃ px, pixel src g.srcW g.bpp q = some px ∧
      pixel dst g.panelW g.bpp (rotate g o q) = some px
  kept : ∀ p ∈ g.panel, (∀ q ∈ s, q ∈ g.source → rotate g o q ≠ p) →
    pixel dst g.panelW g.bpp p = pixel dst₀ g.panelW g.bpp p
  /-- The rectangle is the rotated clipped one, cut off at the panel. -/
  image : ∀ p, p ∈ d ↔ p ∈ g.panel ∧ ∃ q ∈ s, q ∈ g.source ∧ rotate g o q = p
  empty : d.w ≤ 0 ∨ d.h ≤ 0 ↔ WritesNothing g o s

/-- **`blit_rotated` is exact**, and all its accesses are in bounds. -/
theorem blitRotated_exact (g : Geometry) (o : Orientation) (src dst₀ : List UInt8)
    (hw : 1 ≤ g.panelW) (hbpp : 0 < g.bpp) (hfit : Fits g src dst₀) (s : Rect) :
    ∃ dst d, blitRotated g o src dst₀ s = some (dst, d) ∧
      Exact g o src dst₀ s dst d := by
  obtain ⟨dst, d, hblit, hB⟩ := blitRotated_spec (o := o) (s := s) hfit
  refine ⟨dst, d, hblit, hB.painted.length, ?_, ?_, hB.image_iff, ?_⟩
  · intro q hs hq hp
    obtain ⟨px, hpx⟩ := hfit.pixel_isSome hq
    exact ⟨px, hpx, (hB.painted.shown q ⟨hs, hq⟩ hp).trans hpx⟩
  · intro p hp hne
    exact hB.painted.kept p hp fun q hq => hne q hq.1 hq.2
  · rw [hB.empty_iff]
    constructor
    · exact writesNothing_of_off (zero_le_one.trans hw)
    · intro h q hs hq hp
      exact not_writesNothing hbpp hfit hs hq hp h

end Exact

/-- A rectangle that reaches out of a 3×2 source, turned onto a panel of 2×2
pixels. -/
theorem blitRotated_exact_cropped :
    ∃ dst d, blitRotated ⟨3, 2, 2, 2, 1⟩ .LandscapeCW [1, 2, 3, 4, 5, 6] [0, 0, 0, 0]
        ⟨-1, 0, 3, 9⟩ = some (dst, d) ∧
      Exact ⟨3, 2, 2, 2, 1⟩ .LandscapeCW [1, 2, 3, 4, 5, 6] [0, 0, 0, 0] ⟨-1, 0, 3, 9⟩ dst d :=
  blitRotated_exact ⟨3, 2, 2, 2, 1⟩ .LandscapeCW [1, 2, 3, 4, 5, 6] [0, 0, 0, 0]
    (by decide) (by decide) ⟨by decide, by decide⟩ ⟨-1, 0, 3, 9⟩

end Rmcast.Screen
