import Rmcast.Rfb.MonoPixels

/-!
# The mono encodings on hostile input

Nothing is assumed of the payload here. The two cursors of the run-length loop
never leave the blocks they index (`Bounded`), whatever the control bytes say,
and a rectangle takes its announced number of bytes from the connection, so
that the next header is read where it begins.
-/

namespace Rmcast.Rfb

open Mem Loop Word

/-! ## §1  The cursors -/

/-- The states in which the loop tests its condition. -/
inductive Reaches (compbuf buf : List UInt8) : Rle → Prop where
  | start : Reaches compbuf buf ⟨0, 0, buf⟩
  | again {s t : Rle} : Reaches compbuf buf s →
      rleStep compbuf buf.length s = some (.again t) → Reaches compbuf buf t

/-- The cursors are inside the blocks, and `all_packed` keeps its size. -/
structure Bounded (compbuf : List UInt8) (totalPacked : ℕ) (s : Rle) : Prop where
  inPos : s.inPos ≤ compbuf.length
  outPos : s.outPos ≤ totalPacked
  length : s.allPacked.length = totalPacked

/-- The state after an iteration. -/
def after : Next Rle → Rle
  | .again t => t
  | .leave t => t

section Loop

variable {compbuf buf : List UInt8} {s t : Rle}

theorem Decoding.bounded {out : List UInt8} (h : Decoding compbuf buf s out) :
    Bounded compbuf buf.length s := by
  refine ⟨h.inPos, ?_, ?_⟩
  · rw [h.outPos]
    exact h.fits
  · rw [h.packed]
    exact overlay_length out buf

/-- Every state of the loop has decoded a part of the code. -/
theorem Reaches.decoding (h : Reaches compbuf buf s) :
    ∃ out, Decoding compbuf buf s out := by
  induction h with
  | start => exact ⟨[], rfl, Nat.zero_le _, (overlay_nil buf).symm, Nat.zero_le _, rfl⟩
  | again _ hstep ih =>
      obtain ⟨out, hD⟩ := ih
      rcases hD.step with ⟨t', ht', hD', -⟩ | ⟨t', ht', -⟩
      · cases hstep.symm.trans ht'
        exact hD'
      · cases hstep.symm.trans ht'

/-- The loop is left where it stands, or after the control byte of a run
without its value. -/
theorem rleStep_leave {totalPacked : ℕ} (h : rleStep compbuf totalPacked s = some (.leave t)) :
    t = s ∨ s.inPos < compbuf.length ∧ t = { s with inPos := s.inPos + 1 } := by
  unfold rleStep at h
  split at h
  · next hc =>
      refine Or.inr ⟨hc.1, ?_⟩
      obtain ⟨ctrl, -, h⟩ := Option.bind_eq_some_iff.mp h
      dsimp only at h
      split at h
      · split at h
        · cases h
          rfl
        · obtain ⟨val, -, h⟩ := Option.bind_eq_some_iff.mp h
          obtain ⟨packed, -, h⟩ := Option.bind_eq_some_iff.mp h
          cases h
      · obtain ⟨packed, -, h⟩ := Option.bind_eq_some_iff.mp h
        cases h
  · cases h
    exact Or.inl rfl

theorem Bounded.leave (h : Bounded compbuf buf.length s)
    (hstep : rleStep compbuf buf.length s = some (.leave t)) :
    Bounded compbuf buf.length t := by
  rcases rleStep_leave hstep with rfl | ⟨hlt, rfl⟩
  · exact h
  · exact ⟨hlt, h.outPos, h.length⟩

/-- An iteration makes its accesses in bounds and keeps the cursors there. -/
theorem Reaches.step (h : Reaches compbuf buf s) :
    ∃ next, rleStep compbuf buf.length s = some next ∧
      Bounded compbuf buf.length (after next) := by
  obtain ⟨out, hD⟩ := h.decoding
  rcases hD.step with ⟨t, ht, ⟨out', hD'⟩, -⟩ | ⟨t, ht, -⟩
  · exact ⟨.again t, ht, hD'.bounded⟩
  · exact ⟨.leave t, ht, hD.bounded.leave ht⟩

end Loop

/-! ## §2  The rectangle in the stream -/

/-- The rectangle takes `n` bytes of the input, and all its accesses are in
bounds. -/
def Consumes (heap : Heap) (r : Rectangle) (bpp : ℕ) (encoding : Mono) (n : ℕ)
    (input : List UInt8) : Prop :=
  n ≤ input.length ∧
    ∃ calls, handleMono heap r bpp encoding input = some (.bitmaps calls (input.drop n))

theorem consumes_of_payload (heap : Heap) (bpp : ℕ) {r : Rectangle} {encoding : Mono}
    {taken out rest : List UInt8} (h : payload r encoding (taken ++ rest) = some (out, rest)) :
    Consumes heap r bpp encoding taken.length (taken ++ rest) := by
  refine ⟨?_, rowCalls r bpp (overlay out (malloc heap.allPacked (totalPacked r)))
    r.h.toNat, ?_⟩
  · rw [List.length_append]
    exact Nat.le_add_right _ _
  · rw [handleMono_spec, h, List.drop_left' rfl]

/-- **The decoder is safe and stays in step** on every payload: the loop ends,
every access is in bounds, the cursors are inside the blocks throughout, and
the rectangle takes its announced bytes. -/
theorem mono_in_step (heap : Heap) (r : Rectangle) (bpp : ℕ) (threshold : UInt8)
    (compLen : UInt32) (compbuf packed rest : List UInt8)
    (hcomp : compbuf.length = compLen.toNat) (hpacked : packed.length = totalPacked r) :
    Consumes heap r bpp .rcastmono1z (5 + compLen.toNat)
        (threshold :: (be32 compLen ++ (compbuf ++ rest))) ∧
      Consumes heap r bpp .rcastmono1 (1 + totalPacked r) (threshold :: (packed ++ rest)) ∧
      (∃ s, repeatUntil (rleStep compbuf (totalPacked r)) (compLen.toNat + 1)
        ⟨0, 0, malloc heap.allPacked (totalPacked r)⟩ = some s) ∧
      ∀ s, Reaches compbuf (malloc heap.allPacked (totalPacked r)) s →
        Bounded compbuf (totalPacked r) s ∧
        ∃ next, rleStep compbuf (totalPacked r) s = some next ∧
          Bounded compbuf (totalPacked r) (after next) := by
  have hbuf := malloc_length heap.allPacked (totalPacked r)
  refine ⟨?_, ?_, ?_, ?_⟩
  · have hpay : payload r .rcastmono1z ((threshold :: (be32 compLen ++ compbuf)) ++ rest)
        = some (_, rest) :=
      payload_rcastmono1z_iff.mpr ⟨compbuf, ⟨threshold, compLen, hcomp, by
        rw [List.cons_append, List.append_assoc]⟩, rfl⟩
    have hlen : (threshold :: (be32 compLen ++ compbuf)).length = 5 + compLen.toNat := by
      rw [List.length_cons, List.length_append, hcomp, be32, List.length_reverse, le32_length]
      ring
    have h := consumes_of_payload heap bpp hpay
    rw [hlen, List.cons_append, List.append_assoc] at h
    exact h
  · have hpay : payload r .rcastmono1 ((threshold :: packed) ++ rest) = some (packed, rest) :=
      payload_rcastmono1_iff.mpr ⟨threshold, hpacked, rfl⟩
    have h := consumes_of_payload heap bpp hpay
    rw [List.length_cons, hpacked, Nat.add_comm] at h
    exact h
  · obtain ⟨s, hs, -⟩ := rle_spec compbuf (malloc heap.allPacked (totalPacked r))
    rw [hbuf, hcomp] at hs
    exact ⟨s, hs⟩
  · intro s hs
    obtain ⟨out, hD⟩ := hs.decoding
    have hstep := hs.step
    have hbounded := hD.bounded
    rw [hbuf] at hstep hbounded
    exact ⟨hbounded, hstep⟩

/-- A repeat run that starts on the last byte, in a picture of 9×1 pixels. -/
theorem mono_in_step_cut :
    Consumes ⟨fun _ => 0, fun _ => 0⟩ ⟨0, 0, 9, 1⟩ 2 .rcastmono1z (5 + 1)
        (0 :: (be32 1 ++ ([0x85] ++ [7, 8]))) ∧
      Consumes ⟨fun _ => 0, fun _ => 0⟩ ⟨0, 0, 9, 1⟩ 2 .rcastmono1 (1 + 2)
        (0 :: ([0xFF, 0x80] ++ [7, 8])) := by
  have h := mono_in_step ⟨fun _ => 0, fun _ => 0⟩ ⟨0, 0, 9, 1⟩ 2 0 1 [0x85] [0xFF, 0x80]
    [7, 8] rfl rfl
  exact ⟨h.1, h.2.1⟩

end Rmcast.Rfb
