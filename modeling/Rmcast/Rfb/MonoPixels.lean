import Rmcast.Rfb.Mono

/-!
# What the mono encodings show

A `rcastmono1z` rectangle makes the calls of the `rcastmono1` rectangle with
the same packed bitmap, and the calls paint each of its pixels once, in the
color of its bit (`mono_encodings_agree`).

The run-length loop is content with a stream that stands for too few bytes,
and then the rest of the picture is what `malloc` left in the block. The
decoder's output depends on nothing but its input exactly if the stream
stands for the whole bitmap (`heap_irrelevant_iff`).
-/

namespace Rmcast.Rfb

open Mem RunLength Word

/-! ## §1  Painting -/

/-- What a call paints at `p`, the pixel's bytes in the buffer. -/
def GotBitmap.paints (bpp : ℕ) (k : GotBitmap) (p : ℕ × ℕ) :
    Option (List UInt8) :=
  if k.x ≤ p.1 ∧ p.1 < k.x + k.w ∧ k.y ≤ p.2 ∧ p.2 < k.y + k.h then
    some ((k.buffer.drop (((p.2 - k.y) * k.w + (p.1 - k.x)) * bpp)).take bpp)
  else none

/-- All that calls paint at `p`, in order. -/
def paintsAt (bpp : ℕ) (calls : List GotBitmap) (p : ℕ × ℕ) :
    List (List UInt8) :=
  calls.filterMap fun k => k.paints bpp p

/-- The pixels of a rectangle. -/
def Rectangle.Has (r : Rectangle) (p : ℕ × ℕ) : Prop :=
  r.x.toNat ≤ p.1 ∧ p.1 < r.x.toNat + r.w.toNat ∧
    r.y.toNat ≤ p.2 ∧ p.2 < r.y.toNat + r.h.toNat

instance (r : Rectangle) (p : ℕ × ℕ) : Decidable (r.Has p) :=
  inferInstanceAs (Decidable (_ ∧ _ ∧ _ ∧ _))

theorem rowPixels_pixel (r : Rectangle) (bpp : ℕ) (packed : List UInt8)
    (row : ℕ) {n col : ℕ} (hcol : col < n) :
    ((rowPixels r bpp packed row n).drop (col * bpp)).take bpp
      = color bpp (isWhite r packed row col) := by
  induction n with
  | zero => exact absurd hcol (Nat.not_lt_zero _)
  | succ n ih =>
      have hlen := rowPixels_length r bpp packed row n
      rw [rowPixels_succ]
      by_cases he : col = n
      · rw [he, List.drop_left' hlen, List.take_of_length_le
          (by rw [color_length])]
      · have hend : (col + 1) * bpp ≤ n * bpp :=
          Nat.mul_le_mul_right _ (by omega)
        rw [Nat.succ_mul] at hend
        rw [List.drop_append_of_le_length (by omega),
          List.take_append_of_le_length (by rw [List.length_drop]; omega)]
        exact ih (by omega)

theorem rowCall_paints (r : Rectangle) (bpp : ℕ) (packed : List UInt8)
    (row : ℕ) (p : ℕ × ℕ) :
    (rowCall r bpp packed row).paints bpp p
      = if r.x.toNat ≤ p.1 ∧ p.1 < r.x.toNat + r.w.toNat ∧
          p.2 = r.y.toNat + row then
          some (color bpp (isWhite r packed row (p.1 - r.x.toNat)))
        else none := by
  unfold GotBitmap.paints rowCall
  simp only
  by_cases h : r.x.toNat ≤ p.1 ∧ p.1 < r.x.toNat + r.w.toNat ∧
      p.2 = r.y.toNat + row
  · have hcol : p.1 - r.x.toNat < r.w.toNat := by omega
    have hpix := rowPixels_pixel r bpp packed row hcol
    rw [if_pos (by omega), if_pos h, h.2.2, Nat.sub_self, Nat.zero_mul,
      Nat.zero_add, hpix]
  · rw [if_neg (by omega), if_neg h]

/-- The calls of a packed bitmap paint each pixel once. -/
theorem paintsAt_rowCalls (r : Rectangle) (bpp : ℕ) (packed : List UInt8)
    (p : ℕ × ℕ) (n : ℕ) :
    paintsAt bpp (rowCalls r bpp packed n) p
      = if r.x.toNat ≤ p.1 ∧ p.1 < r.x.toNat + r.w.toNat ∧
          r.y.toNat ≤ p.2 ∧ p.2 < r.y.toNat + n then
          [color bpp (isWhite r packed (p.2 - r.y.toNat) (p.1 - r.x.toNat))]
        else [] := by
  induction n with
  | zero => rw [if_neg (by omega)]; rfl
  | succ n ih =>
      unfold paintsAt rowCalls at ih ⊢
      rw [List.range_succ, List.map_append, List.filterMap_append, ih,
        List.map_singleton, List.filterMap_cons, List.filterMap_nil,
        rowCall_paints]
      by_cases hx : r.x.toNat ≤ p.1 ∧ p.1 < r.x.toNat + r.w.toNat
      swap
      · rw [if_neg (by omega), if_neg (by omega), if_neg (by omega)]
        rfl
      by_cases hrow : p.2 = r.y.toNat + n
      · rw [if_neg (by omega), if_pos (by omega), if_pos (by omega), hrow,
          Nat.add_sub_cancel_left]
        rfl
      · rw [if_neg (c := _ ∧ _ ∧ p.2 = _) (by omega), List.append_nil]
        by_cases hold : r.y.toNat ≤ p.2 ∧ p.2 < r.y.toNat + n
        · rw [if_pos (by omega), if_pos (by omega)]
        · rw [if_neg (by omega), if_neg (by omega)]

/-! ## §2  The payload -/

/-- The input is a threshold, the length of `compbuf`, and `compbuf`. -/
def Carries (input compbuf rest : List UInt8) : Prop :=
  ∃ (threshold : UInt8) (compLen : UInt32), compbuf.length = compLen.toNat ∧
    input = threshold :: (be32 compLen ++ (compbuf ++ rest))

theorem readFromRFBServer_append {n : ℕ} {b : List UInt8} (hb : b.length = n)
    (rest : List UInt8) : readFromRFBServer n (b ++ rest) = some (b, rest) := by
  unfold readFromRFBServer
  rw [if_pos (by rw [List.length_append]; omega), List.take_left' hb,
    List.drop_left' hb]

theorem readFromRFBServer_cons (b : UInt8) (rest : List UInt8) :
    readFromRFBServer 1 (b :: rest) = some ([b], rest) :=
  readFromRFBServer_append (b := [b]) rfl rest

theorem readFromRFBServer_eq_some {n : ℕ} {input b rest : List UInt8}
    (h : readFromRFBServer n input = some (b, rest)) :
    input = b ++ rest ∧ b.length = n := by
  refine ⟨?_, readFromRFBServer_length h⟩
  unfold readFromRFBServer at h
  split_ifs at h
  obtain ⟨rfl, rfl⟩ := Prod.mk.inj (Option.some.inj h)
  exact (List.take_append_drop n input).symm

theorem readCompLen_eq_some_iff {input rest : List UInt8} {n : ℕ} :
    readCompLen input = some (n, rest) ↔
      ∃ compLen : UInt32, n = compLen.toNat ∧ input = be32 compLen ++ rest := by
  constructor
  · intro h
    unfold readCompLen at h
    split at h
    · rename_i b0 b1 b2 b3 rest' hread
      obtain ⟨rfl, rfl⟩ := Prod.mk.inj (Option.some.inj h)
      obtain ⟨rfl, -⟩ := readFromRFBServer_eq_some hread
      exact ⟨ofBe32 b0 b1 b2 b3, rfl, by rw [be32_ofBe32]⟩
    · cases h
  · rintro ⟨compLen, rfl, rfl⟩
    obtain ⟨b0, b1, b2, b3, hb, hof⟩ := be32_eq compLen
    have h4 : readFromRFBServer 4 ([b0, b1, b2, b3] ++ rest)
        = some ([b0, b1, b2, b3], rest) :=
      readFromRFBServer_append (b := [b0, b1, b2, b3]) rfl rest
    unfold readCompLen
    rw [hb, h4]
    simp only [hof]

theorem packedPayload_rcastmono1z (total : ℕ) {n : ℕ}
    {input input' compbuf rest : List UInt8}
    (hn : readCompLen input = some (n, input'))
    (hc : readFromRFBServer n input' = some (compbuf, rest)) :
    packedPayload total .rcastmono1z input
      = some (decode monoRle compbuf, rest) := by
  simp only [packedPayload, hn, hc, Option.bind_eq_bind, Option.bind_some,
    Option.pure_def]

theorem payload_rcastmono1z_iff {r : Rectangle} {input out rest : List UInt8} :
    payload r .rcastmono1z input = some (out, rest) ↔
      ∃ compbuf, Carries input compbuf rest ∧ out = decode monoRle compbuf := by
  constructor
  · intro h
    simp only [payload, packedPayload, Option.bind_eq_bind,
      Option.bind_eq_some_iff, Option.pure_def, Prod.exists, Option.some.injEq,
      Prod.mk.injEq] at h
    obtain ⟨t, input', ht, n, input'', hn, compbuf, rest', hc, rfl, rfl⟩ := h
    obtain ⟨rfl, hone⟩ := readFromRFBServer_eq_some ht
    obtain ⟨compLen, rfl, rfl⟩ := readCompLen_eq_some_iff.mp hn
    obtain ⟨rfl, hlen⟩ := readFromRFBServer_eq_some hc
    obtain ⟨threshold, rfl⟩ := List.length_eq_one_iff.mp hone
    exact ⟨compbuf, ⟨threshold, compLen, hlen, List.singleton_append⟩, rfl⟩
  · rintro ⟨compbuf, ⟨threshold, compLen, hlen, rfl⟩, rfl⟩
    have hn : readCompLen (be32 compLen ++ (compbuf ++ rest))
        = some (compLen.toNat, compbuf ++ rest) :=
      readCompLen_eq_some_iff.mpr ⟨compLen, rfl, rfl⟩
    rw [payload, readFromRFBServer_cons, Option.bind_some]
    exact packedPayload_rcastmono1z _ hn (readFromRFBServer_append hlen rest)

theorem payload_rcastmono1_iff {r : Rectangle} {input out rest : List UInt8} :
    payload r .rcastmono1 input = some (out, rest) ↔
      ∃ threshold, out.length = totalPacked r ∧
        input = threshold :: (out ++ rest) := by
  constructor
  · intro h
    simp only [payload, packedPayload, Option.bind_eq_some_iff, Prod.exists] at h
    obtain ⟨t, input', ht, h⟩ := h
    obtain ⟨rfl, hone⟩ := readFromRFBServer_eq_some ht
    obtain ⟨rfl, hlen⟩ := readFromRFBServer_eq_some h
    obtain ⟨threshold, rfl⟩ := List.length_eq_one_iff.mp hone
    exact ⟨threshold, hlen, rfl⟩
  · rintro ⟨threshold, hlen, rfl⟩
    rw [payload, readFromRFBServer_cons]
    exact readFromRFBServer_append hlen rest

/-! ## §3  The encodings agree -/

theorem totalPacked_lt (r : Rectangle) : 2 * totalPacked r < 2 ^ 32 := by
  have hw := r.w.toNat_lt
  have hh := r.h.toNat_lt
  have hrow : rowBytes r ≤ 8192 := by
    unfold rowBytes
    omega
  calc 2 * totalPacked r ≤ 2 * (8192 * 2 ^ 16) :=
        Nat.mul_le_mul_left 2 (Nat.mul_le_mul hrow hh.le)
    _ < 2 ^ 32 := by norm_num

/-- The serialisation of a list of runs, as a rectangle carries it. -/
def mono1z (threshold : UInt8) (runs : List (Run monoRle)) : List UInt8 :=
  threshold :: (be32 (.ofNat (serialise runs).length) ++ serialise runs)

/-- A packed bitmap, as a rectangle carries it. -/
def mono1 (threshold : UInt8) (packed : List UInt8) : List UInt8 :=
  threshold :: packed

theorem payload_mono1z {r : Rectangle} {runs : List (Run monoRle)}
    (hruns : (expand runs).length = totalPacked r) (threshold : UInt8)
    (rest : List UInt8) :
    payload r .rcastmono1z (mono1z threshold runs ++ rest)
      = some (expand runs, rest) := by
  have hlen := serialise_length_le runs
  have hlt := totalPacked_lt r
  rw [payload_rcastmono1z_iff]
  refine ⟨serialise runs, ⟨threshold, .ofNat (serialise runs).length, ?_, ?_⟩,
    (decode_serialise runs).symm⟩
  · rw [UInt32.toNat_ofNat', Nat.mod_eq_of_lt (by omega)]
  · rw [mono1z, List.cons_append, List.append_assoc]

/-- What a payload of the right length leads to. -/
theorem handleMono_full {r : Rectangle} {encoding : Mono}
    {input packed rest : List UInt8}
    (h : payload r encoding input = some (packed, rest))
    (hlen : packed.length = totalPacked r) (heap : Heap) (bpp : ℕ) :
    handleMono heap r bpp encoding input
      = some (.bitmaps (rowCalls r bpp packed r.h.toNat) rest) := by
  have hbuf := malloc_length heap.allPacked (totalPacked r)
  rw [handleMono_spec, h]
  simp only
  rw [overlay_full (by omega), List.take_of_length_le (by omega)]

/-- **Both encodings of a packed bitmap** make the same calls, which paint
each pixel of the rectangle once, in the color of its bit, and nothing
else. -/
theorem mono_encodings_agree (heap heap' : Heap) (r : Rectangle) (bpp : ℕ)
    {packed : List UInt8} (hlen : packed.length = totalPacked r)
    {runs : List (Run monoRle)} (hruns : expand runs = packed)
    (threshold threshold' : UInt8) (rest rest' : List UInt8) :
    ∃ calls,
      handleMono heap r bpp .rcastmono1z (mono1z threshold runs ++ rest)
        = some (.bitmaps calls rest) ∧
      handleMono heap' r bpp .rcastmono1 (mono1 threshold' packed ++ rest')
        = some (.bitmaps calls rest') ∧
      ∀ p, paintsAt bpp calls p = if r.Has p then
          [color bpp (isWhite r packed (p.2 - r.y.toNat) (p.1 - r.x.toNat))]
        else [] := by
  subst hruns
  refine ⟨rowCalls r bpp (expand runs) r.h.toNat, ?_, ?_, fun p => ?_⟩
  · exact handleMono_full (payload_mono1z hlen threshold rest) hlen heap bpp
  · exact handleMono_full
      (payload_rcastmono1_iff.mpr ⟨threshold', hlen, rfl⟩) hlen heap' bpp
  · exact paintsAt_rowCalls r bpp (expand runs) p r.h.toNat

/-- A 9×2 rectangle. -/
def nine : Rectangle := ⟨3, 4, 9, 2⟩

theorem mono_encodings_agree_nine :
    ∃ calls,
      handleMono ⟨fun _ => 1, fun _ => 2⟩ nine 2 .rcastmono1z (mono1z 0x80
          [.literal [0x81, 0x80] ⟨by decide, by decide⟩,
           .copies 2 0xFF ⟨by decide, by decide⟩] ++ [])
        = some (.bitmaps calls []) ∧
      handleMono ⟨fun _ => 3, fun _ => 4⟩ nine 2 .rcastmono1
          (mono1 0x80 [0x81, 0x80, 0xFF, 0xFF] ++ [7])
        = some (.bitmaps calls [7]) ∧
      ∀ p, paintsAt 2 calls p = if nine.Has p then
          [color 2 (isWhite nine [0x81, 0x80, 0xFF, 0xFF]
            (p.2 - nine.y.toNat) (p.1 - nine.x.toNat))]
        else [] :=
  mono_encodings_agree _ _ nine 2 rfl rfl 0x80 0x80 [] [7]

/-! ## §4  The heap -/

theorem color_ne {bpp : ℕ} (hbpp : bpp ≠ 0) :
    color bpp true ≠ color bpp false := by
  intro h
  obtain ⟨n, rfl⟩ := Nat.exists_eq_succ_of_ne_zero hbpp
  have hwhite : (color (n + 1) true).head? = some 0xFF := rfl
  have hblack : (color (n + 1) false).head? = some 0x00 := by
    unfold color
    rw [if_neg Bool.false_ne_true]
    split
    · rfl
    · rfl
  rw [h, hblack] at hwhite
  cases hwhite

theorem malloc_const (v : UInt8) {n i : ℕ} (h : i < n) :
    (malloc (fun _ => v) n)[i]? = some v := by
  unfold malloc
  rw [List.getElem?_map, List.getElem?_range h]
  rfl

/-- A byte that the payload does not reach shows: the first pixel whose bit
is in it has the color of the heap. -/
theorem missing_byte_shows {r : Rectangle} {out : List UInt8}
    (h : out.length < totalPacked r) :
    ∃ row col, row < r.h.toNat ∧ col < r.w.toNat ∧ ∀ v : UInt8,
      isWhite r (overlay out (malloc (fun _ => v) (totalPacked r))) row col
        = v.toNat.testBit 7 := by
  have hpos : 0 < rowBytes r := by
    apply Nat.pos_of_ne_zero
    intro h0
    rw [totalPacked, h0, Nat.zero_mul] at h
    exact Nat.not_lt_zero _ h
  have hmod := Nat.mod_lt out.length hpos
  refine ⟨out.length / rowBytes r, 8 * (out.length % rowBytes r),
    Nat.div_lt_of_lt_mul h, ?_, fun v => ?_⟩
  · unfold rowBytes at hmod ⊢
    omega
  · have hindex : out.length / rowBytes r * rowBytes r
        + 8 * (out.length % rowBytes r) / 8 = out.length := by
      rw [Nat.mul_div_cancel_left _ (by omega), Nat.mul_comm]
      exact Nat.div_add_mod _ _
    have hbit : 7 - 8 * (out.length % rowBytes r) % 8 = 7 := by omega
    unfold isWhite
    rw [hindex, hbit, List.getD_eq_getElem?_getD,
      getElem?_overlay_right le_rfl, malloc_const v h, Option.getD_some]

/-- Pixels without bytes have one picture. -/
theorem rowCalls_zero (r : Rectangle) (packed packed' : List UInt8) (n : ℕ) :
    rowCalls r 0 packed n = rowCalls r 0 packed' n := by
  have hnil : ∀ packed row, rowPixels r 0 packed row r.w.toNat = [] := by
    intro packed row
    exact List.eq_nil_of_length_eq_zero (rowPixels_length r 0 packed row _)
  unfold rowCalls rowCall
  simp only [hnil]

/-- A payload for the whole bitmap leaves nothing of the heap. -/
theorem heap_irrelevant_of_le {r : Rectangle} {encoding : Mono}
    {input : List UInt8} (bpp : ℕ)
    (h : ∀ out rest, payload r encoding input = some (out, rest) →
      totalPacked r ≤ out.length) (heap heap' : Heap) :
    handleMono heap r bpp encoding input
      = handleMono heap' r bpp encoding input := by
  rw [handleMono_spec, handleMono_spec]
  cases hp : payload r encoding input with
  | none => rfl
  | some q =>
      have hle := h q.1 q.2 hp
      simp only
      rw [overlay_full (by rw [malloc_length]; exact hle),
        overlay_full (by rw [malloc_length]; exact hle), malloc_length,
        malloc_length]

/-- A stream that stands for less lets the heap show: the two pictures differ
at the pixel of the missing byte. -/
theorem heap_shows_of_lt {r : Rectangle} {bpp : ℕ} {input compbuf rest : List UInt8}
    (hbpp : bpp ≠ 0) (hcarry : Carries input compbuf rest)
    (hlt : (decode monoRle compbuf).length < totalPacked r) :
    handleMono ⟨fun _ => 0xFF, fun _ => 0⟩ r bpp .rcastmono1z input
      ≠ handleMono ⟨fun _ => 0, fun _ => 0⟩ r bpp .rcastmono1z input := by
  intro he
  have hp : payload r .rcastmono1z input = some (decode monoRle compbuf, rest) :=
    payload_rcastmono1z_iff.mpr ⟨compbuf, hcarry, rfl⟩
  obtain ⟨row, col, hrow, hcol, hwhite⟩ := missing_byte_shows hlt
  rw [handleMono_spec, handleMono_spec, hp] at he
  obtain ⟨hcalls, -⟩ := Result.bitmaps.inj (Option.some.inj he)
  -- one pixel takes its color from the heap
  have hpaint := congrArg
    (fun calls => paintsAt bpp calls (r.x.toNat + col, r.y.toNat + row)) hcalls
  simp only [paintsAt_rowCalls] at hpaint
  rw [if_pos (by omega), if_pos (by omega), Nat.add_sub_cancel_left,
    Nat.add_sub_cancel_left, hwhite, hwhite] at hpaint
  exact color_ne hbpp (List.cons.inj hpaint).1

/-- **The heap does not show** in what the decoder returns exactly if pixels
have no bytes, or the rectangle is not run-length coded, or its stream stands
for the whole bitmap, or the input ends too early. -/
theorem heap_irrelevant_iff (r : Rectangle) (bpp : ℕ) (encoding : Mono)
    (input : List UInt8) :
    (∀ heap heap', handleMono heap r bpp encoding input
      = handleMono heap' r bpp encoding input) ↔
    bpp = 0 ∨ encoding = .rcastmono1 ∨
      ∀ compbuf rest, Carries input compbuf rest →
        totalPacked r ≤ (decode monoRle compbuf).length := by
  constructor
  · intro h
    by_contra hno
    push Not at hno
    obtain ⟨hbpp, henc, compbuf, rest, hcarry, hlt⟩ := hno
    obtain rfl : encoding = .rcastmono1z := by
      cases encoding with
      | rcastmono1 => exact absurd rfl henc
      | rcastmono1z => rfl
    exact heap_shows_of_lt hbpp hcarry hlt (h _ _)
  · rintro (rfl | rfl | h) heap heap'
    · rw [handleMono_spec, handleMono_spec]
      cases payload r encoding input with
      | none => rfl
      | some q =>
          simp only
          rw [rowCalls_zero]
    · apply heap_irrelevant_of_le
      intro out rest hp
      obtain ⟨-, hlen, -⟩ := payload_rcastmono1_iff.mp hp
      exact hlen.ge
    · apply heap_irrelevant_of_le
      intro out rest hp
      cases encoding with
      | rcastmono1 =>
          obtain ⟨-, hlen, -⟩ := payload_rcastmono1_iff.mp hp
          exact hlen.ge
      | rcastmono1z =>
          obtain ⟨compbuf, hcarry, rfl⟩ := payload_rcastmono1z_iff.mp hp
          exact h compbuf rest hcarry

/-- An 8×1 rectangle. -/
def byteRow : Rectangle := ⟨0, 0, 8, 1⟩

/-- A run-length stream of no bytes: the threshold, and a length of zero. -/
theorem heap_shows :
    ¬ ∀ heap heap', handleMono heap byteRow 2 .rcastmono1z [0x80, 0, 0, 0, 0]
      = handleMono heap' byteRow 2 .rcastmono1z [0x80, 0, 0, 0, 0] := by
  intro h
  have he := h ⟨fun _ => 0, fun _ => 0⟩ ⟨fun _ => 0xFF, fun _ => 0⟩
  revert he
  decide +kernel

end Rmcast.Rfb
