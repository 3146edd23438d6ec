import Rmcast.Lib.Memory
import Rmcast.Lib.Loop
import Rmcast.Lib.RunLength
import Rmcast.Lib.Word

/-!
# The mono encodings

The block that the libvncclient patch adds to `HandleRFBServerMessage` for
rectangles of encoding -789 (`rcastmono1`, packed bits) and -791
(`rcastmono1z`, the same run-length coded). What `malloc` hands out is a
parameter, so that a byte of it that shows in the result can be told.

`malloc` succeeds, and the server's bytes are a list: reading past its end is
the lost connection that makes `ReadFromRFBServer` return `FALSE`.
-/

namespace Rmcast.Rfb

open Mem Loop RunLength Word

/-! ## §1  The decoder -/

/-- `rect.r`. -/
structure Rectangle where
  x : UInt16
  y : UInt16
  w : UInt16
  h : UInt16
deriving DecidableEq, Repr

/-- The two encodings. -/
inductive Mono where
  | rcastmono1
  | rcastmono1z
deriving DecidableEq, Repr

/-- `(int32_t)rect.encoding`. -/
def Mono.id : Mono → ℤ
  | .rcastmono1 => -789
  | .rcastmono1z => -791

/-- A call of `client->GotBitmap`. -/
structure GotBitmap where
  buffer : List UInt8
  x : ℕ
  y : ℕ
  w : ℕ
  h : ℕ
deriving DecidableEq, Repr

/-- What the blocks `all_packed` and `row_expanded` contain when `malloc`
returns them. -/
structure Heap where
  allPacked : ℕ → UInt8
  rowExpanded : ℕ → UInt8

inductive Result where
  | returnFalse
  /-- The rectangle is done; `input` is left to be read. -/
  | bitmaps (calls : List GotBitmap) (input : List UInt8)
deriving DecidableEq, Repr

def malloc (contents : ℕ → UInt8) (n : ℕ) : List UInt8 :=
  (List.range n).map contents

def readFromRFBServer (n : ℕ) (input : List UInt8) :
    Option (List UInt8 × List UInt8) :=
  if n ≤ input.length then some (input.take n, input.drop n) else none

def rowBytes (r : Rectangle) : ℕ := (r.w.toNat + 7) / 8

def totalPacked (r : Rectangle) : ℕ := rowBytes r * r.h.toNat

/-- The variables of the run-length loop. -/
structure Rle where
  inPos : ℕ
  outPos : ℕ
  allPacked : List UInt8

/-- The `while` loop's test and body. -/
def rleStep (compbuf : List UInt8) (totalPacked : ℕ) (s : Rle) :
    Option (Next Rle) :=
  if s.inPos < compbuf.length ∧ s.outPos < totalPacked then do
    let ctrl ← compbuf[s.inPos]?
    let inPos := s.inPos + 1
    if ctrl &&& 0x80 ≠ 0 then
      let cnt := (ctrl &&& 0x7F).toNat + 2
      -- a run without its value ends the loop
      if compbuf.length ≤ inPos then
        return .leave { s with inPos := inPos }
      let val ← compbuf[inPos]?
      let cnt := if s.outPos + cnt > totalPacked then totalPacked - s.outPos else cnt
      let allPacked ← memset s.allPacked s.outPos val cnt
      return .again ⟨inPos + 1, s.outPos + cnt, allPacked⟩
    else
      let cnt := ctrl.toNat + 1
      -- a literal is cut where the code ends
      let cnt :=
        if inPos + cnt > compbuf.length then compbuf.length - inPos else cnt
      let cnt := if s.outPos + cnt > totalPacked then totalPacked - s.outPos else cnt
      let allPacked ← memcpy s.allPacked s.outPos compbuf inPos cnt
      return .again ⟨inPos + cnt, s.outPos + cnt, allPacked⟩
  else some (.leave s)

/-- `lenbuf` and `comp_len`. -/
def readCompLen (input : List UInt8) : Option (ℕ × List UInt8) :=
  match readFromRFBServer 4 input with
  | some ([b0, b1, b2, b3], input) => some ((ofBe32 b0 b1 b2 b3).toNat, input)
  | _ => none

/-- The part that fills `all_packed`: the block and what is left of the
input. The inner `none` is a lost connection. -/
def readPacked (allPacked : List UInt8) (encoding : Mono) (input : List UInt8) :
    Option (Option (List UInt8 × List UInt8)) :=
  match encoding with
  | .rcastmono1z =>
      match readCompLen input with
      | none => some none
      | some (compLen, input) =>
          match readFromRFBServer compLen input with
          | none => some none
          | some (compbuf, input) => do
              let s ← repeatUntil (rleStep compbuf allPacked.length)
                (compLen + 1) ⟨0, 0, allPacked⟩
              return some (s.allPacked, input)
  | .rcastmono1 => some (readFromRFBServer allPacked.length input)

/-- The bytes of a pixel. -/
def expandPixel (bpp set : ℕ) : List UInt8 :=
  let v := if set ≠ 0 then 0xFF else 0x00
  if bpp = 4 then [v, v, v, 0xFF]
  else if bpp = 2 then if set ≠ 0 then [0xFF, 0xFF] else [0x00, 0x00]
  else List.replicate bpp v

/-- The body of the inner loop. -/
def expandColumn (r : Rectangle) (bpp : ℕ) (allPacked : List UInt8) (row col : ℕ)
    (rowExpanded : List UInt8) : Option (List UInt8) := do
  let byte ← allPacked[row * rowBytes r + col >>> 3]?
  let set := byte.toNat >>> (7 - (col &&& 7)) &&& 1
  store rowExpanded (col * bpp : ℕ) (expandPixel bpp set)

/-- The body of the outer loop: `row_expanded`, and the calls so far. -/
def expandRow (r : Rectangle) (bpp : ℕ) (allPacked : List UInt8) (row : ℕ)
    (s : List UInt8 × List GotBitmap) : Option (List UInt8 × List GotBitmap) := do
  let rowExpanded ← forUpTo r.w.toNat (expandColumn r bpp allPacked row) s.1
  return (rowExpanded, s.2 ++
    [⟨rowExpanded, r.x.toNat, r.y.toNat + row, r.w.toNat, 1⟩])

/-- The block as a whole. `bpp` is `client->format.bitsPerPixel / 8`. -/
def handleMono (heap : Heap) (r : Rectangle) (bpp : ℕ) (encoding : Mono)
    (input : List UInt8) : Option Result :=
  match readFromRFBServer 1 input with
  | none => some .returnFalse
  | some (_threshold, input) => do
      let allPacked := malloc heap.allPacked (totalPacked r)
      let rowExpanded := malloc heap.rowExpanded (r.w.toNat * bpp)
      match ← readPacked allPacked encoding input with
      | none => return .returnFalse
      | some (allPacked, input) =>
          let (_, calls) ← forUpTo r.h.toNat (expandRow r bpp allPacked)
            (rowExpanded, [])
          return .bitmaps calls input

/-! ## §2  The run-length code -/

theorem literal_ctrl :
    ∀ n < 129, 1 ≤ n →
      (UInt8.ofNat (n - 1) &&& 0x80 = 0) ∧ (UInt8.ofNat (n - 1)).toNat + 1 = n := by
  decide +kernel

theorem copies_ctrl :
    ∀ n < 130, 2 ≤ n →
      (0x80 ||| UInt8.ofNat (n - 2)) &&& 0x80 ≠ 0 ∧
        ((0x80 ||| UInt8.ofNat (n - 2)) &&& 0x7F).toNat + 2 = n := by
  decide +kernel

/-- The control bytes of `rcastmono1z`. -/
def monoRle : Code UInt8 where
  read ctrl :=
    if ctrl &&& 0x80 ≠ 0 then .copies ((ctrl &&& 0x7F).toNat + 2)
    else .literal (ctrl.toNat + 1)
  write
    | .literal n => .ofNat (n - 1)
    | .copies n => 0x80 ||| .ofNat (n - 2)
  Writable
    | .literal n => 1 ≤ n ∧ n ≤ 128
    | .copies n => 2 ≤ n ∧ n ≤ 129
  read_write := by
    intro c hc
    cases c with
    | literal n =>
        obtain ⟨h1, h2⟩ := literal_ctrl n (Nat.lt_succ_of_le hc.2) hc.1
        simp only [h1, ne_eq, not_true_eq_false, if_false, h2]
    | copies n =>
        obtain ⟨h1, h2⟩ := copies_ctrl n (Nat.lt_succ_of_le hc.2) hc.1
        rw [if_pos h1, h2]
  count_pos := by
    intro c hc
    cases c with
    | literal n => exact hc.1
    | copies n => exact lt_of_lt_of_le Nat.zero_lt_two hc.1

/-- Before each iteration: `out` is written, and the rest of the code goes on
with what is missing. -/
structure Decoding (compbuf buf : List UInt8) (s : Rle) (out : List UInt8) :
    Prop where
  outPos : s.outPos = out.length
  fits : out.length ≤ buf.length
  packed : s.allPacked = overlay out buf
  inPos : s.inPos ≤ compbuf.length
  agree : (decode monoRle compbuf).take buf.length
    = (out ++ decode monoRle (compbuf.drop s.inPos)).take buf.length

/-- One iteration that copies or repeats the symbols `xs`: all of them, or as
many as fit. -/
theorem Decoding.next {compbuf buf out xs rest : List UInt8} {s : Rle}
    (h : Decoding compbuf buf s out)
    (hd : decode monoRle (compbuf.drop s.inPos) = xs ++ decode monoRle rest)
    {n inPos : ℕ} (hn : n = min xs.length (buf.length - out.length))
    (hin : inPos ≤ compbuf.length)
    (hrest : n = xs.length → rest = compbuf.drop inPos) :
    ∃ packed, store s.allPacked s.outPos (xs.take n) = some packed ∧
      Decoding compbuf buf ⟨inPos, s.outPos + n, packed⟩ (out ++ xs.take n) := by
  have hfits := h.fits
  have hlen : (xs.take n).length = n := by
    rw [List.length_take]
    omega
  refine ⟨overlay (out ++ xs.take n) buf, ?_, ?_⟩
  · rw [h.packed, h.outPos]
    exact store_overlay (by omega)
  · refine ⟨by rw [h.outPos, List.length_append, hlen],
      by rw [List.length_append]; omega, rfl, hin, ?_⟩
    show _ = (_ ++ decode monoRle (compbuf.drop inPos)).take buf.length
    rw [h.agree, hd]
    by_cases hall : n = xs.length
    · rw [hrest hall, hall, List.take_length, List.append_assoc]
    · -- the buffer is full
      have hfull : (out ++ xs.take n).length = buf.length := by
        rw [List.length_append]
        omega
      have hmissing : buf.length - out.length = n := by omega
      rw [List.take_left' hfull, List.take_append,
        List.take_of_length_le hfits, hmissing,
        List.take_append_of_le_length (by omega)]

/-- The loop may be left when nothing follows or the buffer is full. -/
theorem Decoding.done {compbuf buf out : List UInt8} {s : Rle}
    (h : Decoding compbuf buf s out)
    (hend : decode monoRle (compbuf.drop s.inPos) = [] ∨
      buf.length ≤ s.outPos) :
    s.allPacked = overlay (decode monoRle compbuf) buf := by
  have hout : (decode monoRle compbuf).take buf.length = out := by
    have hfits := h.fits
    rw [h.agree]
    rcases hend with hend | hend
    · rw [hend, List.append_nil, List.take_of_length_le hfits]
    · rw [h.outPos] at hend
      exact List.take_left' (by omega)
  rw [h.packed, ← hout, overlay_take]

theorem drop_eq_cons {α : Type*} {l : List α} {i : ℕ} (h : i < l.length) :
    ∃ a, l[i]? = some a ∧ l.drop i = a :: l.drop (i + 1) :=
  ⟨l[i], List.getElem?_eq_getElem h, List.drop_eq_getElem_cons h⟩

/-- The run-length code, in the words of the loop. -/
theorem monoRle_read (ctrl : UInt8) :
    monoRle.read ctrl = if ctrl &&& 0x80 ≠ 0 then
      .copies ((ctrl &&& 0x7F).toNat + 2) else .literal (ctrl.toNat + 1) := rfl

/-- How an iteration ends: with more decoded, or with everything. -/
def Turned (compbuf buf : List UInt8) (s : Rle) : Prop :=
  (∃ t, rleStep compbuf buf.length s = some (.again t) ∧
    (∃ out, Decoding compbuf buf t out) ∧
    compbuf.length - t.inPos < compbuf.length - s.inPos) ∨
  ∃ t, rleStep compbuf buf.length s = some (.leave t) ∧
    t.allPacked = overlay (decode monoRle compbuf) buf

/-- A count that is cut at the end of a buffer. -/
theorem cut_eq_min (pos n len : ℕ) :
    (if pos + n > len then len - pos else n) = min n (len - pos) := by
  split
  · rename_i hgt
    exact (min_eq_right (Nat.sub_le_iff_le_add'.mpr hgt.le)).symm
  · rename_i hle
    exact (min_eq_left (Nat.le_sub_of_add_le' (not_lt.mp hle))).symm

/-- A repeat run. -/
theorem Decoding.step_copies {compbuf buf out : List UInt8} {s : Rle} {ctrl : UInt8}
    (h : Decoding compbuf buf s out) (hc : s.inPos < compbuf.length ∧ s.outPos < buf.length)
    (hctrl : compbuf[s.inPos]? = some ctrl)
    (hdrop : compbuf.drop s.inPos = ctrl :: compbuf.drop (s.inPos + 1))
    (hbit : ctrl &&& 0x80 ≠ 0) : Turned compbuf buf s := by
  have hfits := h.fits
  have hpos := h.outPos
  have hread := monoRle_read ctrl
  unfold Turned rleStep
  rw [if_pos hc]
  simp only [hctrl, Option.bind_eq_bind, Option.bind_some]
  rw [if_pos hbit] at hread ⊢
  by_cases hend : compbuf.length ≤ s.inPos + 1
  · refine Or.inr ⟨_, if_pos hend, h.done (Or.inl ?_)⟩
    rw [hdrop, List.drop_of_length_le hend, decode_copies_cut hread]
  rw [if_neg hend]
  obtain ⟨val, hval, hdrop'⟩ := drop_eq_cons (Nat.lt_of_not_le hend)
  have hdec : decode monoRle (compbuf.drop s.inPos)
      = List.replicate ((ctrl &&& 0x7F).toNat + 2) val
        ++ decode monoRle (compbuf.drop (s.inPos + 1 + 1)) := by
    rw [hdrop, hdrop', decode_copies hread]
  simp only [hval, Option.bind_some]
  rw [cut_eq_min]
  generalize hcnt : min ((ctrl &&& 0x7F).toNat + 2) (buf.length - s.outPos) = cnt
  have hmin : cnt = min (List.replicate ((ctrl &&& 0x7F).toNat + 2) val).length
      (buf.length - out.length) := by
    rw [List.length_replicate, ← hcnt, hpos]
  have hin : s.inPos + 1 + 1 ≤ compbuf.length := by omega
  obtain ⟨packed, hst, hD⟩ := h.next hdec hmin hin fun _ => rfl
  rw [List.take_replicate] at hst
  rw [List.length_replicate] at hmin
  rw [min_eq_left (by omega)] at hst
  refine Or.inl ⟨_, ?_, ⟨_, hD⟩, by show _ - (s.inPos + 1 + 1) < _; omega⟩
  unfold memset
  rw [hst]
  rfl

/-- A literal run. -/
theorem Decoding.step_literal {compbuf buf out : List UInt8} {s : Rle} {ctrl : UInt8}
    (h : Decoding compbuf buf s out) (hc : s.inPos < compbuf.length ∧ s.outPos < buf.length)
    (hctrl : compbuf[s.inPos]? = some ctrl)
    (hdrop : compbuf.drop s.inPos = ctrl :: compbuf.drop (s.inPos + 1))
    (hbit : ¬ctrl &&& 0x80 ≠ 0) : Turned compbuf buf s := by
  have hfits := h.fits
  have hpos := h.outPos
  have hread := monoRle_read ctrl
  unfold Turned rleStep
  rw [if_pos hc]
  simp only [hctrl, Option.bind_eq_bind, Option.bind_some]
  rw [if_neg hbit] at hread ⊢
  have hdec : decode monoRle (compbuf.drop s.inPos)
      = (compbuf.drop (s.inPos + 1)).take (ctrl.toNat + 1)
        ++ decode monoRle ((compbuf.drop (s.inPos + 1)).drop (ctrl.toNat + 1)) := by
    rw [hdrop, decode_literal hread]
  rw [cut_eq_min, cut_eq_min]
  generalize havail : min (ctrl.toNat + 1) (compbuf.length - (s.inPos + 1)) = avail
  generalize hcnt : min avail (buf.length - s.outPos) = cnt
  have hxs : ((compbuf.drop (s.inPos + 1)).take (ctrl.toNat + 1)).length
      = avail := by
    rw [List.length_take, List.length_drop, havail]
  have hmin : cnt = min ((compbuf.drop (s.inPos + 1)).take
      (ctrl.toNat + 1)).length (buf.length - out.length) := by
    rw [hxs, ← hcnt, hpos]
  have hle : avail ≤ ctrl.toNat + 1 ∧ s.inPos + 1 + avail ≤ compbuf.length := by
    omega
  have hin : s.inPos + 1 + cnt ≤ compbuf.length := by omega
  obtain ⟨packed, hst, hD⟩ := h.next hdec hmin hin (by
    intro hall
    rw [hxs] at hall
    rw [hall, List.drop_drop]
    by_cases hcut : avail = ctrl.toNat + 1
    · rw [hcut]
    · -- the code ends within the run
      rw [List.drop_of_length_le (by omega), List.drop_of_length_le (by omega)])
  rw [List.take_take, min_eq_left (by omega)] at hst
  refine Or.inl ⟨_, ?_, ⟨_, hD⟩, by show _ - (s.inPos + 1 + cnt) < _; omega⟩
  have hload : load compbuf ((s.inPos + 1 : ℕ) : ℤ) cnt
      = some ((compbuf.drop (s.inPos + 1)).take cnt) := by
    unfold load
    rw [if_pos (by omega)]
    rfl
  unfold memcpy
  rw [hload]
  simp only [Option.bind_eq_bind, Option.bind_some, hst]
  rfl

/-- **Step lemma** of the run-length loop. -/
theorem Decoding.step {compbuf buf out : List UInt8} {s : Rle}
    (h : Decoding compbuf buf s out) : Turned compbuf buf s := by
  by_cases hc : s.inPos < compbuf.length ∧ s.outPos < buf.length
  · obtain ⟨ctrl, hctrl, hdrop⟩ := drop_eq_cons hc.1
    by_cases hbit : ctrl &&& 0x80 ≠ 0
    · exact h.step_copies hc hctrl hdrop hbit
    · exact h.step_literal hc hctrl hdrop hbit
  · have hpos := h.outPos
    have hfits := h.fits
    refine Or.inr ⟨s, if_neg hc, h.done ?_⟩
    by_cases hin : s.inPos < compbuf.length
    · exact Or.inr (by omega)
    · left
      rw [List.drop_of_length_le (by omega), decode_nil]

/-- **The run-length loop** fills the buffer with what the code stands for,
as far as both go. -/
theorem rle_spec (compbuf buf : List UInt8) :
    ∃ s, repeatUntil (rleStep compbuf buf.length) (compbuf.length + 1)
        ⟨0, 0, buf⟩ = some s ∧
      s.allPacked = overlay (decode monoRle compbuf) buf := by
  apply repeatUntil_inv (fun s => compbuf.length - s.inPos)
    (fun s => ∃ out, Decoding compbuf buf s out)
    (fun s => s.allPacked = overlay (decode monoRle compbuf) buf)
  · rintro s ⟨out, h⟩
    exact h.step
  · exact ⟨[], rfl, Nat.zero_le _, (overlay_nil buf).symm, Nat.zero_le _, rfl⟩
  · show compbuf.length - 0 < _
    omega

/-! ## §4  The rows -/

/-- Bit `7 - col % 8` of the byte of column `col` in row `row`. -/
def isWhite (r : Rectangle) (packed : List UInt8) (row col : ℕ) : Bool :=
  (packed.getD (row * rowBytes r + col / 8) 0).toNat.testBit (7 - col % 8)

/-- A white or black pixel; the fourth byte of a 32-bit pixel is set in
both. -/
def color (bpp : ℕ) (white : Bool) : List UInt8 :=
  if white then List.replicate bpp 0xFF
  else if bpp = 4 then [0x00, 0x00, 0x00, 0xFF]
  else List.replicate bpp 0x00

/-- The pixels of a row from column 0 to `n`. -/
def rowPixels (r : Rectangle) (bpp : ℕ) (packed : List UInt8) (row n : ℕ) :
    List UInt8 :=
  (List.range n).flatMap fun col => color bpp (isWhite r packed row col)

/-- The call for a row of a packed bitmap. -/
def rowCall (r : Rectangle) (bpp : ℕ) (packed : List UInt8) (row : ℕ) :
    GotBitmap where
  buffer := rowPixels r bpp packed row r.w.toNat
  x := r.x.toNat
  y := r.y.toNat + row
  w := r.w.toNat
  h := 1

def rowCalls (r : Rectangle) (bpp : ℕ) (packed : List UInt8) (n : ℕ) :
    List GotBitmap :=
  (List.range n).map (rowCall r bpp packed)

@[simp] theorem color_length (bpp : ℕ) (white : Bool) :
    (color bpp white).length = bpp := by
  unfold color
  split_ifs with _ h4
  · exact List.length_replicate
  · rw [h4]
    rfl
  · exact List.length_replicate

theorem rowPixels_succ (r : Rectangle) (bpp : ℕ) (packed : List UInt8)
    (row n : ℕ) : rowPixels r bpp packed row (n + 1)
      = rowPixels r bpp packed row n ++ color bpp (isWhite r packed row n) := by
  unfold rowPixels
  rw [List.range_succ, List.flatMap_append, List.flatMap_singleton]

theorem rowPixels_length (r : Rectangle) (bpp : ℕ) (packed : List UInt8)
    (row n : ℕ) : (rowPixels r bpp packed row n).length = n * bpp := by
  induction n with
  | zero => rw [Nat.zero_mul]; rfl
  | succ n ih =>
      rw [rowPixels_succ, List.length_append, ih, color_length, Nat.succ_mul]

/-- The byte of a pixel is inside the packed bitmap. -/
theorem packed_index_lt {r : Rectangle} {row col : ℕ} (hrow : row < r.h.toNat)
    (hcol : col < r.w.toNat) :
    row * rowBytes r + col / 8 < totalPacked r := by
  have hbyte : col / 8 < rowBytes r := by
    unfold rowBytes
    omega
  calc row * rowBytes r + col / 8 < row * rowBytes r + rowBytes r := by omega
    _ = (row + 1) * rowBytes r := by ring
    _ ≤ r.h.toNat * rowBytes r := Nat.mul_le_mul_right _ hrow
    _ = totalPacked r := Nat.mul_comm _ _

/-- The bit the loop takes is the pixel's color. -/
theorem expandPixel_eq (bpp : ℕ) (byte : UInt8) (col : ℕ) :
    expandPixel bpp (byte.toNat >>> (7 - (col &&& 7)) &&& 1)
      = color bpp (byte.toNat.testBit (7 - col % 8)) := by
  have hand : col &&& 7 = col % 8 := Nat.and_two_pow_sub_one_eq_mod col 3
  have htest : byte.toNat.testBit (7 - col % 8)
      = decide (byte.toNat >>> (7 - col % 8) &&& 1 ≠ 0) := by
    rw [Nat.testBit, Nat.and_comm, Bool.eq_iff_iff, decide_eq_true_iff,
      bne_iff_ne]
  rw [hand, htest]
  unfold expandPixel color
  by_cases hset : byte.toNat >>> (7 - col % 8) &&& 1 ≠ 0
  · simp only [if_pos hset, decide_eq_true hset, if_true]
    split_ifs with h4 h2
    · rw [h4]; rfl
    · rw [h2]; rfl
    · rfl
  · simp only [if_neg hset, decide_eq_false hset, Bool.false_eq_true, if_false]
    split_ifs with h4 h2
    · rfl
    · rw [h2]; rfl
    · rfl

theorem expandColumns_spec {r : Rectangle} {bpp row : ℕ}
    {packed rowExpanded : List UInt8} (hp : packed.length = totalPacked r)
    (he : rowExpanded.length = r.w.toNat * bpp) (hrow : row < r.h.toNat) :
    forUpTo r.w.toNat (expandColumn r bpp packed row) rowExpanded
      = some (rowPixels r bpp packed row r.w.toNat) := by
  obtain ⟨s, hs, hI⟩ := forUpTo_inv (n := r.w.toNat) (s := rowExpanded)
    (f := expandColumn r bpp packed row)
    (fun col s => s = overlay (rowPixels r bpp packed row col) rowExpanded)
    (overlay_nil _).symm (by
      rintro col s hcol rfl
      have hlt := packed_index_lt hrow hcol
      rw [← hp] at hlt
      have hbyte : packed[row * rowBytes r + col >>> 3]?
          = some (packed.getD (row * rowBytes r + col / 8) 0) := by
        rw [List.getD_eq_getElem?_getD, Nat.shiftRight_eq_div_pow,
          List.getElem?_eq_getElem hlt, Option.getD_some]
      have hfits : (rowPixels r bpp packed row col).length
          + (color bpp (isWhite r packed row col)).length ≤ rowExpanded.length := by
        rw [rowPixels_length, color_length, he, ← Nat.succ_mul]
        exact Nat.mul_le_mul_right _ hcol
      refine ⟨_, ?_, rfl⟩
      unfold expandColumn
      rw [hbyte, rowPixels_succ, ← store_overlay hfits, rowPixels_length]
      simp only [Option.bind_eq_bind, Option.bind_some, expandPixel_eq]
      rfl)
  have hlen : rowExpanded.length
      ≤ (rowPixels r bpp packed row r.w.toNat).length := by
    rw [rowPixels_length, he]
  rw [hI, overlay_full hlen, he, List.take_of_length_le
    (by rw [rowPixels_length])] at hs
  exact hs

/-- **The rows of a packed bitmap**, whatever was in `row_expanded`. -/
theorem expandRows_spec {r : Rectangle} {bpp : ℕ}
    {packed rowExpanded : List UInt8} (hp : packed.length = totalPacked r)
    (he : rowExpanded.length = r.w.toNat * bpp) :
    ∃ last, forUpTo r.h.toNat (expandRow r bpp packed) (rowExpanded, [])
      = some (last, rowCalls r bpp packed r.h.toNat) := by
  obtain ⟨⟨last, calls⟩, hs, -, rfl⟩ := forUpTo_inv (n := r.h.toNat)
    (s := (rowExpanded, [])) (f := expandRow r bpp packed)
    (fun row s => s.1.length = r.w.toNat * bpp ∧ s.2 = rowCalls r bpp packed row)
    ⟨he, rfl⟩ (by
      rintro row ⟨last, calls⟩ hrow ⟨hlen, rfl⟩
      refine ⟨(rowPixels r bpp packed row r.w.toNat, _), ?_,
        rowPixels_length .., rfl⟩
      unfold expandRow rowCalls
      rw [expandColumns_spec hp hlen hrow, List.range_succ, List.map_append]
      rfl)
  exact ⟨last, hs⟩

/-! ## §5  The block as a whole -/

/-- What the input says after the threshold: the bytes the packed bitmap of
`total` bytes begins with, and what follows the rectangle; `none` if the
input ends before. -/
def packedPayload (total : ℕ) (encoding : Mono) (input : List UInt8) :
    Option (List UInt8 × List UInt8) :=
  match encoding with
  | .rcastmono1z => do
      let (compLen, input) ← readCompLen input
      let (compbuf, input) ← readFromRFBServer compLen input
      return (decode monoRle compbuf, input)
  | .rcastmono1 => readFromRFBServer total input

/-- What the input says. -/
def payload (r : Rectangle) (encoding : Mono) (input : List UInt8) :
    Option (List UInt8 × List UInt8) :=
  (readFromRFBServer 1 input).bind fun p =>
    packedPayload (totalPacked r) encoding p.2

theorem malloc_length (contents : ℕ → UInt8) (n : ℕ) :
    (malloc contents n).length = n := by
  unfold malloc
  rw [List.length_map, List.length_range]

theorem readFromRFBServer_length {n : ℕ} {input b rest : List UInt8}
    (h : readFromRFBServer n input = some (b, rest)) : b.length = n := by
  unfold readFromRFBServer at h
  split_ifs at h with hle
  obtain ⟨rfl, -⟩ := Prod.mk.inj (Option.some.inj h)
  rw [List.length_take, min_eq_left hle]

theorem readPacked_spec (buf : List UInt8) (encoding : Mono)
    (input : List UInt8) :
    readPacked buf encoding input
      = some ((packedPayload buf.length encoding input).map fun p =>
        (overlay p.1 buf, p.2)) := by
  cases encoding with
  | rcastmono1 =>
      show some (readFromRFBServer buf.length input) = some (Option.map _ _)
      cases h : readFromRFBServer buf.length input with
      | none => rw [packedPayload, h]; rfl
      | some p =>
          have hlen := readFromRFBServer_length h
          rw [packedPayload, h, Option.map_some, overlay_full hlen.ge,
            List.take_of_length_le hlen.le]
  | rcastmono1z =>
      simp only [readPacked, packedPayload]
      cases readCompLen input with
      | none => rfl
      | some p =>
          obtain ⟨compLen, input⟩ := p
          simp only [Option.bind_eq_bind, Option.bind_some]
          cases h : readFromRFBServer compLen input with
          | none => rfl
          | some q =>
              obtain ⟨s, hs, hp⟩ := rle_spec q.1 buf
              rw [readFromRFBServer_length h] at hs
              simp only [hs, hp, Option.bind_some, Option.pure_def,
                Option.map_some]

/-- **What the block computes**, in bounds: the payload laid over the
contents of `all_packed`, as one call for each row. -/
theorem handleMono_spec (heap : Heap) (r : Rectangle) (bpp : ℕ)
    (encoding : Mono) (input : List UInt8) :
    handleMono heap r bpp encoding input = some (match payload r encoding input with
      | none => .returnFalse
      | some (out, rest) => .bitmaps (rowCalls r bpp
          (overlay out (malloc heap.allPacked (totalPacked r))) r.h.toNat) rest) := by
  unfold handleMono payload
  cases readFromRFBServer 1 input with
  | none => rfl
  | some p =>
      have hbuf := malloc_length heap.allPacked (totalPacked r)
      simp only [readPacked_spec, hbuf, Option.bind_some]
      cases packedPayload (totalPacked r) encoding p.2 with
      | none => rfl
      | some q =>
          have hpacked : (overlay q.1
              (malloc heap.allPacked (totalPacked r))).length = totalPacked r :=
            (overlay_length _ _).trans hbuf
          have hrow := malloc_length heap.rowExpanded (r.w.toNat * bpp)
          obtain ⟨last, hlast⟩ := expandRows_spec hpacked hrow
          simp only [Option.bind_eq_bind, Option.bind_some, Option.map_some, hlast]
          rfl

end Rmcast.Rfb
