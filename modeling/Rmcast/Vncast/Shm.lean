import Rmcast.Lib.Memory
import Rmcast.Lib.Loop
import Rmcast.Lib.Rect
import Rmcast.Qtfb.Protocol

/-!
# The client's shadow and shared pictures

`vncast::ClientConnection` as far as pixels go (`rmioc/vncast_client.cpp`).
vnsee paints into an RGB565 shadow; `blit_rect_to_shm` converts a rectangle
of it into the shared picture, whose format the server announced.
-/

namespace Rmcast.Vncast

open Mem Loop Word

/-! ## §1  The connection -/

/-- The data of a `ClientConnection` after the handshake. -/
structure Connection where
  w : UInt32
  h : UInt32
  stride : UInt32
  bpp : UInt32
  format : UInt32
  shm : List UInt8
  shadow : List UInt8
  /-- Grayscale is forced by `$VNCAST_WAVEFORM` or
  `$VNCAST_FORCE_GRAYSCALE`. -/
  forceGrayscale : Bool
  seq : UInt32 := 0
  cursorX : ℤ := -1
  cursorY : ℤ := -1
  cursorW : UInt32 := 0
  cursorH : UInt32 := 0
  cursorVisible : Bool := false
deriving Repr

namespace Connection

def width (c : Connection) : ℤ := toInt c.w

def height (c : Connection) : ℤ := toInt c.h

end Connection

/-! ## §2  Pixel conversion -/

/-- The components of an RGB565 pixel expanded to 8 bits, in variables of
`bits` bits. -/
def components (bits : ℕ) (lo hi : UInt8) : ℕ × ℕ × ℕ :=
  let px := lo.toNat ||| hi.toNat <<< 8
  let r := px >>> 11 &&& 0x1F
  let g := px >>> 5 &&& 0x3F
  let b := px &&& 0x1F
  ((r <<< 3 ||| r >>> 2) % 2 ^ bits, (g <<< 2 ||| g >>> 4) % 2 ^ bits,
    (b <<< 3 ||| b >>> 2) % 2 ^ bits)

def luma (c : ℕ × ℕ × ℕ) : ℕ :=
  (c.1 * 30 + c.2.1 * 59 + c.2.2 * 11) / 100

def toRgba8888 (forceGrayscale : Bool) (lo hi : UInt8) : List UInt8 :=
  let c := components 8 lo hi
  if forceGrayscale then
    let y8 := .ofNat (luma c)
    [y8, y8, y8, 0xFF]
  else [.ofNat c.1, .ofNat c.2.1, .ofNat c.2.2, 0xFF]

def toGrayscale8 (lo hi : UInt8) : List UInt8 :=
  [.ofNat (luma (components 8 lo hi))]

def toGrayscale16 (lo hi : UInt8) : List UInt8 :=
  let y16 := luma (components 16 lo hi) % 2 ^ 16 * 257 % 2 ^ 16
  [.ofNat (y16 &&& 0xFF), .ofNat (y16 >>> 8)]

/-- The three branches on `m_format`: bytes per shm pixel and conversion.
Any other format copies nothing. -/
def conversion (c : Connection) : Option (ℕ × (UInt8 → UInt8 → List UInt8)) :=
  if c.format = 1 then some (4, toRgba8888 c.forceGrayscale)
  else if c.format = 2 then some (1, toGrayscale8)
  else if c.format = 0 then some (2, toGrayscale16)
  else none

theorem conversion_length {c : Connection} {k : ℕ}
    {conv : UInt8 → UInt8 → List UInt8} (h : conversion c = some (k, conv))
    (lo hi : UInt8) : (conv lo hi).length = k := by
  unfold conversion at h
  split_ifs at h <;> obtain ⟨rfl, rfl⟩ := Prod.mk.inj (Option.some.inj h)
  · unfold toRgba8888
    split <;> rfl
  · rfl
  · rfl

/-! ## §3  The blit -/

/-- The double loop of a format branch. -/
def convertRows (c : Connection) (k : ℕ) (conv : UInt8 → UInt8 → List UInt8)
    (r : Rect) (shm : List UInt8) : Option (List UInt8) :=
  r.scan (fun x y shm => do
    let sp ← load c.shadow (y * (c.w.toNat * 2) + x * 2) 2
    let lo ← sp[0]?
    let hi ← sp[1]?
    store shm (y * c.stride.toNat + x * k) (conv lo hi)) shm

/-- `blit_rect_to_shm`: the shm afterwards. -/
def blitRectToShm (c : Connection) (r : Rect) : Option (List UInt8) :=
  let r := r.clamp c.width c.height
  if r.w ≤ 0 ∨ r.h ≤ 0 then some c.shm
  else match conversion c with
  | some (k, conv) => convertRows c k conv r c.shm
  | none => some c.shm

/-! ## §4  What the blit computes -/

/-- The geometry and buffers a server announces and the client maps. -/
structure Announced (c : Connection) : Prop where
  w_lt : c.w.toNat < 2 ^ 31
  h_lt : c.h.toNat < 2 ^ 31
  shadow_length : (c.shadow.length : ℤ) = c.w.toNat * 2 * c.h.toNat
  shm_length : (c.shm.length : ℤ) = c.stride.toNat * c.h.toNat
  /-- One of the three formats, with a stride that holds its rows. -/
  format : ∃ k conv, conversion c = some (k, conv) ∧
    c.w.toNat * k ≤ c.stride.toNat

/-- The shm holds the conversion of the shadow pixel at `p`. -/
def Converted (c : Connection) (shm : List UInt8) (p : ℤ × ℤ) : Prop :=
  ∃ k conv lo hi, conversion c = some (k, conv) ∧
    cell c.shadow (c.w.toNat * 2) 2 p.1 p.2 = some [lo, hi] ∧
    cell shm c.stride.toNat k p.1 p.2 = some (conv lo hi)

section Spec

variable {c : Connection} {shm₀ shm : List UInt8}

theorem Announced.width_eq (h : Announced c) : c.width = c.w.toNat := by
  have hlt := h.w_lt
  unfold Connection.width toInt
  rw [int32_eq (by omega) (by omega)]

theorem Announced.height_eq (h : Announced c) : c.height = c.h.toNat := by
  have hlt := h.h_lt
  unfold Connection.height toInt
  rw [int32_eq (by omega) (by omega)]

theorem Announced.row (h : Announced c) {k : ℕ}
    {conv : UInt8 → UInt8 → List UInt8} (hk : conversion c = some (k, conv))
    {x : ℤ} (hx : x < c.w.toNat) : (x + 1) * (k : ℤ) ≤ c.stride.toNat := by
  obtain ⟨k', conv', hk', hstride⟩ := h.format
  obtain ⟨rfl, rfl⟩ := Prod.mk.inj (Option.some.inj (hk'.symm.trans hk))
  have hrow : (x + 1) * (k' : ℤ) ≤ c.w.toNat * k' :=
    mul_le_mul_of_nonneg_right (by omega) (by omega)
  exact hrow.trans (by exact_mod_cast hstride)

/-- The progress of a conversion that started from `shm₀`: the pixels in `S`
are converted, and no byte outside their cells has changed. -/
structure Progress (c : Connection) (shm₀ : List UInt8)
    (S : ℤ × ℤ → Prop) (shm : List UInt8) : Prop where
  length : shm.length = shm₀.length
  done : ∀ p, S p → Converted c shm p
  kept : ∀ i : ℕ, (∀ k conv p, conversion c = some (k, conv) → S p →
      ¬ (p.2 * c.stride.toNat + p.1 * k ≤ i ∧
        i < p.2 * c.stride.toNat + p.1 * k + k)) →
    shm[i]? = shm₀[i]?

theorem Progress.congr {S S' : ℤ × ℤ → Prop} (h : Progress c shm₀ S shm)
    (hS : ∀ p, S p ↔ S' p) : Progress c shm₀ S' shm where
  length := h.length
  done := fun p hp => h.done p ((hS p).mpr hp)
  kept := fun i hi => h.kept i fun k conv p hk hp => hi k conv p hk ((hS p).mp hp)

theorem Progress.start (c : Connection) (shm : List UInt8) :
    Progress c shm (fun _ => False) shm :=
  ⟨rfl, fun _ h => h.elim, fun _ _ => rfl⟩

/-- Two bytes of a loaded pixel. -/
theorem load_two {b sp : List UInt8} {o : ℤ} (h : load b o 2 = some sp) :
    ∃ lo hi, sp = [lo, hi] := by
  have hlen := load_length h
  match sp, hlen with
  | [lo, hi], _ => exact ⟨lo, hi, rfl⟩

theorem Converted.of_store {k : ℕ} {conv : UInt8 → UInt8 → List UInt8} {p : ℤ × ℤ}
    {lo hi : UInt8} {shm' : List UInt8} (hconv : conversion c = some (k, conv))
    (hsp : load c.shadow (p.2 * (c.w.toNat * 2) + p.1 * 2) 2 = some [lo, hi])
    (hst : store shm (p.2 * c.stride.toNat + p.1 * k) (conv lo hi) = some shm') :
    Converted c shm' p := by
  refine ⟨k, conv, lo, hi, hconv, hsp, ?_⟩
  rw [← load_store_same hst, conversion_length hconv]
  rfl

/-- The store of a pixel leaves the others converted. -/
theorem Converted.store_other {k : ℕ} {conv : UInt8 → UInt8 → List UInt8} {p p' : ℤ × ℤ}
    {lo hi : UInt8} {shm' : List UInt8} (h : Converted c shm p') (hA : Announced c)
    (hconv : conversion c = some (k, conv)) (hp : p ∈ Rect.full c.w.toNat c.h.toNat)
    (hp' : p' ∈ Rect.full c.w.toNat c.h.toNat) (hne : p' ≠ p)
    (hst : store shm (p.2 * c.stride.toNat + p.1 * k) (conv lo hi) = some shm') :
    Converted c shm' p' := by
  obtain ⟨k', conv', lo', hi', hc', hs', hd'⟩ := h
  obtain ⟨rfl, rfl⟩ := Prod.mk.inj (Option.some.inj (hc'.symm.trans hconv))
  refine ⟨_, _, lo', hi', hc', hs', ?_⟩
  obtain ⟨hx0, hx1, -, -⟩ := Rect.mem_full.mp hp
  obtain ⟨hx0', hx1', -, -⟩ := Rect.mem_full.mp hp'
  rw [← hd']
  apply cell_store_other (n := 1) hst (by rw [conversion_length hconv, one_mul]) hx0
    (hA.row hconv hx1) hx0' (hA.row hconv hx1')
  rintro ⟨hrow, hleft, hright⟩
  exact hne (Prod.ext (le_antisymm (Int.lt_add_one_iff.mp hright) hleft) hrow)

/-- One iteration converts one pixel. -/
theorem Progress.pixel {S : ℤ × ℤ → Prop} {k : ℕ}
    {conv : UInt8 → UInt8 → List UInt8} (hA : Announced c)
    (hlen : (shm₀.length : ℤ) = c.stride.toNat * c.h.toNat)
    (hconv : conversion c = some (k, conv))
    (hI : Progress c shm₀ S shm)
    (hS : ∀ p, S p → p ∈ Rect.full c.w.toNat c.h.toNat) {p : ℤ × ℤ}
    (hp : p ∈ Rect.full c.w.toNat c.h.toNat) :
    ∃ shm', (do
      let sp ← load c.shadow (p.2 * (c.w.toNat * 2) + p.1 * 2) 2
      let lo ← sp[0]?
      let hi ← sp[1]?
      store shm (p.2 * c.stride.toNat + p.1 * k) (conv lo hi)) = some shm' ∧
      Progress c shm₀ (fun p' => S p' ∨ p' = p) shm' := by
  obtain ⟨k', conv', hconv', hstride⟩ := hA.format
  obtain ⟨rfl, rfl⟩ := Prod.mk.inj (Option.some.inj (hconv'.symm.trans hconv))
  obtain ⟨hx0, hx1, hy0, hy1⟩ := Rect.mem_full.mp hp
  have hsrc := cell_isSome (k := 2) hA.shadow_length le_rfl hx0 hx1 hy0 hy1
  have hdst := cell_isSome (b := shm) (k := k') (by rw [hI.length]; exact hlen)
    (by exact_mod_cast hstride) hx0 hx1 hy0 hy1
  obtain ⟨sp, hsp⟩ := load_isSome hsrc.1 hsrc.2
  obtain ⟨lo, hi, rfl⟩ := load_two hsp
  have hcl := conversion_length hconv lo hi
  have hend : p.2 * (c.stride.toNat : ℤ) + p.1 * k' + (conv' lo hi).length
      ≤ shm.length := by
    rw [hcl]
    exact hdst.2
  obtain ⟨shm', hst⟩ := store_isSome hdst.1 hend
  refine ⟨shm', ?_, (store_length hst).trans hI.length, ?_, ?_⟩
  · have e : load c.shadow (p.2 * (c.w.toNat * 2) + p.1 * 2) 2 = some [lo, hi] :=
      hsp
    rw [e]
    exact hst
  · intro p' hp'
    by_cases he : p' = p
    · rw [he]
      exact Converted.of_store hconv hsp hst
    · have hS' : S p' := hp'.resolve_right he
      exact (hI.done p' hS').store_other hA hconv hp (hS p' hS') he hst
  · intro i hi
    have hnot := hi k' conv' p hconv (Or.inr rfl)
    rw [getElem?_store hst, if_neg (by rw [hcl]; exact hnot)]
    exact hI.kept i fun k conv p hk hp => hi k conv p hk (Or.inl hp)

/-- A converted pixel stays converted. -/
theorem Progress.converted {S : ℤ × ℤ → Prop} {p : ℤ × ℤ}
    (h : Progress c shm₀ S shm) (hA : Announced c)
    (hp : p ∈ Rect.full c.w.toNat c.h.toNat)
    (hS : ∀ q, S q → q ∈ Rect.full c.w.toNat c.h.toNat)
    (hc : Converted c shm₀ p) : Converted c shm p := by
  by_cases hSp : S p
  · exact h.done p hSp
  obtain ⟨k, conv, lo, hi, hk, hs, hm⟩ := hc
  refine ⟨k, conv, lo, hi, hk, hs, ?_⟩
  rw [← hm]
  apply load_congr h.length
  intro i h1 h2
  apply h.kept i
  intro k' conv' q hk' hq
  obtain ⟨rfl, rfl⟩ := Prod.mk.inj (Option.some.inj (hk'.symm.trans hk))
  have hne : ¬ (p.2 = q.2 ∧ q.1 ≤ p.1 ∧ p.1 < q.1 + (1 : ℕ)) := by
    rintro ⟨e1, e2, e3⟩
    apply hSp
    have e : p = q := Prod.ext (by push_cast at e3; omega) e1
    rw [e]
    exact hq
  obtain ⟨hx0, hx1, -, -⟩ := Rect.mem_full.mp hp
  obtain ⟨hx0', hx1', -, -⟩ := Rect.mem_full.mp (hS q hq)
  have hd := cell_disjoint (n := 1) hx0' (by push_cast; exact hA.row hk' hx1')
    hx0 (hA.row hk' hx1) hne
  push_cast at hd
  omega

theorem convertRows_progress {k : ℕ} {conv : UInt8 → UInt8 → List UInt8}
    {r : Rect} (hA : Announced c)
    (hlen : (shm₀.length : ℤ) = c.stride.toNat * c.h.toNat)
    (hconv : conversion c = some (k, conv))
    (hr : ∀ p ∈ r, p ∈ Rect.full c.w.toNat c.h.toNat) :
    ∃ shm, convertRows c k conv r shm₀ = some shm ∧
      Progress c shm₀ (· ∈ r) shm := by
  apply Rect.scan_inv (Progress c shm₀)
  · intro S S' shm hS h
    exact h.congr hS
  · exact Progress.start c shm₀
  · intro S shm p hp hS h
    exact h.pixel hA hlen hconv (fun q hq => hr q (hS q hq)) (hr p hp)

/-- **`blit_rect_to_shm` converts the clipped rectangle**, in bounds, and
leaves every other byte of the shm as it was. -/
theorem blitRectToShm_spec (hA : Announced c) (r : Rect) :
    ∃ shm, blitRectToShm c r = some shm ∧
      Progress c c.shm
        (fun p => p ∈ r ∧ p ∈ Rect.full c.w.toNat c.h.toNat) shm := by
  have hmem : ∀ p, p ∈ r.clamp c.width c.height ↔
      p ∈ r ∧ p ∈ Rect.full c.w.toNat c.h.toNat := by
    intro p
    rw [← hA.width_eq, ← hA.height_eq]
    exact Rect.mem_clamp
  obtain ⟨k, conv, hconv, -⟩ := hA.format
  unfold blitRectToShm
  simp only [hconv]
  by_cases hemp : (r.clamp c.width c.height).w ≤ 0 ∨
      (r.clamp c.width c.height).h ≤ 0
  · refine ⟨c.shm, if_pos hemp, (Progress.start c c.shm).congr fun p => ?_⟩
    constructor
    · exact False.elim
    · intro hp
      have := (hmem p).mpr hp
      rw [Rect.mem_iff] at this
      omega
  · obtain ⟨shm, hrun, hP⟩ := convertRows_progress hA hA.shm_length hconv
      fun p hp => ((hmem p).mp hp).2
    exact ⟨shm, by rw [if_neg hemp]; exact hrun, hP.congr hmem⟩

end Spec

end Rmcast.Vncast
