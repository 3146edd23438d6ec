import Rmcast.Qtfb.Server
import Rmcast.Session.Main
import Rmcast.Vncast.Client

/-!
# The handshake

`Server::start` fixes the geometry and the format of the shared picture,
`HELLO_ACK` carries them over, and `handshake` maps the picture and allocates
the shadow. What comes out is a connection with buffers of the right sizes
(`announced_of_handshake`), so the conversion loops stay inside them whatever
the buffers hold. What they write there is computed with shifts and masks; §3
says in terms of the channels of a pixel what that is.
-/

namespace Rmcast.Qtfb

open Word

/-! ## §1  The server starts -/

/-- `DeviceInfo`, as far as the picture goes. -/
structure DeviceInfo where
  fbWidth : ℤ
  fbHeight : ℤ
  fbStride : ℤ
  fbBpp : ℤ
  int : ∀ v ∈ [fbWidth, fbHeight, fbStride, fbBpp], -2 ^ 31 ≤ v ∧ v < 2 ^ 31

/-- What the system answers. -/
structure System where
  /-- `shm_open`, `ftruncate` and `mmap` for that many bytes. -/
  maps : ℕ → Bool
  /-- `QLocalServer::listen`. -/
  listens : Bool

/-- `allocShm`: the picture is filled with white. -/
def allocShm (sys : System) (bytes : ℕ) : Option (List UInt8) :=
  if sys.maps bytes then some (List.replicate bytes 0xFF) else none

/-- `static_cast<size_t>(m_stride) * m_h`. -/
def shmBytes (stride h : ℤ) : ℕ := ((stride * h) % 2 ^ 64).toNat

/-- Stride, bits per pixel and format of the shared picture. -/
def shmFormat (info : DeviceInfo) (useGrayscaleShm : Bool) : ℤ × UInt32 × UInt32 :=
  if useGrayscaleShm then (info.fbWidth, 8, 2)
  else (info.fbStride, ofInt info.fbBpp, if ofInt info.fbBpp = 16 then 0 else 1)

/-- `Server::start` of a server that does not listen yet: the server and the
shared picture. -/
def start (sys : System) (info : DeviceInfo) (useGrayscaleShm : Bool)
    (shmName : List UInt8) : Option (Server × List UInt8) := do
  let f := shmFormat info useGrayscaleShm
  let shm ← allocShm sys (shmBytes f.1 info.fbHeight)
  if sys.listens then
    some ({
      socket := none
      w := info.fbWidth
      h := info.fbHeight
      stride := f.1
      bpp := f.2.1
      format := f.2.2
      shmName := shmName }, shm)
  else none

/-- Bytes of a pixel in each of the three formats. -/
def bytesPerPixel (format : UInt32) : Option ℕ :=
  if format = 1 then some 4
  else if format = 2 then some 1
  else if format = 0 then some 2
  else none

/-- An announced geometry: the rows fit the stride, and the picture fits the
client's 32-bit product. -/
structure HelloAckS2C.Fits (ack : HelloAckS2C) : Prop where
  row : ∀ k, bytesPerPixel ack.format = some k → ack.w.toNat * k ≤ ack.stride.toNat
  size : ack.stride.toNat * ack.h.toNat < 2 ^ 32

/-- What a server that has started knows. -/
structure Started (s : Server) (shm : List UInt8) : Prop where
  stride_int : -2 ^ 31 ≤ s.stride ∧ s.stride < 2 ^ 31
  h_int : -2 ^ 31 ≤ s.h ∧ s.h < 2 ^ 31
  format : s.format = 0 ∨ s.format = 1 ∨ s.format = 2
  length : shm.length = shmBytes s.stride s.h
  length_pos : 0 < shm.length
  length_lt : shm.length < 2 ^ 63

theorem shmFormat_cases (info : DeviceInfo) (useGrayscaleShm : Bool) :
    (-2 ^ 31 ≤ (shmFormat info useGrayscaleShm).1 ∧
      (shmFormat info useGrayscaleShm).1 < 2 ^ 31) ∧
    ((shmFormat info useGrayscaleShm).2.2 = 0 ∨ (shmFormat info useGrayscaleShm).2.2 = 1 ∨
      (shmFormat info useGrayscaleShm).2.2 = 2) := by
  have hw := info.int info.fbWidth (by simp)
  have hstride := info.int info.fbStride (by simp)
  unfold shmFormat
  split
  · exact ⟨hw, Or.inr (Or.inr rfl)⟩
  · refine ⟨hstride, ?_⟩
    show (if _ then _ else _) = _ ∨ _
    split
    · exact Or.inl rfl
    · exact Or.inr (Or.inl rfl)

theorem started_of_start {sys : System} {info : DeviceInfo} {useGrayscaleShm : Bool}
    {shmName shm : List UInt8} {s : Server}
    (hmaps : ∀ n, sys.maps n → 0 < n ∧ n < 2 ^ 63)
    (h : start sys info useGrayscaleShm shmName = some (s, shm)) : Started s shm := by
  obtain ⟨hstride, hformat⟩ := shmFormat_cases info useGrayscaleShm
  unfold start at h
  obtain ⟨shm', halloc, h⟩ := Option.bind_eq_some_iff.mp h
  unfold allocShm at halloc
  split at halloc
  · next hm =>
      obtain rfl := Option.some.inj halloc
      obtain ⟨hpos, hlt⟩ := hmaps _ hm
      split at h
      · obtain ⟨rfl, rfl⟩ := Prod.mk.inj (Option.some.inj h)
        refine ⟨hstride, info.int _ (by simp), hformat, List.length_replicate, ?_, ?_⟩
        · rw [List.length_replicate]
          exact hpos
        · rw [List.length_replicate]
          exact hlt
      · cases h
  · cases halloc

/-- The picture has rows and columns, and no more than its bytes. -/
theorem Started.positive {s : Server} {shm : List UInt8} (hs : Started s shm)
    (hsize : (ofInt s.stride).toNat * (ofInt s.h).toNat < 2 ^ 32) :
    0 < s.stride ∧ 0 < s.h := by
  have hpos := hs.length_pos
  have hlt := hs.length_lt
  obtain ⟨hlo, hhi⟩ := mul_bounds hs.stride_int hs.h_int
  rw [hs.length] at hpos hlt
  unfold shmBytes at hpos hlt
  -- a negative product would be a size no mapping has
  have hprod : 0 < s.stride * s.h := by
    by_contra hneg
    omega
  rcases mul_pos_iff.mp hprod with h | ⟨h1, h2⟩
  · exact h
  · exfalso
    have hbig : 2 ^ 31 * 2 ^ 31 ≤ (ofInt s.stride).toNat * (ofInt s.h).toNat :=
      Nat.mul_le_mul (toNat_ofInt_of_neg hs.stride_int.1 h1) (toNat_ofInt_of_neg hs.h_int.1 h2)
    omega

/-- The picture has the announced size. -/
theorem Started.length_eq {s : Server} {shm : List UInt8} (hs : Started s shm)
    (hsize : (ofInt s.stride).toNat * (ofInt s.h).toNat < 2 ^ 32) :
    shm.length = (ofInt s.stride).toNat * (ofInt s.h).toNat := by
  obtain ⟨hstride, hh⟩ := hs.positive hsize
  obtain ⟨hlo, hhi⟩ := mul_bounds hs.stride_int hs.h_int
  have hint := hs.stride_int.2
  have hint' := hs.h_int.2
  have hprod := mul_pos hstride hh
  rw [hs.length, toNat_ofInt_of_nonneg hstride.le (by omega),
    toNat_ofInt_of_nonneg hh.le (by omega), ← Int.toNat_mul hstride.le hh.le]
  unfold shmBytes
  rw [Int.emod_eq_of_lt hprod.le (by omega)]

end Rmcast.Qtfb

namespace Rmcast.Vncast

open Mem Word Session Qtfb

/-! ## §2  The client connects -/

/-- `strtol` in base 10, on a 64-bit `long`. -/
def strtol (s : List Char) : ℤ :=
  let s := s.dropWhile isSpace
  let (neg, s) := match s with
    | '-' :: s => (true, s)
    | '+' :: s => (false, s)
    | s => (false, s)
  let ds := s.takeWhile Char.isDigit
  let n : ℤ := if neg then -decimal ds else decimal ds
  max (-2 ^ 63) (min n (2 ^ 63 - 1))

/-- `fps_cap`, from `$VNCAST_FPS`. -/
def fpsCap (env : Environ) : UInt32 :=
  match env "VNCAST_FPS".toList with
  | none => 0
  | some v => if strtol v > 0 ∧ strtol v ≤ 120 then ofInt (strtol v) else 0

/-- `m_force_grayscale`: the explicit override wins over the waveform. -/
def forceGrayscale (env : Environ) : Bool :=
  match env "VNCAST_FORCE_GRAYSCALE".toList with
  | some v => v.head? = some '1'
  | none => match env "VNCAST_WAVEFORM".toList with
    | some v => v = "A2".toList || v = "DU".toList
    | none => false

/-- `open_shm`: an empty mapping fails, and a page that is not in the file is
not there. -/
def openShm (file : List UInt8) (bytes : UInt32) : Option (List UInt8) :=
  if bytes = 0 then none else some (file.take bytes.toNat)

/-- `handshake`, once the reply is read. -/
def handshake (env : Environ) (ack : HelloAckS2C) (file : List UInt8) :
    Option Connection :=
  if ack.accepted = 0 then none
  else do
    let shm ← openShm file (ack.stride * ack.h)
    return {
      w := ack.w
      h := ack.h
      stride := ack.stride
      bpp := ack.bpp
      format := ack.format
      shm := shm
      shadow := List.replicate (ack.w.toNat * ack.h.toNat * 2 % 2 ^ 64) 0
      forceGrayscale := forceGrayscale env }

/-- The geometry of a connection, as the reply has it. -/
theorem handshake_eq {env : Environ} {ack : HelloAckS2C} {file : List UInt8}
    {c : Connection} (h : handshake env ack file = some c) :
    c.w = ack.w ∧ c.h = ack.h ∧ c.stride = ack.stride ∧ c.format = ack.format ∧
      c.shm = file.take (ack.stride * ack.h).toNat ∧
      c.shadow = List.replicate (ack.w.toNat * ack.h.toNat * 2 % 2 ^ 64) 0 := by
  unfold handshake openShm at h
  split at h
  · cases h
  · split at h
    · cases h
    · obtain rfl := Option.some.inj h
      exact ⟨rfl, rfl, rfl, rfl, rfl, rfl⟩

/-- The conversion of a format reads its number of bytes. -/
theorem conversion_of_bytesPerPixel {c : Connection}
    (h : c.format = 0 ∨ c.format = 1 ∨ c.format = 2) :
    ∃ k conv, conversion c = some (k, conv) ∧ bytesPerPixel c.format = some k ∧
      0 < k := by
  unfold conversion bytesPerPixel
  rcases h with h | h | h
  · rw [h]
    exact ⟨2, toGrayscale16, rfl, rfl, by decide⟩
  · rw [h]
    exact ⟨4, toRgba8888 c.forceGrayscale, rfl, rfl, by decide⟩
  · rw [h]
    exact ⟨1, toGrayscale8, rfl, rfl, by decide⟩

theorem bytesPerPixel_of_conversion {c : Connection} {k : ℕ}
    {conv : UInt8 → UInt8 → List UInt8} (h : conversion c = some (k, conv)) :
    bytesPerPixel c.format = some k := by
  unfold conversion at h
  unfold bytesPerPixel
  split_ifs at h ⊢ <;> rw [(Prod.mk.inj (Option.some.inj h)).1]

/-- The announced stride and height are `int`s that are not negative. -/
theorem started_ack_lt {s : Server} {file : List UInt8} {m : HelloC2S} (hs : Started s file)
    (hfits : (handleHello s m).2.1.Fits) :
    (handleHello s m).2.1.stride.toNat < 2 ^ 31 ∧ (handleHello s m).2.1.h.toNat < 2 ^ 31 := by
  obtain ⟨hpos, hpos'⟩ := hs.positive hfits.size
  have hint := hs.stride_int.2
  have hint' := hs.h_int.2
  constructor
  · show (ofInt s.stride).toNat < _
    rw [toNat_ofInt_of_nonneg hpos.le (by omega)]
    omega
  · show (ofInt s.h).toNat < _
    rw [toNat_ofInt_of_nonneg hpos'.le (by omega)]
    omega

/-- **What the handshake ends with**: buffers of the announced sizes. -/
theorem announced_of_handshake {s : Server} {file : List UInt8} {env : Environ}
    {m : HelloC2S} {c : Connection} (hs : Started s file)
    (hfits : (handleHello s m).2.1.Fits)
    (h : handshake env (handleHello s m).2.1 file = some c) : Announced c := by
  obtain ⟨hw, hh, hstride, hformat, hshm, hshadow⟩ := handshake_eq h
  have hsize := hfits.size
  obtain ⟨hS, hH⟩ := started_ack_lt hs hfits
  obtain ⟨k, conv, hconv, hk, hkpos⟩ := conversion_of_bytesPerPixel (c := c) (by
    rw [hformat]
    exact hs.format)
  have hrow := hfits.row k (by rw [← hformat]; exact hk)
  have hwk : (handleHello s m).2.1.w.toNat ≤ (handleHello s m).2.1.w.toNat * k :=
    Nat.le_mul_of_pos_right _ hkpos
  have hW : (handleHello s m).2.1.w.toNat < 2 ^ 31 := hwk.trans_lt (hrow.trans_lt hS)
  have hpixels : (handleHello s m).2.1.w.toNat * (handleHello s m).2.1.h.toNat < 2 ^ 32 :=
    (Nat.mul_le_mul_right _ (hwk.trans hrow)).trans_lt hsize
  refine ⟨hw ▸ hW, hh ▸ hH, ?_, ?_, k, conv, hconv, ?_⟩
  · rw [hshadow, List.length_replicate, hw, hh, Nat.mod_eq_of_lt (by omega)]
    push_cast
    ring
  · have hlen : file.length =
        (handleHello s m).2.1.stride.toNat * (handleHello s m).2.1.h.toNat :=
      hs.length_eq hsize
    rw [hshm, UInt32.toNat_mul, Nat.mod_eq_of_lt hsize, ← hlen, List.take_length, hlen,
      hstride, hh]
    push_cast
    rfl
  · rw [hw, hstride]
    exact hrow

/-! ## §3  The three formats -/

/-- A value of `n` bits as a byte: its bits, and below them its upper bits once
more. -/
def replicated (n v : ℕ) : ℕ := v * 2 ^ (8 - n) + v / 2 ^ (2 * n - 8)

/-- The two shifts of the source fill disjoint bits. -/
theorem expand_eq {n v : ℕ} (hn : 4 ≤ n) (hn' : n ≤ 8) (h : v < 2 ^ n) :
    (v <<< (8 - n) ||| v >>> (2 * n - 8)) = replicated n v := by
  have hpow : 2 ^ n = 2 ^ (8 - n) * 2 ^ (2 * n - 8) := by
    rw [← Nat.pow_add]
    congr 1
    omega
  have hlow : v / 2 ^ (2 * n - 8) < 2 ^ (8 - n) :=
    Nat.div_lt_of_lt_mul (by rw [mul_comm, ← hpow]; exact h)
  unfold replicated
  rw [Nat.shiftRight_eq_div_pow, ← Nat.shiftLeft_add_eq_or_of_lt hlow, Nat.shiftLeft_eq]

/-- A channel keeps its share of the full value, to less than one step: `v` of
`2 ^ n - 1` becomes `replicated n v` of 255. -/
theorem replicated_scale {n v : ℕ} (hn : n = 5 ∨ n = 6) (h : v < 2 ^ n) :
    255 * v < (2 ^ n - 1) * (replicated n v + 1) ∧
      (2 ^ n - 1) * replicated n v < 255 * v + (2 ^ n - 1) := by
  unfold replicated
  rcases hn with rfl | rfl
  · omega
  · omega

theorem replicated_lt {n v : ℕ} (hn : n = 5 ∨ n = 6) (h : v < 2 ^ n) :
    replicated n v < 2 ^ 8 := by
  unfold replicated
  rcases hn with rfl | rfl
  · omega
  · omega

/-- The components of a pixel are its three channels, replicated. They fit in
a byte, so the width of the variables they are computed in does not matter. -/
theorem components_eq {bits : ℕ} (hbits : 8 ≤ bits) {lo hi : UInt8} {r g b : ℕ}
    (hr : r < 2 ^ 5) (hg : g < 2 ^ 6) (hb : b < 2 ^ 5)
    (hpx : lo.toNat + 2 ^ 8 * hi.toNat = r * 2 ^ 11 + g * 2 ^ 5 + b) :
    components bits lo hi = (replicated 5 r, replicated 6 g, replicated 5 b) := by
  have hpow : 2 ^ 8 ≤ 2 ^ bits := Nat.pow_le_pow_right (by decide) hbits
  have hword : (lo.toNat ||| hi.toNat <<< 8) = r * 2 ^ 11 + g * 2 ^ 5 + b := by
    rw [Nat.or_comm, ← Nat.shiftLeft_add_eq_or_of_lt lo.toNat_lt, Nat.shiftLeft_eq, ← hpx]
    omega
  have hred : ((r * 2 ^ 11 + g * 2 ^ 5 + b) >>> 11 &&& 0x1F) = r := by
    rw [Nat.shiftRight_eq_div_pow, show (0x1F : ℕ) = 2 ^ 5 - 1 from rfl,
      Nat.and_two_pow_sub_one_eq_mod]
    omega
  have hgreen : ((r * 2 ^ 11 + g * 2 ^ 5 + b) >>> 5 &&& 0x3F) = g := by
    rw [Nat.shiftRight_eq_div_pow, show (0x3F : ℕ) = 2 ^ 6 - 1 from rfl,
      Nat.and_two_pow_sub_one_eq_mod]
    omega
  have hblue : (r * 2 ^ 11 + g * 2 ^ 5 + b &&& 0x1F) = b := by
    rw [show (0x1F : ℕ) = 2 ^ 5 - 1 from rfl, Nat.and_two_pow_sub_one_eq_mod]
    omega
  have hmod : ∀ {n v}, n = 5 ∨ n = 6 → v < 2 ^ n →
      replicated n v % 2 ^ bits = replicated n v := fun hn hv =>
    Nat.mod_eq_of_lt ((replicated_lt hn hv).trans_le hpow)
  unfold components
  rw [hword]
  simp only [hred, hgreen, hblue]
  rw [expand_eq (n := 5) (by decide) (by decide) hr, expand_eq (n := 6) (by decide) (by decide) hg,
    expand_eq (n := 5) (by decide) (by decide) hb, hmod (Or.inl rfl) hr, hmod (Or.inr rfl) hg,
    hmod (Or.inl rfl) hb]

/-- White, red and green. -/
example : components 8 0xFF 0xFF = (255, 255, 255) ∧ components 8 0x00 0xF8 = (255, 0, 0) ∧
    components 8 0xE0 0x07 = (0, 255, 0) := by
  decide

/-- Every pair of bytes is a pixel. -/
theorem channels (lo hi : UInt8) : ∃ r < 2 ^ 5, ∃ g < 2 ^ 6, ∃ b < 2 ^ 5,
    lo.toNat + 2 ^ 8 * hi.toNat = r * 2 ^ 11 + g * 2 ^ 5 + b := by
  have hlo := lo.toNat_lt
  have hhi := hi.toNat_lt
  obtain ⟨px, hpx⟩ : ∃ px, px = lo.toNat + 2 ^ 8 * hi.toNat := ⟨_, rfl⟩
  refine ⟨px / 2 ^ 11, ?_, px / 2 ^ 5 % 2 ^ 6, ?_, px % 2 ^ 5, ?_, ?_⟩
  · omega
  · omega
  · omega
  · omega

/-- The weights sum up to 100. -/
theorem luma_lt {c : ℕ × ℕ × ℕ} (hr : c.1 < 2 ^ 8) (hg : c.2.1 < 2 ^ 8) (hb : c.2.2 < 2 ^ 8) :
    luma c < 2 ^ 8 := by
  unfold luma
  omega

/-- **What the conversion yields** of a pixel with the channels `r`, `g` and
`b`: each of them expanded to a byte, or the whole part of their weighted
mean. -/
theorem converted_channels {lo hi : UInt8} {r g b : ℕ} (hr : r < 2 ^ 5) (hg : g < 2 ^ 6)
    (hb : b < 2 ^ 5) (hpx : lo.toNat + 2 ^ 8 * hi.toNat = r * 2 ^ 11 + g * 2 ^ 5 + b) :
    (toRgba8888 false lo hi).map UInt8.toNat
        = [replicated 5 r, replicated 6 g, replicated 5 b, 255] ∧
      (toGrayscale8 lo hi).map UInt8.toNat
        = [(replicated 5 r * 30 + replicated 6 g * 59 + replicated 5 b * 11) / 100] := by
  have hR := replicated_lt (Or.inl rfl) hr
  have hG := replicated_lt (Or.inr rfl) hg
  have hB := replicated_lt (Or.inl rfl) hb
  have hY := luma_lt (c := (replicated 5 r, replicated 6 g, replicated 5 b)) hR hG hB
  unfold toRgba8888 toGrayscale8
  rw [components_eq le_rfl hr hg hb hpx]
  constructor
  · simp only [Bool.false_eq_true, if_false, List.map_cons, List.map_nil, UInt8.toNat_ofNat',
      Nat.mod_eq_of_lt hR, Nat.mod_eq_of_lt hG, Nat.mod_eq_of_lt hB]
    rfl
  · rw [List.map_singleton, UInt8.toNat_ofNat', Nat.mod_eq_of_lt hY]
    rfl

/-- The luma of a pixel fits in a byte, whatever the variables. -/
theorem luma_components (lo hi : UInt8) :
    luma (components 16 lo hi) = luma (components 8 lo hi) ∧
      luma (components 8 lo hi) < 2 ^ 8 := by
  obtain ⟨r, hr, g, hg, b, hb, hpx⟩ := channels lo hi
  rw [components_eq le_rfl hr hg hb hpx, components_eq (by decide) hr hg hb hpx]
  exact ⟨rfl, luma_lt (replicated_lt (Or.inl rfl) hr) (replicated_lt (Or.inr rfl) hg)
    (replicated_lt (Or.inl rfl) hb)⟩

/-- The formats show one luma: the byte of Grayscale8, 257 times it as the word
of Grayscale16, and it three times where RGBA is forced to gray. -/
def SameLuma (lo hi : UInt8) : Prop :=
  ∃ y b0 b1 : UInt8, toGrayscale8 lo hi = [y] ∧
    toGrayscale16 lo hi = [b0, b1] ∧ b0.toNat + 2 ^ 8 * b1.toNat = 257 * y.toNat ∧
    toRgba8888 true lo hi = [y, y, y, 0xFF]

theorem sameLuma (lo hi : UInt8) : SameLuma lo hi := by
  obtain ⟨heq, hlt⟩ := luma_components lo hi
  have hy : (UInt8.ofNat (luma (components 8 lo hi))).toNat = luma (components 8 lo hi) := by
    rw [UInt8.toNat_ofNat', Nat.mod_eq_of_lt hlt]
  have h16 : luma (components 16 lo hi) % 2 ^ 16 * 257 % 2 ^ 16
      = 257 * luma (components 8 lo hi) := by
    rw [heq]
    omega
  refine ⟨_, _, _, rfl, rfl, ?_, rfl⟩
  rw [h16, hy, UInt8.toNat_ofNat', UInt8.toNat_ofNat', Nat.shiftRight_eq_div_pow,
    show (0xFF : ℕ) = 2 ^ 8 - 1 from rfl, Nat.and_two_pow_sub_one_eq_mod]
  have hhigh : 257 * luma (components 8 lo hi) / 2 ^ 8 < 2 ^ 8 := by omega
  rw [Nat.mod_mod, Nat.mod_eq_of_lt hhigh, Nat.mod_add_div]

/-! ## §4  The blit of a connected client -/

theorem announced_lengths {c : Connection} (h : Announced c) :
    c.shadow.length = c.w.toNat * c.h.toNat * 2 ∧
      c.shm.length = c.stride.toNat * c.h.toNat := by
  constructor
  · have e : (c.w.toNat : ℤ) * 2 * c.h.toNat = (c.w.toNat * c.h.toNat * 2 : ℕ) := by
      push_cast
      ring
    have hlen := h.shadow_length
    rw [e] at hlen
    exact_mod_cast hlen
  · exact_mod_cast h.shm_length

/-- Other buffers of the same sizes will do. -/
theorem announced_with {c : Connection} (h : Announced c) {shadow shm : List UInt8}
    (hshadow : shadow.length = c.shadow.length) (hshm : shm.length = c.shm.length) :
    Announced { c with shadow := shadow, shm := shm } := by
  refine ⟨h.w_lt, h.h_lt, ?_, ?_, h.format⟩
  · show (shadow.length : ℤ) = _
    rw [hshadow]
    exact h.shadow_length
  · show (shm.length : ℤ) = _
    rw [hshm]
    exact h.shm_length

/-- The shm after the conversion of the rectangle `r`. -/
structure Converts (c : Connection) (r : Rect) (shm : List UInt8) : Prop where
  length : shm.length = c.shm.length
  /-- The pixels of the rectangle, clipped to the picture, are converted. -/
  done : ∀ p ∈ r, p ∈ Rect.full c.w.toNat c.h.toNat → Converted c shm p
  /-- A byte of no such pixel, be it padding or not, is unchanged. -/
  kept : ∀ i : ℕ, (∀ k p, bytesPerPixel c.format = some k → p ∈ r →
      p ∈ Rect.full c.w.toNat c.h.toNat →
      ¬ (p.2 * c.stride.toNat + p.1 * k ≤ i ∧
        i < p.2 * c.stride.toNat + p.1 * k + k)) →
    shm[i]? = c.shm[i]?

/-- **`blit_rect_to_shm` converts exactly the requested region** of every
picture a server announces, and all its accesses are in bounds; the three
formats agree on luma. -/
theorem blitRectToShm_exact (sys : System) (hmaps : ∀ n, sys.maps n → 0 < n ∧ n < 2 ^ 63)
    (info : DeviceInfo) (useGrayscaleShm : Bool) (shmName : List UInt8)
    {file : List UInt8} {s : Server}
    (hstart : start sys info useGrayscaleShm shmName = some (s, file))
    (env : Environ) (m : HelloC2S) {c : Connection} (hfits : (handleHello s m).2.1.Fits)
    (hconn : handshake env (handleHello s m).2.1 file = some c)
    (shadow shm : List UInt8) (hshadow : shadow.length = c.w.toNat * c.h.toNat * 2)
    (hshm : shm.length = c.stride.toNat * c.h.toNat) (r : Rect) :
    (c.shadow.length = c.w.toNat * c.h.toNat * 2 ∧
      c.shm.length = c.stride.toNat * c.h.toNat) ∧
    (∃ shm', blitRectToShm { c with shadow := shadow, shm := shm } r = some shm' ∧
      Converts { c with shadow := shadow, shm := shm } r shm') ∧
    ∀ lo hi, SameLuma lo hi := by
  have hA := announced_of_handshake (started_of_start hmaps hstart) hfits hconn
  obtain ⟨hlen, hlen'⟩ := announced_lengths hA
  refine ⟨⟨hlen, hlen'⟩, ?_, sameLuma⟩
  have hA' := announced_with hA (hshadow.trans hlen.symm) (hshm.trans hlen'.symm)
  obtain ⟨shm', hblit, hP⟩ := blitRectToShm_spec hA' r
  refine ⟨shm', hblit, hP.length, fun p hp hfull => hP.done p ⟨hp, hfull⟩, ?_⟩
  intro i hi
  refine hP.kept i fun k conv p hk hp => hi k p ?_ hp.1 hp.2
  exact bytesPerPixel_of_conversion hk

/-- A picture of 3×2 pixels in RGBA, in rows of 16 bytes, and a rectangle that
reaches out of it. -/
theorem blitRectToShm_exact_rgba :
    ∃ s file c, start ⟨fun n => n = 32, true⟩ ⟨3, 2, 16, 32, by decide⟩ false []
        = some (s, file) ∧
      handshake (fun _ => none) (handleHello s (hello 0)).2.1 file = some c ∧
      ∃ shm', blitRectToShm { c with
            shadow := List.replicate 12 7
            shm := List.replicate 32 0 } ⟨-1, 1, 3, 9⟩ = some shm' ∧
        Converts { c with
            shadow := List.replicate 12 7
            shm := List.replicate 32 0 } ⟨-1, 1, 3, 9⟩ shm' := by
  refine ⟨_, _, _, rfl, rfl, ?_⟩
  refine (blitRectToShm_exact ⟨fun n => n = 32, true⟩ ?_ ⟨3, 2, 16, 32, by decide⟩ false []
    rfl (fun _ => none) (hello 0) ⟨?_, by decide⟩ rfl (List.replicate 12 7)
    (List.replicate 32 0) rfl rfl ⟨-1, 1, 3, 9⟩).2.1
  · intro n hn
    rw [of_decide_eq_true hn]
    decide
  · intro k hk
    obtain rfl : 4 = k := Option.some.inj hk
    decide

end Rmcast.Vncast
