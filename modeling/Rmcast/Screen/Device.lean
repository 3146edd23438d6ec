import Rmcast.Vncast.Client
import Rmcast.Screen.Blit

/-!
# The display device

`rmioc::screen` hides two framebuffer servers behind one RGB565 picture:
AppLoad's, whose shared memory vnsee paints into directly, and vncast's,
where it paints into a shadow that every update converts. AppLoad's client
library is not part of the repository; of it only what `rmioc::screen` reads
is here, and an update through it is a message that changes no pixel.
-/

namespace Rmcast.Screen

open Mem Vncast

/-! ## §1  The device -/

/-- The `REFRESH_MODE_*` constants. -/
inductive RefreshMode where
  | UI
  | FAST
  | ANIMATE
  | CONTENT
deriving DecidableEq, Repr

/-- AppLoad's `qtfb::ClientConnection`. -/
structure AppLoad where
  width : ℤ
  height : ℤ
  shm : List UInt8
  refreshMode : RefreshMode
deriving Repr

inductive Backend where
  | appload (q : AppLoad)
  | vncast (c : Connection)
deriving Repr

/-- `rmioc::screen`, with the rectangles it has announced so far. -/
structure Device where
  backend : Backend
  announced : List (Rect × RefreshMode) := []
deriving Repr

namespace Device

def getXres (d : Device) : ℤ :=
  match d.backend with
  | .appload q => q.width
  | .vncast c => c.width

def getYres (d : Device) : ℤ :=
  match d.backend with
  | .appload q => q.height
  | .vncast c => c.height

def getBitsPerPixel (_ : Device) : ℕ := 16

def isVncast (d : Device) : Bool :=
  match d.backend with
  | .appload _ => false
  | .vncast _ => true

def getData (d : Device) : List UInt8 :=
  match d.backend with
  | .appload q => q.shm
  | .vncast c => c.shadow

/-- The picture after writes through the pointer of `get_data`. -/
def setData (d : Device) (b : List UInt8) : Device :=
  match d.backend with
  | .appload q => { d with backend := .appload { q with shm := b } }
  | .vncast c => { d with backend := .vncast { c with shadow := b } }

/-- `rmioc::screen::update`. -/
def update (d : Device) (r : Rect) (mode : RefreshMode) : Option Device :=
  match d.backend with
  | .vncast c => do
      let (c, _) ← sendPartialUpdate c r
      return ⟨.vncast c, d.announced ++ [(r, mode)]⟩
  | .appload q =>
      -- the mode is sent on a change only
      let q := if q.refreshMode ≠ mode then { q with refreshMode := mode } else q
      some ⟨.appload q, d.announced ++ [(r, mode)]⟩

/-- `rmioc::screen::update_cursor`: the device and the message sent. -/
def updateCursor (d : Device) (x y : ℤ) (visible : Bool) :
    Device × Option Qtfb.CursorC2S :=
  match d.backend with
  | .appload _ => (d, none)
  | .vncast c =>
      let (c, m) := sendCursorPos c x y 64 64 visible
      ({ d with backend := .vncast c }, m)

/-! ## §2  What an update does -/

/-- The buffers have the sizes the device reports. -/
def Ready (d : Device) : Prop :=
  match d.backend with
  | .appload q => (q.shm.length : ℤ) = q.width * 2 * q.height
  | .vncast c => Announced c

/-- The picture the user sees holds the panel pixel at `p`: AppLoad shows the
panel buffer itself, vncast the converted pixel in the shm. -/
def Mirrored (d : Device) (p : ℤ × ℤ) : Prop :=
  match d.backend with
  | .appload _ => True
  | .vncast c => Converted c c.shm p

variable {d d' : Device} {p : ℤ × ℤ}

@[simp] theorem setData_getData (d : Device) (b : List UInt8) :
    (d.setData b).getData = b := by
  unfold setData getData
  cases d.backend <;> rfl

@[simp] theorem setData_getXres (d : Device) (b : List UInt8) :
    (d.setData b).getXres = d.getXres := by
  unfold setData getXres
  cases d.backend <;> rfl

@[simp] theorem setData_getYres (d : Device) (b : List UInt8) :
    (d.setData b).getYres = d.getYres := by
  unfold setData getYres
  cases d.backend <;> rfl

theorem Ready.data_length (h : d.Ready) :
    (d.getData.length : ℤ) = d.getXres * 2 * d.getYres := by
  unfold Ready at h
  unfold getData getXres getYres
  cases hb : d.backend with
  | appload q =>
      rw [hb] at h
      exact h
  | vncast c =>
      rw [hb] at h
      simp only
      rw [Announced.width_eq h, Announced.height_eq h, h.shadow_length]

theorem Ready.setData {b : List UInt8} (h : d.Ready)
    (hb : b.length = d.getData.length) : (d.setData b).Ready := by
  unfold Ready at h ⊢
  unfold getData at hb
  unfold Device.setData
  cases hd : d.backend with
  | appload q =>
      rw [hd] at h hb
      simp only at h hb ⊢
      rw [hb]
      exact h
  | vncast c =>
      rw [hd] at h hb
      simp only at h hb ⊢
      exact ⟨h.w_lt, h.h_lt, by rw [hb]; exact h.shadow_length, h.shm_length,
        h.format⟩

/-- Painting elsewhere leaves a mirrored pixel mirrored. -/
theorem Mirrored.setData {b : List UInt8} (h : d.Mirrored p) (hd : d.Ready)
    (hb : pixel b d.getXres 2 p = pixel d.getData d.getXres 2 p) :
    (d.setData b).Mirrored p := by
  unfold Mirrored at h ⊢
  unfold getData getXres pixel at hb
  unfold Ready at hd
  unfold Device.setData
  cases hc : d.backend with
  | appload q => exact trivial
  | vncast c =>
      rw [hc] at h hb hd
      simp only at h hb hd ⊢
      obtain ⟨k, conv, lo, hi, hk, hs, hm⟩ := h
      rw [hd.width_eq] at hb
      exact ⟨k, conv, lo, hi, hk, hb.trans hs, hm⟩

/-- What `update` does: the panel buffer stays, the announced rectangle is
mirrored, and nothing that was mirrored ceases to be. -/
structure Updated (d : Device) (r : Rect) (d' : Device) : Prop where
  ready : d'.Ready
  data : d'.getData = d.getData
  xres : d'.getXres = d.getXres
  yres : d'.getYres = d.getYres
  inside : ∀ p ∈ r, p ∈ Rect.full d.getXres d.getYres → d'.Mirrored p
  kept : ∀ p ∈ Rect.full d.getXres d.getYres, d.Mirrored p → d'.Mirrored p

theorem update_spec (hd : d.Ready) (r : Rect) (mode : RefreshMode) :
    ∃ d', d.update r mode = some d' ∧ Updated d r d' := by
  unfold Ready at hd
  unfold update
  cases hb : d.backend with
  | appload q =>
      rw [hb] at hd
      simp only at hd ⊢
      refine ⟨_, rfl, ?_, ?_, ?_, ?_, fun _ _ _ => trivial, fun _ _ _ => trivial⟩
      · unfold Ready
        simp only
        split <;> exact hd
      all_goals
        simp only [getData, getXres, getYres, hb]
        split <;> rfl
  | vncast c =>
      rw [hb] at hd
      simp only at hd ⊢
      obtain ⟨shm, m, hsend, hP⟩ := sendPartialUpdate_spec hd r
      have hfull : Rect.full d.getXres d.getYres
          = Rect.full c.w.toNat c.h.toNat := by
        simp only [getXres, getYres, hb, hd.width_eq, hd.height_eq]
      refine ⟨_, by rw [hsend]; rfl, ?_, ?_, ?_, ?_, ?_, ?_⟩
      · exact hd.updated hP
      · simp only [getData, hb]
      · simp only [getXres, hb]
        rfl
      · simp only [getYres, hb]
        rfl
      · intro p hp hfp
        rw [hfull] at hfp
        exact hP.done p ⟨hp, hfp⟩
      · intro p hfp hm
        rw [hfull] at hfp
        simp only [Mirrored, hb] at hm
        exact hP.converted hd hfp (fun q hq => hq.2) hm

end Device

end Rmcast.Screen
