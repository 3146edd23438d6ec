import Rmcast.Lib.Word
import Rmcast.Screen.Device

/-!
# Updates from the VNC server

`app::screen` collects the rectangles the VNC library commits in one
accumulator, `update_info`, and copies it to the panel when the event loop
finds a repaint due. `commit_updates` either extends the accumulator or, when
the extension would be too large, announces the old rectangle and starts
over. §1 is the code, §2 its runs. §3 shows that nothing that was committed
is lost as long as the second branch finds no rectangle that was committed
since the last copy; §4 shows what it loses otherwise.
-/

namespace Rmcast.Screen

open Loop Word

/-! ## §1  The code -/

inductive RepaintMode where
  | standard
  | fast
deriving DecidableEq, Repr

/-- `update_info`: the rectangle and `has_update`. -/
structure UpdateInfo where
  rect : Rect := ⟨0, 0, 0, 0⟩
  hasUpdate : Bool := false
deriving DecidableEq, Repr

/-- `app::screen`. Delays are in milliseconds, instants in nanoseconds. -/
structure State where
  device : Device
  repaintMode : RepaintMode
  standardRepaintDelay : ℤ
  fastRepaintDelay : ℤ
  standardWaveformMode : RefreshMode
  fastWaveformMode : RefreshMode
  requested : Orientation
  effective : Orientation
  srcBuffer : List UInt8 := []
  srcWidth : ℤ := 0
  srcHeight : ℤ := 0
  bytesPerPixel : ℕ
  updateInfo : UpdateInfo := {}
  lastRepaint : ℤ := 0
deriving Repr

/-- `$VNSEE_WAVEFORM_MODE`: delay and waveform of standard repaints. -/
def waveformModes : List (List Char × ℤ × RefreshMode) :=
  [("FASTEST".toList, 50, .ANIMATE), ("FAST".toList, 200, .FAST),
   ("STANDARD".toList, 500, .UI), ("SLOW".toList, 1000, .CONTENT)]

/-- `screen::screen`. -/
def create (device : Device) (orientation : Orientation)
    (envWaveform : Option (List Char)) : State :=
  let standard := (envWaveform.bind fun e => List.lookup e waveformModes).getD (500, .UI)
  { device := device
    repaintMode := if device.isVncast then .fast else .standard
    standardRepaintDelay := standard.1
    fastRepaintDelay := 16
    standardWaveformMode := standard.2
    fastWaveformMode := .ANIMATE
    requested := orientation
    effective := if orientation = .Auto then .Portrait else orientation
    bytesPerPixel := (device.getBitsPerPixel + 7) / 8 }

/-- `screen::create_framebuf`; a size that is not positive throws. -/
def createFramebuf (s : State) (sw sh : ℤ) : Option State :=
  if sw ≤ 0 ∨ sh ≤ 0 then none
  else
    let effective :=
      if s.requested = .Auto then
        -- the two shapes decide, whatever has been in force so far
        let fbPortrait := decide (s.device.getYres > s.device.getXres)
        let srcPortrait := decide (sh > sw)
        if fbPortrait ≠ srcPortrait then .LandscapeCCW else .Portrait
      else s.effective
    some { s with
      srcWidth := sw
      srcHeight := sh
      effective := effective
      srcBuffer := List.replicate (sw * sh * s.bytesPerPixel).toNat 0 }

/-- The sizes `blit_rotated` finds. -/
def State.geometry (s : State) : Geometry :=
  ⟨s.srcWidth, s.srcHeight, s.device.getXres, s.device.getYres,
    s.bytesPerPixel⟩

/-- The waveform of the current repaint mode. -/
def State.waveformMode (s : State) : RefreshMode :=
  if s.repaintMode = .standard then s.standardWaveformMode
  else s.fastWaveformMode

/-- The copy and the announcement of `repaint`: the device afterwards. -/
def copyToPanel (s : State) : Option Device := do
  let (data, d) ← blitRotated s.geometry s.effective s.srcBuffer
    s.device.getData s.updateInfo.rect
  let device := s.device.setData data
  -- nothing of the rectangle is on the panel
  if d.w ≤ 0 ∨ d.h ≤ 0 then some device
  else device.update d s.waveformMode

/-- The bookkeeping of `repaint`: only a standard repaint clears
`has_update`. -/
def beginRepaint (s : State) (now : ℤ) : State :=
  let hasUpdate :=
    if s.repaintMode = .standard then false else s.updateInfo.hasUpdate
  { s with
    updateInfo := { s.updateInfo with hasUpdate := hasUpdate }
    lastRepaint := now }

/-- `screen::repaint` at the instant `now`. -/
def repaint (s : State) (now : ℤ) : Option State := do
  let s := beginRepaint s now
  let device ← copyToPanel s
  return { s with device := device }

def setRepaintMode (s : State) (mode : RepaintMode) : State :=
  { s with repaintMode := mode }

/-- `wait_time`: whole milliseconds until the next update is due. -/
def waitTime (s : State) (now : ℤ) : ℤ :=
  let delay :=
    if s.repaintMode = .standard then s.standardRepaintDelay
    else s.fastRepaintDelay
  Int.tdiv (s.lastRepaint + delay * 1000000 - now) 1000000

/-- `screen::event_loop`: the timeout it returns. It reads the clock at
`now`, and `repaint` reads it again at `now'`. -/
def eventLoop (s : State) (now now' : ℤ) : Option (State × ℤ) :=
  if s.updateInfo.hasUpdate then
    if waitTime s now ≤ 0 then do
      let s ← repaint s now'
      -- no timeout, even where a fast repaint leaves the flag set
      return (s, -1)
    else some (s, waitTime s now)
  else some (s, -1)

/-- The test `merged_area > sum_area * 2`; the areas of the two rectangles
are `int` products. The rest is computed in `long`. It is assumed to have 64
bits (LP64, as on the aarch64 tablet that `install.sh` asks for): products of
`int`s and twice their sums are exact in it. -/
def badMerge (u r : Rect) : Bool :=
  let existingArea := int32 (u.w * u.h)
  let newArea := int32 (r.w * r.h)
  let merged := u.hull r
  decide (merged.w * merged.h > (existingArea + newArea) * 2)

/-- `screen::commit_updates`. -/
def commitUpdates (s : State) (r : Rect) : Option State :=
  if s.updateInfo.hasUpdate then
    if badMerge s.updateInfo.rect r then do
      -- the accumulator is in source coordinates, and has not been copied
      let device ← s.device.update s.updateInfo.rect s.waveformMode
      return { s with device := device, updateInfo := ⟨r, true⟩ }
    else
      some { s with updateInfo := { s.updateInfo with
        rect := s.updateInfo.rect.hull r } }
  else some { s with updateInfo := ⟨r, true⟩ }

/-! ## §2  Runs -/

/-- The screen together with what it has been asked to show: all committed
rectangles, and those committed since the last copy to the panel. -/
structure History where
  screen : State
  committed : List Rect := []
  pending : List Rect := []

/-- What can happen in the main loop. A commit comes with the source pixels
the VNC library has just written. -/
inductive Event where
  | commit (src : List UInt8) (r : Rect)
  | tick (now now' : ℤ)
  | setMode (mode : RepaintMode)
deriving Repr

def step (h : History) : Event → Option History
  | .commit src r => do
      let s ← commitUpdates { h.screen with srcBuffer := src } r
      return ⟨s, h.committed ++ [r], h.pending ++ [r]⟩
  | .tick now now' => do
      let (s, timeout) ← eventLoop h.screen now now'
      return ⟨s, h.committed, if timeout = -1 then [] else h.pending⟩
  | .setMode mode => some { h with screen := setRepaintMode h.screen mode }

/-- A commit is for a rectangle of the source, and the pixels outside it are
as they were. -/
def Admissible (h : History) : Event → Prop
  | .commit src r =>
      r.Inside h.screen.srcWidth h.screen.srcHeight ∧
      src.length = h.screen.srcBuffer.length ∧
      ∀ y < h.screen.srcHeight.toNat, ∀ x < h.screen.srcWidth.toNat,
        ((x : ℤ), (y : ℤ)) ∉ r →
        pixel src h.screen.srcWidth h.screen.bytesPerPixel (x, y)
          = pixel h.screen.srcBuffer h.screen.srcWidth h.screen.bytesPerPixel
            (x, y)
  | .tick _ _ | .setMode _ => True

instance (h : History) : ∀ e, Decidable (Admissible h e)
  | .commit _ _ => inferInstanceAs (Decidable (_ ∧ _ ∧ _))
  | .tick _ _ | .setMode _ => inferInstanceAs (Decidable True)

/-- The event makes `commit_updates` give up an accumulator to which
something has been committed since the last copy. -/
def GivesUp (h : History) : Event → Prop
  | .commit _ r =>
      h.screen.updateInfo.hasUpdate ∧ badMerge h.screen.updateInfo.rect r ∧
        h.pending ≠ []
  | .tick _ _ | .setMode _ => False

instance (h : History) : ∀ e, Decidable (GivesUp h e)
  | .commit _ _ => inferInstanceAs (Decidable (_ ∧ _ ∧ _))
  | .tick _ _ | .setMode _ => inferInstanceAs (Decidable False)

/-- The user sees the current value of the source pixel `q`: the panel has
it at its rotated position, and the picture on display mirrors the panel
there. -/
def Shown (g : Geometry) (o : Orientation) (src : List UInt8) (d : Device)
    (q : ℤ × ℤ) : Prop :=
  pixel d.getData g.panelW g.bpp (rotate g o q) = pixel src g.srcW g.bpp q ∧
    d.Mirrored (rotate g o q)

def State.Shown (s : State) (q : ℤ × ℤ) : Prop :=
  Screen.Shown s.geometry s.effective s.srcBuffer s.device q

/-- The rotated position of `q` is on the panel. -/
def State.OnPanel (s : State) (q : ℤ × ℤ) : Prop :=
  rotate s.geometry s.effective q ∈ s.geometry.panel

instance (s : State) (q : ℤ × ℤ) : Decidable (s.OnPanel q) :=
  inferInstanceAs (Decidable (_ ∈ _))

/-- **No committed update is lost.** What has been committed since the last
copy is still in the accumulator, and whenever the event loop goes to sleep
without a timeout, everything committed is shown. -/
structure NothingLost (h : History) : Prop where
  kept : ∀ r ∈ h.pending, h.screen.updateInfo.hasUpdate ∧
    ∀ q ∈ r, q ∈ h.screen.updateInfo.rect
  shown : ∀ now now', ∃ s timeout,
    eventLoop h.screen now now' = some (s, timeout) ∧
    (timeout = -1 → ∀ r ∈ h.committed, ∀ q ∈ r, s.OnPanel q → s.Shown q)

/-! ## §3  Nothing is lost -/

section Copy

variable {g : Geometry} {o : Orientation} {src src' : List UInt8}
  {d d' : Device} {q : ℤ × ℤ} {r : Rect}

theorem Shown.updated (h : Shown g o src d q) (hU : d.Updated r d')
    (hg : g.panel = Rect.full d.getXres d.getYres)
    (hon : rotate g o q ∈ g.panel) : Shown g o src d' q := by
  rw [hg] at hon
  exact ⟨by rw [hU.data]; exact h.1, hU.kept _ hon h.2⟩

theorem Shown.src_congr (h : Shown g o src d q)
    (hsrc : pixel src' g.srcW g.bpp q = pixel src g.srcW g.bpp q) :
    Shown g o src' d q :=
  ⟨h.1.trans hsrc.symm, h.2⟩

variable {s : State}

theorem State.fits (hready : s.device.Ready) (hbpp : s.bytesPerPixel = 2)
    (hsrc : (s.srcBuffer.length : ℤ) = s.srcWidth * 2 * s.srcHeight) :
    Fits s.geometry s.srcBuffer s.device.getData := by
  constructor
  · simp only [State.geometry, hbpp]
    exact hsrc
  · simp only [State.geometry, hbpp]
    exact hready.data_length

/-- The panel buffer after the blit, before the announcement. -/
theorem Blitted.pixel_eq {data : List UInt8}
    (hB : Blitted s.geometry s.effective s.srcBuffer s.device.getData s.updateInfo.rect data r)
    (hq : q ∈ s.geometry.source) (hon : s.OnPanel q)
    (hc : q ∈ s.updateInfo.rect ∨ s.Shown q) :
    pixel data s.geometry.panelW s.geometry.bpp (rotate s.geometry s.effective q)
      = pixel s.srcBuffer s.geometry.srcW s.geometry.bpp q := by
  by_cases hin : q ∈ s.updateInfo.rect
  · exact hB.painted.shown q ⟨hin, hq⟩ hon
  · rw [← (hc.resolve_left hin).1]
    apply hB.painted.kept _ hon
    intro q' hq' he
    rw [rotate_injective _ _ he] at hq'
    exact hin hq'.1

/-- What was shown outside the accumulator is shown after the blit. -/
theorem Blitted.keeps_shown {data : List UInt8}
    (hB : Blitted s.geometry s.effective s.srcBuffer s.device.getData s.updateInfo.rect data r)
    (hready : s.device.Ready) (hbpp : s.bytesPerPixel = 2)
    (hq : q ∈ s.geometry.source) (hon : s.OnPanel q) (hs : s.Shown q) :
    Shown s.geometry s.effective s.srcBuffer (s.device.setData data) q := by
  have hp := hB.pixel_eq hq hon (Or.inr hs)
  refine ⟨by rw [Device.setData_getData]; exact hp, hs.2.setData hready ?_⟩
  have he := hp.trans hs.1.symm
  simp only [State.geometry, hbpp] at he ⊢
  exact he

/-- What `repaint` does to the device: a blit into the panel, and an
announcement unless there is nothing to announce. -/
theorem copyToPanel_cases (hready : s.device.Ready) (hbpp : s.bytesPerPixel = 2)
    (hsrc : (s.srcBuffer.length : ℤ) = s.srcWidth * 2 * s.srcHeight) :
    ∃ data d device, copyToPanel s = some device ∧
      blitRotated s.geometry s.effective s.srcBuffer s.device.getData s.updateInfo.rect
        = some (data, d) ∧
      Blitted s.geometry s.effective s.srcBuffer s.device.getData s.updateInfo.rect data d ∧
      (s.device.setData data).Ready ∧
      ((d.w ≤ 0 ∨ d.h ≤ 0) ∧ device = s.device.setData data ∨
        ¬ (d.w ≤ 0 ∨ d.h ≤ 0) ∧ (s.device.setData data).update d s.waveformMode = some device ∧
          (s.device.setData data).Updated d device) := by
  obtain ⟨data, d, hblit, hB⟩ := blitRotated_spec (o := s.effective)
    (s := s.updateInfo.rect) (State.fits hready hbpp hsrc)
  have hready' : (s.device.setData data).Ready :=
    hready.setData hB.painted.length
  unfold copyToPanel
  rw [hblit]
  simp only [Option.bind_eq_bind, Option.bind_some]
  by_cases hd : d.w ≤ 0 ∨ d.h ≤ 0
  · rw [if_pos hd]
    exact ⟨data, d, _, rfl, rfl, hB, hready', Or.inl ⟨hd, rfl⟩⟩
  · rw [if_neg hd]
    obtain ⟨device, hupd, hU⟩ := Device.update_spec hready' d s.waveformMode
    exact ⟨data, d, device, hupd, rfl, hB, hready', Or.inr ⟨hd, hupd, hU⟩⟩

/-- **One copy** shows every source pixel of the accumulator, and keeps what
was shown. -/
theorem copyToPanel_spec (hready : s.device.Ready) (hbpp : s.bytesPerPixel = 2)
    (hsrc : (s.srcBuffer.length : ℤ) = s.srcWidth * 2 * s.srcHeight) :
    ∃ device, copyToPanel s = some device ∧ device.Ready ∧
      device.getXres = s.device.getXres ∧ device.getYres = s.device.getYres ∧
      ∀ q ∈ s.geometry.source, s.OnPanel q →
        (q ∈ s.updateInfo.rect ∨ s.Shown q) →
        Shown s.geometry s.effective s.srcBuffer device q := by
  obtain ⟨data, d, device, hcopy, -, hB, hready', ⟨hd, rfl⟩ | ⟨-, -, hU⟩⟩ :=
    copyToPanel_cases hready hbpp hsrc
  · refine ⟨_, hcopy, hready', by simp, by simp, ?_⟩
    intro q hq hon hc
    -- an empty announcement means that nothing was copied
    have hin : q ∉ s.updateInfo.rect := by
      intro hin
      have hmem := (hB.announced _).mpr ⟨hon, q, ⟨hin, hq⟩, rfl⟩
      rw [Rect.mem_iff] at hmem
      omega
    exact hB.keeps_shown hready hbpp hq hon (hc.resolve_left hin)
  · refine ⟨device, hcopy, hU.ready, by rw [hU.xres]; simp,
      by rw [hU.yres]; simp, ?_⟩
    intro q hq hon hc
    by_cases hin : q ∈ s.updateInfo.rect
    · refine ⟨by rw [hU.data, Device.setData_getData]; exact hB.pixel_eq hq hon hc, ?_⟩
      apply hU.inside
      · exact (hB.announced _).mpr ⟨hon, q, ⟨hin, hq⟩, rfl⟩
      · simp only [Device.setData_getXres, Device.setData_getYres]
        exact hon
    · apply (hB.keeps_shown hready hbpp hq hon (hc.resolve_left hin)).updated hU ?_ hon
      simp only [Device.setData_getXres, Device.setData_getYres]
      rfl

end Copy

/-- The invariant of a run under the geometry `g` and the orientation
`o`. -/
structure Inv (g : Geometry) (o : Orientation) (h : History) : Prop where
  ready : h.screen.device.Ready
  geometry : h.screen.geometry = g
  effective : h.screen.effective = o
  bpp : h.screen.bytesPerPixel = 2
  src_length : (h.screen.srcBuffer.length : ℤ) = g.srcW * 2 * g.srcH
  inside : ∀ r ∈ h.committed, r.Inside g.srcW g.srcH
  /-- A committed pixel is shown or waits in the accumulator. -/
  shown : ∀ r ∈ h.committed, ∀ q ∈ r, rotate g o q ∈ g.panel →
    Shown g o h.screen.srcBuffer h.screen.device q ∨
      (q ∈ h.screen.updateInfo.rect ∧ h.pending ≠ [])
  kept : ∀ r ∈ h.pending, h.screen.updateInfo.hasUpdate ∧
    ∀ q ∈ r, q ∈ h.screen.updateInfo.rect

section Steps

variable {g : Geometry} {o : Orientation} {h : History} {r : Rect}

theorem Inv.panel_eq (hI : Inv g o h) :
    g.panel = Rect.full h.screen.device.getXres h.screen.device.getYres := by
  rw [← hI.geometry]
  rfl

/-- Without pending rectangles everything is shown. -/
theorem Inv.all_shown (hI : Inv g o h) (hp : h.pending = []) :
    ∀ r ∈ h.committed, ∀ q ∈ r, rotate g o q ∈ g.panel →
      Shown g o h.screen.srcBuffer h.screen.device q := by
  intro r hr q hq hon
  rcases hI.shown r hr q hq hon with hs | ⟨-, hne⟩
  · exact hs
  · exact absurd hp hne

theorem Inv.pending_eq_nil (hI : Inv g o h)
    (hu : h.screen.updateInfo.hasUpdate = false) : h.pending = [] := by
  apply List.eq_nil_iff_forall_not_mem.mpr
  intro r hr
  have := (hI.kept r hr).1
  rw [hu] at this
  cases this

/-- A repaint shows everything that has been committed. -/
theorem Inv.repaint (hI : Inv g o h) (now : ℤ) :
    ∃ s, repaint h.screen now = some s ∧ Inv g o ⟨s, h.committed, []⟩ := by
  -- the flag and the instant play no part in the copy
  obtain ⟨s, hs⟩ : ∃ s, s = beginRepaint h.screen now := ⟨_, rfl⟩
  have hdev : s.device = h.screen.device := by rw [hs]; rfl
  have hgeo : s.geometry = g := by rw [hs]; exact hI.geometry
  have heff : s.effective = o := by rw [hs]; exact hI.effective
  have hsrc : s.srcBuffer = h.screen.srcBuffer := by rw [hs]; rfl
  have hrect : s.updateInfo.rect = h.screen.updateInfo.rect := by rw [hs]; rfl
  have hbpp : s.bytesPerPixel = 2 := by rw [hs]; exact hI.bpp
  have hlen : (s.srcBuffer.length : ℤ) = s.srcWidth * 2 * s.srcHeight := by
    rw [hsrc, hI.src_length, ← hgeo]
    rfl
  obtain ⟨device, hcopy, hready, hx, hy, hshown⟩ :=
    copyToPanel_spec (by rw [hdev]; exact hI.ready) hbpp hlen
  refine ⟨{ s with device := device }, ?_, ?_⟩
  · unfold Screen.repaint
    simp only [← hs, hcopy]
    rfl
  · refine ⟨hready, ?_, heff, hbpp, ?_, hI.inside, ?_, ?_⟩
    · rw [← hgeo]
      simp only [State.geometry, hx, hy]
    · simp only [hsrc]
      exact hI.src_length
    · intro r hr q hq hon
      left
      have hq' : q ∈ s.geometry.source := by
        rw [hgeo]
        exact (hI.inside r hr).mem_full hq
      have hon' : s.OnPanel q := by
        unfold State.OnPanel
        rw [hgeo, heff]
        exact hon
      have hc : q ∈ s.updateInfo.rect ∨ s.Shown q := by
        unfold State.Shown
        rw [hrect, hgeo, heff, hsrc, hdev]
        rcases hI.shown r hr q hq hon with h1 | h1
        · exact Or.inr h1
        · exact Or.inl h1.1
      have := hshown q hq' hon' hc
      rw [hgeo, heff] at this
      exact this
    · intro r hr
      cases hr

theorem Inv.sizes (hI : Inv g o h) : h.screen.srcWidth = g.srcW ∧
    h.screen.srcHeight = g.srcH ∧ h.screen.bytesPerPixel = g.bpp := by
  rw [← hI.geometry]
  exact ⟨rfl, rfl, rfl⟩

/-- A commit changes the source in its rectangle only. -/
theorem Inv.commit_pixel (hI : Inv g o h) {src : List UInt8}
    (hadm : Admissible h (.commit src r)) {q : ℤ × ℤ} (hq : q ∈ g.source) (hqr : q ∉ r) :
    pixel src g.srcW g.bpp q = pixel h.screen.srcBuffer g.srcW g.bpp q := by
  obtain ⟨-, -, hsame⟩ := hadm
  obtain ⟨hw, hh, hbpp⟩ := hI.sizes
  obtain ⟨a, b⟩ := q
  obtain ⟨h1, h2, h3, h4⟩ := Rect.mem_full.mp hq
  have ha : ((a.toNat : ℕ) : ℤ) = a := Int.toNat_of_nonneg h1
  have hb : ((b.toNat : ℕ) : ℤ) = b := Int.toNat_of_nonneg h3
  have hpix := hsame b.toNat (by omega) a.toNat (by omega)
  rw [ha, hb, hw, hbpp] at hpix
  exact hpix hqr

/-- What a commit has to establish: the new accumulator `u` covers the new
rectangle and every pending pixel. -/
theorem Inv.commit {src : List UInt8} {s : State} {u : Rect}
    (hI : Inv g o h) (hadm : Admissible h (.commit src r))
    (hs : s = { h.screen with
      srcBuffer := src, device := s.device, updateInfo := ⟨u, true⟩ })
    (hready : s.device.Ready)
    (hx : s.device.getXres = h.screen.device.getXres)
    (hy : s.device.getYres = h.screen.device.getYres)
    (hdev : ∀ q, rotate g o q ∈ g.panel →
      Shown g o h.screen.srcBuffer h.screen.device q →
      Shown g o h.screen.srcBuffer s.device q)
    (hnew : ∀ q ∈ r, q ∈ u)
    (hold : h.pending ≠ [] → ∀ q ∈ h.screen.updateInfo.rect, q ∈ u) :
    Inv g o ⟨s, h.committed ++ [r], h.pending ++ [r]⟩ := by
  have hin : r.Inside g.srcW g.srcH := by
    rw [← hI.sizes.1, ← hI.sizes.2.1]
    exact hadm.1
  have hlen := hadm.2.1
  have hsrc : s.srcBuffer = src := by rw [hs]
  have hupd : s.updateInfo = ⟨u, true⟩ := by rw [hs]
  refine ⟨hready, ?_, by rw [hs]; exact hI.effective, by rw [hs]; exact hI.bpp,
    ?_, ?_, ?_, ?_⟩
  · rw [← hI.geometry, hs]
    simp only [State.geometry, hx, hy]
  · simp only [hsrc, hlen]
    exact hI.src_length
  · intro r' hr'
    rcases List.mem_append.mp hr' with hr' | hr'
    · exact hI.inside r' hr'
    · rw [List.mem_singleton.mp hr']
      exact hin
  · intro r' hr' q hq hon
    simp only [hsrc, hupd]
    have hne : h.pending ++ [r] ≠ [] := by simp
    by_cases hqr : q ∈ r
    · exact Or.inr ⟨hnew q hqr, hne⟩
    · rcases List.mem_append.mp hr' with hr' | hr'
      · rcases hI.shown r' hr' q hq hon with h1 | ⟨h1, h2⟩
        · left
          apply (hdev q hon h1).src_congr
          exact hI.commit_pixel hadm ((hI.inside r' hr').mem_full hq) hqr
        · exact Or.inr ⟨hold h2 q h1, hne⟩
      · rw [List.mem_singleton.mp hr'] at hq
        exact absurd hq hqr
  · intro r' hr'
    simp only [hupd, true_and]
    rcases List.mem_append.mp hr' with hr' | hr'
    · intro q hq
      exact hold (List.ne_nil_of_mem hr') q ((hI.kept r' hr').2 q hq)
    · rw [List.mem_singleton.mp hr']
      exact hnew

/-- A commit merges into the accumulator, starts it, or gives it up after a
copy. -/
theorem Inv.step_commit (hI : Inv g o h) {src : List UInt8}
    (hadm : Admissible h (.commit src r)) (hgive : ¬ GivesUp h (.commit src r)) :
    ∃ h', step h (.commit src r) = some h' ∧ Inv g o h' := by
  unfold Screen.step commitUpdates
  simp only
  by_cases hu : h.screen.updateInfo.hasUpdate
  · by_cases hbad : badMerge h.screen.updateInfo.rect r
    · -- the accumulator is given up, but has been copied
      have hnil : h.pending = [] := by
        by_contra hne
        exact hgive ⟨hu, hbad, hne⟩
      obtain ⟨device, hupd, hU⟩ := Device.update_spec hI.ready
        h.screen.updateInfo.rect h.screen.waveformMode
      rw [if_pos hu, if_pos hbad]
      refine ⟨_, by
        simp only [State.waveformMode] at hupd ⊢
        rw [hupd]
        rfl, hI.commit hadm rfl hU.ready hU.xres hU.yres ?_
        (fun q hq => hq) (fun hne => absurd hnil hne)⟩
      intro q hon hs
      exact hs.updated hU hI.panel_eq hon
    · rw [if_pos hu, if_neg hbad]
      refine ⟨_, rfl, hI.commit (u := h.screen.updateInfo.rect.hull r) hadm
        ?_ hI.ready rfl rfl (fun q _ hs => hs)
        (fun q hq => Rect.mem_hull_right hq)
        (fun _ q hq => Rect.mem_hull_left hq)⟩
      simp only [hu]
  · rw [if_neg hu]
    have hnil := hI.pending_eq_nil (by simpa using hu)
    exact ⟨_, rfl, hI.commit hadm rfl hI.ready rfl rfl (fun q _ hs => hs)
      (fun q hq => hq) (fun hne => absurd hnil hne)⟩

/-- A tick repaints, or finds that it is too early, or that nothing waits. -/
theorem Inv.step_tick (hI : Inv g o h) (now now' : ℤ) :
    ∃ h', step h (.tick now now') = some h' ∧ Inv g o h' := by
  unfold Screen.step eventLoop
  simp only
  by_cases hu : h.screen.updateInfo.hasUpdate
  · by_cases hw : waitTime h.screen now ≤ 0
    · obtain ⟨s, hrep, hI'⟩ := hI.repaint now'
      rw [if_pos hu, if_pos hw, hrep]
      exact ⟨_, rfl, hI'⟩
    · rw [if_pos hu, if_neg hw]
      have hne : waitTime h.screen now ≠ -1 := by
        intro he
        rw [he] at hw
        exact hw (by decide)
      refine ⟨_, rfl, ?_⟩
      simp only [if_neg hne]
      exact hI
  · rw [if_neg hu]
    have hnil := hI.pending_eq_nil (by simpa using hu)
    refine ⟨_, rfl, ?_⟩
    simp only [if_true]
    rw [← hnil]
    exact hI

/-- **Step lemma.** -/
theorem Inv.step (hI : Inv g o h) {e : Event} (hadm : Admissible h e)
    (hgive : ¬ GivesUp h e) : ∃ h', step h e = some h' ∧ Inv g o h' := by
  cases e with
  | commit src r => exact hI.step_commit hadm hgive
  | tick now now' => exact hI.step_tick now now'
  | setMode mode =>
      exact ⟨_, rfl, hI.ready, hI.geometry, hI.effective, hI.bpp,
        hI.src_length, hI.inside, hI.shown, hI.kept⟩

theorem Inv.nothingLost (hI : Inv g o h) : NothingLost h := by
  refine ⟨hI.kept, fun now now' => ?_⟩
  have hstate : ∀ s, Inv g o ⟨s, h.committed, []⟩ → ∀ r ∈ h.committed,
      ∀ q ∈ r, s.OnPanel q → s.Shown q := by
    intro s hI' r hr q hq hon
    have hg : s.geometry = g := hI'.geometry
    have ho : s.effective = o := hI'.effective
    unfold State.Shown
    unfold State.OnPanel at hon
    rw [hg, ho] at hon ⊢
    exact hI'.all_shown rfl r hr q hq hon
  unfold eventLoop
  by_cases hu : h.screen.updateInfo.hasUpdate
  · by_cases hw : waitTime h.screen now ≤ 0
    · obtain ⟨s, hrep, hI'⟩ := hI.repaint now'
      rw [if_pos hu, if_pos hw, hrep]
      exact ⟨s, -1, rfl, fun _ => hstate s hI'⟩
    · rw [if_pos hu, if_neg hw]
      exact ⟨_, _, rfl, fun he => absurd he (by omega)⟩
  · rw [if_neg hu]
    have hnil := hI.pending_eq_nil (by simpa using hu)
    refine ⟨_, _, rfl, fun _ => hstate _ ?_⟩
    rw [← hnil]
    exact hI

end Steps

/-- A framebuffer has rows and columns, and one orientation in force. -/
theorem createFramebuf_cases {s t : State} {sw sh : ℤ}
    (h : createFramebuf s sw sh = some t) :
    0 < sw ∧ 0 < sh ∧ ∃ e, t =
      { s with
        srcWidth := sw
        srcHeight := sh
        effective := e
        srcBuffer := List.replicate (sw * sh * s.bytesPerPixel).toNat 0 } := by
  unfold createFramebuf at h
  by_cases hpos : sw ≤ 0 ∨ sh ≤ 0
  · rw [if_pos hpos] at h
    cases h
  · rw [if_neg hpos] at h
    rw [not_or, not_le, not_le] at hpos
    exact ⟨hpos.1, hpos.2, _, (Option.some.inj h).symm⟩

/-- The length of a new source buffer. -/
theorem replicate_length {sw sh : ℤ} {bpp : ℕ} (hw : 0 < sw) (hh : 0 < sh)
    (hbpp : bpp = 2) :
    ((List.replicate (sw * sh * (bpp : ℤ)).toNat (0 : UInt8)).length : ℤ) = sw * 2 * sh := by
  have harea : 0 ≤ sw * sh * 2 := mul_nonneg (mul_nonneg hw.le hh.le) (by decide)
  rw [hbpp, List.length_replicate, Nat.cast_ofNat, Int.toNat_of_nonneg harea]
  exact mul_right_comm sw sh 2

theorem create_bytesPerPixel (d : Device) (o : Orientation) (env : Option (List Char)) :
    (create d o env).bytesPerPixel = 2 := by
  simp [create, Device.getBitsPerPixel]

/-- A new screen once its framebuffer is there. -/
def start (d : Device) (o : Orientation) (env : Option (List Char))
    (sw sh : ℤ) : Option History := do
  let s ← createFramebuf (create d o env) sw sh
  return { screen := s }

theorem inv_start {d : Device} {o : Orientation} {env : Option (List Char)}
    {sw sh : ℤ} {h : History} (hd : d.Ready)
    (hstart : start d o env sw sh = some h) :
    Inv h.screen.geometry h.screen.effective h := by
  unfold start at hstart
  obtain ⟨s, hs, hstart⟩ := Option.bind_eq_some_iff.mp hstart
  obtain ⟨hw, hh, e, rfl⟩ := createFramebuf_cases hs
  obtain rfl := Option.some.inj hstart
  refine ⟨hd, rfl, rfl, create_bytesPerPixel d o env,
    replicate_length hw hh (create_bytesPerPixel d o env), ?_, ?_, ?_⟩
  all_goals
    intro r hr
    cases hr

/-- **No committed update is lost** in a run that gives up no accumulator
while something is pending in it, from a new screen on and in every state the
run passes through. -/
theorem nothing_lost {d : Device} {o : Orientation} {env : Option (List Char)}
    {sw sh : ℤ} {h₀ : History} {es : List Event} (hd : d.Ready)
    (hstart : start d o env sw sh = some h₀)
    (hes : EveryStep step (fun h e => Admissible h e ∧ ¬ GivesUp h e) h₀ es) :
    ∀ pre, pre <+: es → ∃ h, run step h₀ pre = some h ∧ NothingLost h := by
  rintro pre ⟨rest, rfl⟩
  obtain ⟨h, hrun, hI⟩ := run_inv
    (Inv h₀.screen.geometry h₀.screen.effective)
    (fun h e hI hP => hI.step hP.1 hP.2) (inv_start hd hstart) hes.of_append
  exact ⟨h, hrun, hI.nothingLost⟩

/-- A vncast connection of 5×1 pixels in 8-bit grayscale. -/
def castStrip : Device where
  backend := .vncast
    { w := 5, h := 1, stride := 5, bpp := 8, format := 2
      shm := List.replicate 5 0xFF
      shadow := List.replicate 10 0
      forceGrayscale := false }

theorem castStrip_ready : castStrip.Ready where
  w_lt := by decide
  h_lt := by decide
  shadow_length := by decide
  shm_length := by decide
  format := ⟨1, Vncast.toGrayscale8, rfl, by decide⟩

/-- In fast mode the flag stays set: the second commit gives up an
accumulator, but one that has been copied. -/
def castRun : List Event :=
  [.commit [1, 1, 0, 0, 0, 0, 0, 0, 0, 0] ⟨0, 0, 1, 1⟩,
   .tick 500000000 500000001,
   .commit [1, 1, 0, 0, 0, 0, 0, 0, 2, 2] ⟨4, 0, 1, 1⟩,
   .tick 600000000 600000001]

theorem nothing_lost_castRun :
    ∃ h₀, start castStrip .Portrait none 5 1 = some h₀ ∧
      ∀ pre, pre <+: castRun →
        ∃ h, run step h₀ pre = some h ∧ NothingLost h := by
  obtain ⟨h₀, hstart⟩ : ∃ h₀, start castStrip .Portrait none 5 1 = some h₀ :=
    ⟨_, rfl⟩
  have hes : ∀ h ∈ start castStrip .Portrait none 5 1,
      EveryStep step (fun h e => Admissible h e ∧ ¬ GivesUp h e) h castRun := by
    decide +kernel
  exact ⟨h₀, hstart, nothing_lost castStrip_ready hstart (hes h₀ hstart)⟩

/-! ## §4  What is lost otherwise -/

/-- An AppLoad panel of 5×1 pixels. -/
def strip : Device where
  backend := .appload ⟨5, 1, List.replicate 10 0, .UI⟩

/-- Two single pixels at the two ends of the strip are committed. Merging
them would give an area of 5, more than twice the sum of 2: the accumulator
with the first one is given up, and the first pixel is never copied. -/
def farPixels : List Event :=
  [.commit [1, 1, 0, 0, 0, 0, 0, 0, 0, 0] ⟨0, 0, 1, 1⟩,
   .commit [1, 1, 0, 0, 0, 0, 0, 0, 2, 2] ⟨4, 0, 1, 1⟩]

theorem far_pixel_lost :
    ¬ ∀ h₀, start strip .Portrait none 5 1 = some h₀ →
      EveryStep step Admissible h₀ farPixels →
      ∃ h, run step h₀ farPixels = some h ∧ NothingLost h := by
  intro H
  obtain ⟨h₀, hstart⟩ : ∃ h₀, start strip .Portrait none 5 1 = some h₀ :=
    ⟨_, rfl⟩
  have hadm : ∀ h₀ ∈ start strip .Portrait none 5 1,
      EveryStep step Admissible h₀ farPixels := by
    decide +kernel
  obtain ⟨h, hrun, hN⟩ := H h₀ hstart (hadm h₀ hstart)
  obtain ⟨s, timeout, hloop, hs⟩ := hN.shown 500000000 500000000
  have hend : ∀ h₀ ∈ start strip .Portrait none 5 1,
      ∀ h ∈ run step h₀ farPixels,
      ∀ a ∈ eventLoop h.screen 500000000 500000000,
      a.2 = -1 ∧ ⟨0, 0, 1, 1⟩ ∈ h.committed ∧ a.1.OnPanel (0, 0) ∧
        pixel a.1.device.getData a.1.geometry.panelW a.1.geometry.bpp
            (rotate a.1.geometry a.1.effective (0, 0))
          ≠ pixel a.1.srcBuffer a.1.geometry.srcW a.1.geometry.bpp (0, 0) := by
    decide +kernel
  obtain ⟨ht, hmem, hon, hne⟩ := hend h₀ hstart h hrun (s, timeout) hloop
  exact hne (hs ht _ hmem (0, 0) (by decide) hon).1

end Rmcast.Screen
