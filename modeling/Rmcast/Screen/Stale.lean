import Rmcast.Lib.Picture
import Rmcast.Screen.Exact

/-!
# What earlier images leave on the panel

`blit_rotated` writes where the rotated source is and nowhere else, and
neither a switch of the orientation nor a new framebuffer clears the panel.
So the panel is a stack of images, the last one on top, and an earlier one
shows where it sticks out from under the last. Two runs that end alike leave
the same picture, with nothing of their past in it, exactly if every image of
either run stays within the panel rectangle of the final one.
-/

namespace Rmcast.Screen

open Mem Loop

/-! ## §1  Runs that resize -/

/-- A call of one of the operations, or of `create_framebuf`. -/
inductive Op where
  | act (a : Act)
  | createFramebuf (sw sh : ℤ)
deriving Repr

def State.apply (s : State) : Op → Option State
  | .act a => Screen.act s a
  | .createFramebuf sw sh => Screen.createFramebuf s sw sh

/-- The VNC library writes into the buffer it was given. -/
def SizedOp (s : State) : Op → Prop
  | .act a => Sized ⟨s, []⟩ a
  | .createFramebuf _ _ => True

instance (s : State) : ∀ op, Decidable (SizedOp s op)
  | .act a => inferInstanceAs (Decidable (Sized ⟨s, []⟩ a))
  | .createFramebuf _ _ => inferInstanceAs (Decidable True)

/-- The buffers have the sizes that the screen and the device report. -/
structure Sound (s : State) : Prop where
  ready : s.device.Ready
  xres : 0 ≤ s.device.getXres
  bpp : s.bytesPerPixel = 2
  src_length : (s.srcBuffer.length : ℤ) = s.srcWidth * 2 * s.srcHeight

/-- A new screen has no source. -/
theorem Sound.create {d : Device} (hd : d.Ready) (hx : 0 ≤ d.getXres) (o : Orientation)
    (env : Option (List Char)) : Sound (create d o env) where
  ready := hd
  xres := hx
  bpp := by simp [Screen.create, Device.getBitsPerPixel]
  src_length := rfl

/-! ## §2  The panel is a stack of images -/

/-- The picture on the panel. -/
def State.panel (s : State) (p : ℤ × ℤ) : Option (List UInt8) :=
  if p ∈ s.geometry.panel then
    pixel s.device.getData s.geometry.panelW s.geometry.bpp p
  else none

/-- The image that a repaint lays over it. -/
def State.image (s : State) (p : ℤ × ℤ) : Option (List UInt8) :=
  let q := transformInput s.geometry s.effective p
  if p ∈ s.geometry.panel ∧ q ∈ s.updateInfo.rect ∧ q ∈ s.geometry.source then
    pixel s.srcBuffer s.geometry.srcW s.geometry.bpp q
  else none

/-- The images of one call. -/
def laid (s : State) : Op → List (ℤ × ℤ → Option (List UInt8))
  | .act a => if Repaints s a then [s.image] else []
  | .createFramebuf _ _ => []

/-- The images of a run, from the source buffer, the sizes, the orientation and
the rectangle in force at each of its repaints. -/
def images (s : State) : List Op → List (ℤ × ℤ → Option (List UInt8))
  | [] => []
  | op :: ops => laid s op ++ (s.apply op).elim [] fun t => images t ops

/-- The panel rectangle of the whole source. -/
def footprint (s : State) : Rect := imageRect s.geometry s.effective s.geometry.source

/-- A repaint, if the call makes one, stays within `F`. -/
def LaysInside (F : Rect) (s : State) : Op → Prop
  | .act a => Repaints s a → imageRect s.geometry s.effective s.updateInfo.rect ⊆ F
  | .createFramebuf _ _ => True

instance (F : Rect) (s : State) : ∀ op, Decidable (LaysInside F s op)
  | .act _ => inferInstanceAs (Decidable (_ → _))
  | .createFramebuf _ _ => inferInstanceAs (Decidable True)

section Image

variable {s t : State} {p q : ℤ × ℤ}

theorem transformInput_rotate (hq : q ∈ s.geometry.source) :
    transformInput s.geometry s.effective (rotate s.geometry s.effective q) = q := by
  obtain ⟨hx, hx', hy, hy'⟩ := Rect.mem_full.mp hq
  exact (transformInput_eq_iff (hx.trans_lt hx') (hy.trans_lt hy')).mpr rfl

theorem image_of_covered (hr : q ∈ s.updateInfo.rect) (hq : q ∈ s.geometry.source)
    (hp : rotate s.geometry s.effective q ∈ s.geometry.panel) :
    s.image (rotate s.geometry s.effective q)
      = pixel s.srcBuffer s.geometry.srcW s.geometry.bpp q := by
  unfold State.image
  simp only [transformInput_rotate hq]
  exact if_pos ⟨hp, hr, hq⟩

theorem image_of_uncovered
    (h : ∀ q ∈ s.updateInfo.rect, q ∈ s.geometry.source → rotate s.geometry s.effective q ≠ p) :
    s.image p = none := by
  unfold State.image
  apply if_neg
  rintro ⟨-, hr, hq⟩
  obtain ⟨hx, hx', hy, hy'⟩ := Rect.mem_full.mp hq
  exact h _ hr hq ((transformInput_eq_iff (hx.trans_lt hx') (hy.trans_lt hy')).mp rfl)

theorem image_of_off (h : p ∉ s.geometry.panel) : s.image p = none :=
  if_neg fun hp => h hp.1

theorem panel_of_off (h : p ∉ s.geometry.panel) : s.panel p = none := if_neg h

theorem panel_of_on (h : p ∈ s.geometry.panel) :
    s.panel p = pixel s.device.getData s.geometry.panelW s.geometry.bpp p := if_pos h

theorem Sound.fits (hs : Sound s) : Fits s.geometry s.srcBuffer s.device.getData :=
  State.fits hs.ready hs.bpp hs.src_length

/-- The image is where `blit_rotated` says it has painted. -/
theorem Sound.image_eq_none_iff (hs : Sound s) :
    s.image p = none ↔ p ∉ imageRect s.geometry s.effective s.updateInfo.rect := by
  rw [hs.fits.mem_imageRect]
  constructor
  · rintro hnone ⟨hp, q, ⟨hr, hq⟩, rfl⟩
    obtain ⟨px, hpx⟩ := hs.fits.pixel_isSome hq
    rw [image_of_covered hr hq hp, hpx] at hnone
    cases hnone
  · intro h
    by_cases hp : p ∈ s.geometry.panel
    · exact image_of_uncovered fun q hr hq he => h ⟨hp, q, ⟨hr, hq⟩, he⟩
    · exact image_of_off hp

/-- What a copy leaves on the panel. -/
theorem Blitted.panel_eq {data : List UInt8} {d : Rect} (hs : Sound s)
    (hB : Blitted s.geometry s.effective s.srcBuffer s.device.getData s.updateInfo.rect data d)
    (hdata : t.device.getData = data) (hgeo : t.geometry = s.geometry) :
    t.panel = Picture.lay s.image s.panel := by
  ext1 p
  by_cases hp : p ∈ s.geometry.panel
  · have ht : t.panel p = pixel data s.geometry.panelW s.geometry.bpp p := by
      rw [← hgeo] at hp ⊢
      rw [panel_of_on hp, hdata]
    rw [ht]
    by_cases hcov : ∃ q ∈ s.updateInfo.rect, q ∈ s.geometry.source ∧
        rotate s.geometry s.effective q = p
    · obtain ⟨q, hr, hq, rfl⟩ := hcov
      obtain ⟨px, hpx⟩ := hs.fits.pixel_isSome hq
      rw [Picture.lay_of_some ((image_of_covered hr hq hp).trans hpx), ← hpx]
      exact hB.painted.shown q ⟨hr, hq⟩ hp
    · have hne : ∀ q ∈ s.updateInfo.rect, q ∈ s.geometry.source →
          rotate s.geometry s.effective q ≠ p := fun q hr hq he => hcov ⟨q, hr, hq, he⟩
      rw [Picture.lay_of_none (image_of_uncovered hne), panel_of_on hp]
      exact hB.painted.kept p hp fun q hq => hne q hq.1 hq.2
  · rw [Picture.lay_of_none (image_of_off hp), panel_of_off hp]
    rw [← hgeo] at hp
    exact panel_of_off hp

/-- What leads from `s` to `t` has laid the images `fs` over the panel. -/
structure Lays (s t : State) (fs : List (ℤ × ℤ → Option (List UInt8))) : Prop where
  sound : Sound t
  xres : t.device.getXres = s.device.getXres
  yres : t.device.getYres = s.device.getYres
  panel : t.panel = Picture.stack s.panel fs

theorem Lays.refl (hs : Sound s) : Lays s s [] := ⟨hs, rfl, rfl, rfl⟩

theorem Lays.trans {u : State} {fs gs : List (ℤ × ℤ → Option (List UInt8))} (h : Lays s t fs)
    (h' : Lays t u gs) : Lays s u (fs ++ gs) where
  sound := h'.sound
  xres := h'.xres.trans h.xres
  yres := h'.yres.trans h.yres
  panel := by rw [h'.panel, h.panel, Picture.stack_append]

/-- A step that leaves the panel and the sizes alone. -/
theorem Sound.keep (hs : Sound s) (hready : t.device.Ready)
    (hdata : t.device.getData = s.device.getData) (hx : t.device.getXres = s.device.getXres)
    (hy : t.device.getYres = s.device.getYres) (hbpp : t.bytesPerPixel = s.bytesPerPixel)
    (hsrc : (t.srcBuffer.length : ℤ) = t.srcWidth * 2 * t.srcHeight) : Lays s t [] := by
  refine ⟨⟨hready, by rw [hx]; exact hs.xres, hbpp.trans hs.bpp, hsrc⟩, hx, hy, ?_⟩
  ext1 p
  rw [Picture.stack_nil]
  unfold State.panel State.geometry
  simp only [hdata, hx, hy, hbpp]

/-- A repaint lays its image over the panel. -/
theorem Sound.repaint (hs : Sound s) {now : ℤ} (h : Screen.repaint s now = some t) :
    Lays s t [s.image] := by
  obtain ⟨data, d, device, hcopy, -, hB, hready, hcases⟩ :=
    copyToPanel_cases (s := beginRepaint s now) hs.ready hs.bpp hs.src_length
  have hrepaint : (copyToPanel (beginRepaint s now)).map
      (fun device => { beginRepaint s now with device := device }) = some t := by
    rw [← h]
    exact Option.map_eq_bind
  rw [hcopy] at hrepaint
  obtain rfl := Option.some.inj hrepaint
  -- an announcement changes nothing on the panel
  obtain ⟨hr, hdata, hx, hy⟩ : device.Ready ∧ device.getData = data ∧
      device.getXres = s.device.getXres ∧ device.getYres = s.device.getYres := by
    rcases hcases with ⟨-, rfl⟩ | ⟨-, -, hU⟩
    · exact ⟨hready, Device.setData_getData _ _, Device.setData_getXres _ _,
        Device.setData_getYres _ _⟩
    · exact ⟨hU.ready, hU.data.trans (Device.setData_getData _ _),
        hU.xres.trans (Device.setData_getXres _ _), hU.yres.trans (Device.setData_getYres _ _)⟩
  have hgeo : State.geometry { beginRepaint s now with device := device } = s.geometry := by
    unfold State.geometry
    simp only [hx, hy]
    rfl
  refine ⟨⟨hr, ?_, hs.bpp, hs.src_length⟩, hx, hy, hB.panel_eq hs hdata hgeo⟩
  show 0 ≤ device.getXres
  rw [hx]
  exact hs.xres

theorem Sound.commit (hs : Sound s) {src : List UInt8} {r : Rect}
    (hsrc : src.length = s.srcBuffer.length) (h : Screen.act s (.commit src r) = some t) :
    Lays s t [] := by
  have hlen : (src.length : ℤ) = s.srcWidth * 2 * s.srcHeight := by
    rw [hsrc]
    exact hs.src_length
  have hact : commitUpdates { s with srcBuffer := src } r = some t := h
  unfold commitUpdates at hact
  simp only at hact
  split at hact
  · split at hact
    · obtain ⟨device, hupd, hact⟩ := Option.bind_eq_some_iff.mp hact
      obtain rfl := Option.some.inj hact
      obtain ⟨device', hupd', hU⟩ := Device.update_spec hs.ready s.updateInfo.rect
        (State.waveformMode { s with srcBuffer := src })
      obtain rfl := Option.some.inj (hupd'.symm.trans hupd)
      exact hs.keep hU.ready hU.data hU.xres hU.yres rfl hlen
    · obtain rfl := Option.some.inj hact
      exact hs.keep hs.ready rfl rfl rfl rfl hlen
  · obtain rfl := Option.some.inj hact
    exact hs.keep hs.ready rfl rfl rfl rfl hlen

theorem Sound.setEffective (hs : Sound s) (o : Orientation) :
    Lays s (setEffectiveOrientation s o) [] := by
  unfold setEffectiveOrientation
  split
  · exact Lays.refl hs
  · split
    · exact Lays.refl hs
    · split
      · exact hs.keep hs.ready rfl rfl rfl rfl hs.src_length
      · exact hs.keep hs.ready rfl rfl rfl rfl hs.src_length

theorem Sound.createFramebuf (hs : Sound s) {sw sh : ℤ}
    (h : Screen.createFramebuf s sw sh = some t) : Lays s t [] := by
  obtain ⟨hw, hh, e, rfl⟩ := createFramebuf_cases h
  exact hs.keep hs.ready rfl rfl rfl rfl (replicate_length hw hh hs.bpp)

/-- **Step lemma**: what one call does to the panel. -/
theorem Sound.apply (hs : Sound s) {op : Op} (hop : SizedOp s op) (h : s.apply op = some t) :
    Lays s t (laid s op) := by
  cases op with
  | createFramebuf sw sh => exact hs.createFramebuf h
  | act a =>
      show Lays s t (if Repaints s a then [s.image] else [])
      cases a with
      | commit src r => exact hs.commit hop h
      | tick now now' =>
          have hact : (eventLoop s now now').map (·.1) = some t := h
          obtain ⟨⟨u, timeout⟩, hloop, rfl⟩ := Option.map_eq_some_iff.mp hact
          unfold eventLoop at hloop
          by_cases hrep : Repaints s (.tick now now')
          · rw [if_pos hrep.1, if_pos hrep.2] at hloop
            obtain ⟨u', hu, hloop⟩ := Option.bind_eq_some_iff.mp hloop
            obtain ⟨rfl, rfl⟩ := Prod.mk.inj (Option.some.inj hloop)
            rw [if_pos hrep]
            exact hs.repaint hu
          · rw [if_neg hrep]
            split at hloop
            · next hu =>
                rw [if_neg fun hw => hrep ⟨hu, hw⟩] at hloop
                obtain ⟨rfl, rfl⟩ := Prod.mk.inj (Option.some.inj hloop)
                exact Lays.refl hs
            · obtain ⟨rfl, rfl⟩ := Prod.mk.inj (Option.some.inj hloop)
              exact Lays.refl hs
      | repaint now => exact hs.repaint h
      | setMode mode =>
          obtain rfl := Option.some.inj h
          exact hs.keep hs.ready rfl rfl rfl rfl hs.src_length
      | setEffective o =>
          obtain rfl := Option.some.inj h
          exact hs.setEffective o

/-- **Run lemma**: the panel is what it was, under the images of the run. -/
theorem Sound.run {ops : List Op} (hs : Sound s) (hops : EveryStep State.apply SizedOp s ops)
    (h : run State.apply s ops = some t) : Lays s t (images s ops) := by
  induction ops generalizing s with
  | nil =>
      obtain rfl := Option.some.inj h
      exact Lays.refl hs
  | cons op ops ih =>
      rw [run_cons] at h
      obtain ⟨u, hu, hrun⟩ := Option.bind_eq_some_iff.mp h
      have hstep := hs.apply hops.1 hu
      have hrest := ih hstep.sound (hops.2 u hu) hrun
      unfold images
      rw [hu, Option.elim_some]
      exact hstep.trans hrest

/-- The panel keeps its size. -/
theorem Lays.panel_eq {fs : List (ℤ × ℤ → Option (List UInt8))} (h : Lays s t fs) :
    t.geometry.panel = s.geometry.panel := by
  unfold Geometry.panel State.geometry
  rw [h.xres, h.yres]

/-- One call leaves the panel outside `F` alone if it stays within `F`, and only
then. -/
theorem Sound.laid_none_iff (hs : Sound s) {F : Rect} (op : Op) :
    (∀ p ∈ s.geometry.panel, p ∉ F → ∀ f ∈ laid s op, f p = none) ↔ LaysInside F s op := by
  cases op with
  | createFramebuf sw sh => exact iff_of_true (fun _ _ _ f hf => by cases hf) trivial
  | act a =>
      show (∀ p ∈ s.geometry.panel, p ∉ F →
        ∀ f ∈ (if Repaints s a then [s.image] else []), f p = none) ↔ (Repaints s a → _)
      by_cases hrep : Repaints s a
      · simp only [if_pos hrep, List.mem_singleton, forall_eq, hs.image_eq_none_iff]
        constructor
        · intro h _ p hp
          by_contra hout
          exact h p ((hs.fits.mem_imageRect _ _ p).mp hp).1 hout hp
        · exact fun h p _ hout hp => hout (h hrep p hp)
      · simp only [if_neg hrep]
        exact iff_of_true (fun _ _ _ f hf => by cases hf) fun h => absurd h hrep

/-- **Run lemma**: the same for a run. -/
theorem Sound.images_none_iff {ops : List Op} {F : Rect} (hs : Sound s)
    (hops : EveryStep State.apply SizedOp s ops) :
    (∀ p ∈ s.geometry.panel, p ∉ F → ∀ f ∈ images s ops, f p = none) ↔
      EveryStep State.apply (LaysInside F) s ops := by
  induction ops generalizing s with
  | nil => exact iff_of_true (fun _ _ _ f hf => by cases hf) trivial
  | cons op ops ih =>
      have hrest : (∀ p ∈ s.geometry.panel, p ∉ F →
          ∀ f ∈ (s.apply op).elim [] fun t => images t ops, f p = none) ↔
          ∀ t ∈ s.apply op, EveryStep State.apply (LaysInside F) t ops := by
        cases hu : s.apply op with
        | none => exact iff_of_true (fun _ _ _ f hf => by cases hf) fun t ht => by cases ht
        | some t =>
            have hstep := hs.apply hops.1 hu
            have hih := ih hstep.sound (hops.2 t hu)
            rw [hstep.panel_eq] at hih
            rw [Option.elim_some, hih]
            exact ⟨fun h v hv => by cases hv; exact h, fun h => h t rfl⟩
      show (∀ p ∈ s.geometry.panel, p ∉ F →
        ∀ f ∈ laid s op ++ (s.apply op).elim [] fun t => images t ops, f p = none) ↔
          LaysInside F s op ∧ _
      rw [← hs.laid_none_iff op, ← hrest]
      simp only [List.mem_append, or_imp, forall_and]

end Image

/-! ## §3  Two runs -/

/-- A run that ends with a repaint of the whole source. -/
structure Arrives (s : State) (ops : List Op) (a : Act) (t u : State) : Prop where
  sound : Sound s
  sized : EveryStep State.apply SizedOp s ops
  before : run State.apply s ops = some t
  repaints : Repaints t a
  whole : ∀ q ∈ t.geometry.source, q ∈ t.updateInfo.rect
  after : act t a = some u

structure SamePanel (s s' : State) : Prop where
  data : s.device.getData = s'.device.getData
  xres : s.device.getXres = s'.device.getXres
  yres : s.device.getYres = s'.device.getYres

/-- Source buffer, source size and effective orientation agree. -/
structure SameSource (t t' : State) : Prop where
  buffer : t.srcBuffer = t'.srcBuffer
  width : t.srcWidth = t'.srcWidth
  height : t.srcHeight = t'.srcHeight
  effective : t.effective = t'.effective

/-- The last that a run shows at a panel position: the pixel of its last image
over the position, or what was there at the start. -/
def lastShown (s : State) (ops : List Op) (p : ℤ × ℤ) : Option (List UInt8) :=
  (Picture.top (images s ops) p).or (s.panel p)

/-- The panel position `p` is outside the image of the source. -/
def Margin (t : State) (p : ℤ × ℤ) : Prop :=
  p ∈ t.geometry.panel ∧ ∀ q ∈ t.geometry.source, rotate t.geometry t.effective q ≠ p

/-- Nothing of the run shows in the margins. -/
def Forgets (s : State) (ops : List Op) (t : State) : Prop :=
  ∀ p, Margin t p → Picture.top (images s ops) p = none

section Runs

variable {s s' t t' u u' : State} {ops ops' : List Op} {a a' : Act}

/-- The picture is the whole of the panel buffer. -/
theorem Sound.data_eq_iff (hs : Sound s) (hs' : Sound s')
    (hx : s.device.getXres = s'.device.getXres) (hy : s.device.getYres = s'.device.getYres) :
    s.device.getData = s'.device.getData ↔ s.panel = s'.panel := by
  have hgeo : s.geometry.panel = s'.geometry.panel := by
    unfold Geometry.panel State.geometry
    rw [hx, hy]
  constructor
  · intro hdata
    ext1 p
    unfold State.panel State.geometry
    simp only [hdata, hx, hy, hs.bpp, hs'.bpp]
  · intro hpanel
    have hlen := hs.ready.data_length
    have hlen' := hs'.ready.data_length
    have hsame : s'.device.getData.length = s.device.getData.length := by
      rw [hx, hy, ← hlen'] at hlen
      exact Int.ofNat_inj.mp hlen.symm
    refine ext_cell (k := 2) hs.xres hlen hsame fun x y h0 hx1 h1 hy1 => ?_
    have hp : (x, y) ∈ s.geometry.panel := Rect.mem_full.mpr ⟨h0, hx1, h1, hy1⟩
    have hat := congrFun hpanel (x, y)
    rw [panel_of_on hp, panel_of_on (hgeo ▸ hp)] at hat
    unfold pixel State.geometry at hat
    simp only [hs.bpp, hs'.bpp, ← hx] at hat
    exact hat

theorem Arrives.before_lays (h : Arrives s ops a t u) : Lays s t (images s ops) :=
  h.sound.run h.sized h.before

theorem Arrives.after_lays (h : Arrives s ops a t u) : Lays t u [t.image] := by
  have hsized : SizedOp t (.act a) := by
    have hrep := h.repaints
    cases a with
    | commit src r => exact hrep.elim
    | tick now now' => trivial
    | repaint now => trivial
    | setMode mode => trivial
    | setEffective o => trivial
  have hlaid : laid t (.act a) = [t.image] := if_pos h.repaints
  rw [← hlaid]
  exact h.before_lays.sound.apply hsized h.after

/-- The final image has no pixel in the margins, and one everywhere else. -/
theorem Arrives.image_eq_none_iff (h : Arrives s ops a t u) {p : ℤ × ℤ}
    (hp : p ∈ t.geometry.panel) : t.image p = none ↔ Margin t p := by
  constructor
  · intro hnone
    refine ⟨hp, ?_⟩
    rintro q hq rfl
    obtain ⟨px, hpx⟩ := h.before_lays.sound.fits.pixel_isSome hq
    rw [image_of_covered (h.whole q hq) hq hp, hpx] at hnone
    cases hnone
  · rintro ⟨-, hne⟩
    exact image_of_uncovered fun q _ hq => hne q hq

theorem Arrives.image_eq (h : Arrives s ops a t u) (h' : Arrives s' ops' a' t' u')
    (hgeo : t.geometry = t'.geometry) (hend : SameSource t t') : t.image = t'.image := by
  ext1 p
  have hwhole := h.whole
  have hwhole' := h'.whole
  rw [hgeo] at hwhole
  unfold State.image
  simp only [hgeo, hend.buffer, hend.effective]
  congr 1
  rw [eq_iff_iff]
  refine and_congr_right fun _ => ?_
  constructor
  · rintro ⟨-, hq⟩
    exact ⟨hwhole' _ hq, hq⟩
  · rintro ⟨-, hq⟩
    exact ⟨hwhole _ hq, hq⟩

theorem Arrives.geometry_eq (h : Arrives s ops a t u) (h' : Arrives s' ops' a' t' u')
    (hstart : SamePanel s s') (hend : SameSource t t') : t.geometry = t'.geometry := by
  unfold State.geometry
  rw [hend.width, hend.height, h.before_lays.xres, h.before_lays.yres, h'.before_lays.xres,
    h'.before_lays.yres, hstart.xres, hstart.yres, h.before_lays.sound.bpp,
    h'.before_lays.sound.bpp]

/-- The margins are what the final image leaves of the panel. -/
theorem Arrives.margin_iff (h : Arrives s ops a t u) {p : ℤ × ℤ} :
    Margin t p ↔ p ∈ s.geometry.panel ∧ p ∉ footprint t := by
  unfold Margin footprint
  rw [h.before_lays.sound.fits.mem_imageRect, h.before_lays.panel_eq]
  refine and_congr_right fun hp => ?_
  constructor
  · rintro hne ⟨-, q, ⟨hq, -⟩, he⟩
    exact hne q hq he
  · exact fun hout q hq he => hout ⟨hp, q, ⟨hq, hq⟩, he⟩

/-- Nothing of a run shows in the margins exactly if its images stay within the
final one. -/
theorem Arrives.forgets_iff (h : Arrives s ops a t u) :
    Forgets s ops t ↔ EveryStep State.apply (LaysInside (footprint t)) s ops := by
  rw [← h.sound.images_none_iff h.sized]
  unfold Forgets
  simp only [h.margin_iff, Picture.top_eq_none_iff, and_imp]

/-- Two runs that end alike leave the same picture if and only if they have last
shown the same in the margins. -/
theorem picture_eq_iff (h : Arrives s ops a t u) (h' : Arrives s' ops' a' t' u')
    (hstart : SamePanel s s') (hend : SameSource t t') :
    u.device.getData = u'.device.getData ↔
      ∀ p, Margin t p → lastShown s ops p = lastShown s' ops' p := by
  have hrun := h.before_lays
  have hrun' := h'.before_lays
  have hlast := h.after_lays
  have hlast' := h'.after_lays
  have hx : t.device.getXres = t'.device.getXres := by
    rw [hrun.xres, hrun'.xres, hstart.xres]
  have hy : t.device.getYres = t'.device.getYres := by
    rw [hrun.yres, hrun'.yres, hstart.yres]
  have hgeo := h.geometry_eq h' hstart hend
  have hshown : ∀ p, t.panel p = lastShown s ops p := by
    intro p
    rw [hrun.panel, Picture.stack_apply]
    rfl
  have hshown' : ∀ p, t'.panel p = lastShown s' ops' p := by
    intro p
    rw [hrun'.panel, Picture.stack_apply]
    rfl
  have hdata := hlast.sound.data_eq_iff hlast'.sound (by rw [hlast.xres, hlast'.xres, hx])
    (by rw [hlast.yres, hlast'.yres, hy])
  rw [hdata, hlast.panel, hlast'.panel, h.image_eq h' hgeo hend]
  show Picture.lay t'.image t.panel = Picture.lay t'.image t'.panel ↔ _
  rw [Picture.lay_eq_lay_iff, ← h.image_eq h' hgeo hend]
  constructor
  · intro heq p hp
    rw [← hshown, ← hshown']
    exact heq p ((h.image_eq_none_iff hp.1).mpr hp)
  · intro heq p hnone
    by_cases hp : p ∈ t.geometry.panel
    · rw [hshown, hshown']
      exact heq p ((h.image_eq_none_iff hp).mp hnone)
    · rw [panel_of_off hp, panel_of_off (hgeo ▸ hp)]

/-- **The picture forgets two runs** that end alike: it is the same, and nothing
of either run shows in the margins, if and only if every image of either run
has stayed within the panel rectangle of the final one. -/
theorem picture_forgets_iff (h : Arrives s ops a t u) (h' : Arrives s' ops' a' t' u')
    (hstart : SamePanel s s') (hend : SameSource t t') :
    (u.device.getData = u'.device.getData ∧ Forgets s ops t ∧ Forgets s' ops' t') ↔
      EveryStep State.apply (LaysInside (footprint t)) s ops ∧
        EveryStep State.apply (LaysInside (footprint t')) s' ops' := by
  rw [← h.forgets_iff, ← h'.forgets_iff]
  refine ⟨And.right, fun hforgets => ⟨?_, hforgets⟩⟩
  have hgeo := h.geometry_eq h' hstart hend
  have hpanel : s.panel = s'.panel :=
    (h.sound.data_eq_iff h'.sound hstart.xres hstart.yres).mp hstart.data
  refine (picture_eq_iff h h' hstart hend).mpr fun p hp => ?_
  have hp' : Margin t' p := by
    unfold Margin
    rw [← hgeo, ← hend.effective]
    exact hp
  unfold lastShown
  rw [hforgets.1 p hp, hforgets.2 p hp', hpanel]

end Runs

/-- An AppLoad panel of 2×2 pixels. -/
def board : Device where
  backend := .appload ⟨2, 2, List.replicate 8 0, .UI⟩

theorem board_sound : Sound (create board .Portrait none) :=
  Sound.create (by show ((List.replicate 8 (0 : UInt8)).length : ℤ) = 2 * 2 * 2; decide)
    (by decide) .Portrait none

/-- A source of two pixels side by side. -/
def pair : List Op :=
  [.createFramebuf 2 1, .act (.commit [1, 1, 2, 2] ⟨0, 0, 2, 1⟩)]

/-- The same, shown under another orientation for a while. -/
def turned (o : Orientation) : List Op :=
  pair ++ [.act (.repaint 0), .act (.setEffective o), .act (.repaint 1),
    .act (.setEffective .Portrait)]

/-- The runs end alike. -/
theorem board_arrives (ops : List Op)
    (hops : ops ∈ [pair, turned .InvertedPortrait, turned .LandscapeCW]) :
    ∃ t u, Arrives (create board .Portrait none) ops (.repaint 2) t u ∧
      t.geometry = ⟨2, 1, 2, 2, 2⟩ ∧ t.effective = .Portrait ∧ t.srcBuffer = [1, 1, 2, 2] := by
  have hall : ∀ ops ∈ [pair, turned .InvertedPortrait, turned .LandscapeCW],
      EveryStep State.apply SizedOp (create board .Portrait none) ops ∧
      (run State.apply (create board .Portrait none) ops).isSome ∧
      ∀ t ∈ run State.apply (create board .Portrait none) ops,
        t.updateInfo.rect = ⟨0, 0, 2, 1⟩ ∧ (repaint t 2).isSome ∧
        t.geometry = ⟨2, 1, 2, 2, 2⟩ ∧ t.effective = .Portrait ∧
        t.srcBuffer = [1, 1, 2, 2] := by
    decide +kernel
  obtain ⟨hsized, hrun, hend⟩ := hall ops hops
  obtain ⟨t, ht⟩ := Option.isSome_iff_exists.mp hrun
  obtain ⟨hrect, hrep, hgeo, heff, hsrc⟩ := hend t ht
  obtain ⟨u, hu⟩ := Option.isSome_iff_exists.mp hrep
  refine ⟨t, u, ⟨board_sound, hsized, ht, trivial, ?_, hu⟩, hgeo, heff, hsrc⟩
  rw [hrect, hgeo]
  exact fun q hq => hq

theorem SameSource.of_geometry {t t' : State} (hgeo : t.geometry = t'.geometry)
    (heff : t.effective = t'.effective) (hsrc : t.srcBuffer = t'.srcBuffer) :
    SameSource t t' :=
  ⟨hsrc, congrArg Geometry.srcW hgeo, congrArg Geometry.srcH hgeo, heff⟩

/-- Upside down, the source covers the same half of the panel. -/
theorem picture_forgets_inverted :
    ∃ t u t' u',
      Arrives (create board .Portrait none) pair (.repaint 2) t u ∧
      Arrives (create board .Portrait none) (turned .InvertedPortrait) (.repaint 2) t' u' ∧
      u.device.getData = u'.device.getData ∧
      Forgets (create board .Portrait none) pair t ∧
      Forgets (create board .Portrait none) (turned .InvertedPortrait) t' := by
  obtain ⟨t, u, h, hgeo, heff, hsrc⟩ := board_arrives pair (by simp)
  obtain ⟨t', u', h', hgeo', heff', hsrc'⟩ :=
    board_arrives (turned .InvertedPortrait) (by simp)
  have hinside : ∀ ops ∈ [pair, turned .InvertedPortrait],
      EveryStep State.apply (LaysInside (imageRect ⟨2, 1, 2, 2, 2⟩ .Portrait ⟨0, 0, 2, 1⟩))
        (create board .Portrait none) ops := by
    decide +kernel
  have hfoot : ∀ {t : State}, t.geometry = ⟨2, 1, 2, 2, 2⟩ → t.effective = .Portrait →
      footprint t = imageRect ⟨2, 1, 2, 2, 2⟩ .Portrait ⟨0, 0, 2, 1⟩ := by
    intro t hgeo heff
    unfold footprint
    rw [hgeo, heff]
    rfl
  refine ⟨t, u, t', u', h, h', ((picture_forgets_iff h h' ⟨rfl, rfl, rfl⟩ ?_).mpr ⟨?_, ?_⟩)⟩
  · exact SameSource.of_geometry (hgeo.trans hgeo'.symm) (heff.trans heff'.symm)
      (hsrc.trans hsrc'.symm)
  · rw [hfoot hgeo heff]
    exact hinside pair (by simp)
  · rw [hfoot hgeo' heff']
    exact hinside (turned .InvertedPortrait) (by simp)

/-- Sideways it does not: a strip of the turned image stays. -/
theorem strip_left :
    ¬ ∀ (s s' t t' u u' : State) (ops ops' : List Op) (a a' : Act),
      Arrives s ops a t u → Arrives s' ops' a' t' u' → SamePanel s s' → SameSource t t' →
      u.device.getData = u'.device.getData := by
  intro H
  obtain ⟨t, u, h, hgeo, heff, hsrc⟩ := board_arrives pair (by simp)
  obtain ⟨t', u', h', hgeo', heff', hsrc'⟩ := board_arrives (turned .LandscapeCW) (by simp)
  have heq := H _ _ _ _ _ _ _ _ _ _ h h' ⟨rfl, rfl, rfl⟩
    (SameSource.of_geometry (hgeo.trans hgeo'.symm) (heff.trans heff'.symm)
      (hsrc.trans hsrc'.symm))
  have hdata : ∀ t ∈ run State.apply (create board .Portrait none) pair,
      ∀ u ∈ repaint t 2, u.device.getData = [1, 1, 2, 2, 0, 0, 0, 0] := by
    decide +kernel
  have hdata' : ∀ t ∈ run State.apply (create board .Portrait none) (turned .LandscapeCW),
      ∀ u ∈ repaint t 2, u.device.getData = [1, 1, 2, 2, 2, 2, 0, 0] := by
    decide +kernel
  rw [hdata t h.before u h.after, hdata' t' h'.before u' h'.after] at heq
  exact absurd heq (by decide)

end Rmcast.Screen
