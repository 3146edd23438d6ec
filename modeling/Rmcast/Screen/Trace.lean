import Rmcast.Screen.Updates

/-!
# What a run of the screen announces

A run of `app::screen` is made of five operations: `commit_updates`,
`event_loop`, `repaint`, `set_repaint_mode` and `set_effective_orientation`.
A `Trace` keeps, next to the screen, a log of the rectangles committed, those
handed to `blit_rotated`, and those announced to the display.

What ends up in the log depends on a small part of the screen only: the
accumulator, its flag, the repaint mode and the effective orientation. §3 is
an abstract machine on that part, with one rule for each thing that can
happen, and §4 shows that a run of the screen is a run of that machine with
the same log. Properties of announcements are proved of the rules.
-/

namespace Rmcast.Screen

open Loop

/-! ## §1  The operations -/

/-- `screen::set_effective_orientation`. -/
def setEffectiveOrientation (s : State) (o : Orientation) : State :=
  if o = .Auto then s
  else if s.effective = o then s
  else if s.srcWidth > 0 ∧ s.srcHeight > 0 then
    { s with
      effective := o
      updateInfo := ⟨⟨0, 0, s.srcWidth, s.srcHeight⟩, true⟩ }
  else { s with effective := o }

/-- A call of one of the operations, with the instants its clock readings
return. A commit comes with the source buffer the VNC library has written. -/
inductive Act where
  | commit (src : List UInt8) (r : Rect)
  | tick (now now' : ℤ)
  | repaint (now : ℤ)
  | setMode (mode : RepaintMode)
  | setEffective (o : Orientation)
deriving Repr

def act (s : State) : Act → Option State
  | .commit src r => commitUpdates { s with srcBuffer := src } r
  | .tick now now' => (eventLoop s now now').map (·.1)
  | .repaint now => repaint s now
  | .setMode mode => some (setRepaintMode s mode)
  | .setEffective o => some (setEffectiveOrientation s o)

/-! ## §2  The log -/

inductive Entry where
  | committed (r : Rect)
  /-- `blit_rotated` of the source rectangle `r`. -/
  | copied (o : Orientation) (r : Rect)
  /-- `device.update` of `d`, with the orientation and the repaint mode in
  force. -/
  | announced (d : Rect) (o : Orientation) (mode : RepaintMode)
deriving DecidableEq, Repr

structure Trace where
  screen : State
  log : List Entry := []

/-- The last entry of a log is the one a split is at, or comes after it. -/
theorem snoc_eq_split {α : Type*} {l before after : List α} {e x : α}
    (h : l ++ [e] = before ++ x :: after) :
    (l = before ∧ e = x ∧ after = []) ∨
      ∃ rest, after = rest ++ [e] ∧ l = before ++ x :: rest := by
  rcases List.eq_nil_or_concat after with rfl | ⟨rest, y, rfl⟩
  · obtain ⟨hl, he⟩ := List.append_inj' h rfl
    cases he
    exact Or.inl ⟨hl, rfl, rfl⟩
  · rw [List.concat_eq_append, ← List.cons_append, ← List.append_assoc] at h
    obtain ⟨hl, he⟩ := List.append_inj' h rfl
    cases he
    exact Or.inr ⟨rest, List.concat_eq_append .., hl⟩

/-- The call runs `repaint`. -/
def Repaints (s : State) : Act → Prop
  | .tick now _ => s.updateInfo.hasUpdate = true ∧ waitTime s now ≤ 0
  | .repaint _ => True
  | .commit _ _ | .setMode _ | .setEffective _ => False

instance (s : State) : ∀ a, Decidable (Repaints s a)
  | .tick _ _ => inferInstanceAs (Decidable (_ ∧ _))
  | .repaint _ => inferInstanceAs (Decidable True)
  | .commit _ _ | .setMode _ | .setEffective _ => inferInstanceAs (Decidable False)

def copies (s : State) (a : Act) : List Entry :=
  if Repaints s a then [.copied s.effective s.updateInfo.rect] else []

theorem copies_of_repaints {s : State} {a : Act} (h : Repaints s a) :
    copies s a = [.copied s.effective s.updateInfo.rect] :=
  if_pos h

theorem copies_of_not_repaints {s : State} {a : Act} (h : ¬ Repaints s a) :
    copies s a = [] :=
  if_neg h

/-- What the device has announced on top of what it had. -/
def announcements (s s' : State) : List Entry :=
  (s'.device.announced.drop s.device.announced.length).map fun e =>
    .announced e.1 s'.effective s'.repaintMode

def commits : Act → List Entry
  | .commit _ r => [.committed r]
  | .tick _ _ | .repaint _ | .setMode _ | .setEffective _ => []

def Trace.step (t : Trace) (a : Act) : Option Trace :=
  (act t.screen a).map fun s =>
    ⟨s, t.log ++ (copies t.screen a ++ announcements t.screen s ++ commits a)⟩

/-- A new screen once its framebuffer is there. -/
def Trace.start (d : Device) (o : Orientation) (env : Option (List Char))
    (sw sh : ℤ) : Option Trace :=
  (createFramebuf (create d o env) sw sh).map fun s => ⟨s, []⟩

/-- The VNC library writes into the buffer it was given. -/
def Sized (t : Trace) : Act → Prop
  | .commit src _ => src.length = t.screen.srcBuffer.length
  | .tick _ _ | .repaint _ | .setMode _ | .setEffective _ => True

instance (t : Trace) : ∀ a, Decidable (Sized t a)
  | .commit _ _ => inferInstanceAs (Decidable (_ = _))
  | .tick _ _ | .repaint _ | .setMode _ | .setEffective _ =>
      inferInstanceAs (Decidable True)

/-! ## §3  The abstract machine -/

/-- The part of the screen that decides what is announced. -/
structure Track where
  rect : Rect
  hasUpdate : Bool
  mode : RepaintMode
  effective : Orientation
deriving DecidableEq, Repr

def State.track (s : State) : Track :=
  ⟨s.updateInfo.rect, s.updateInfo.hasUpdate, s.repaintMode, s.effective⟩

/-- The panel rectangle `blit_rotated` hands back. -/
def imageRect (g : Geometry) (o : Orientation) (s : Rect) : Rect :=
  let c := s.clamp g.srcW g.srcH
  if c.w ≤ 0 ∨ c.h ≤ 0 then ⟨0, 0, 0, 0⟩
  else match o with
  | .Portrait | .Auto =>
      let copyW := min c.w (g.panelW - c.x)
      let copyH := min c.h (g.panelH - c.y)
      if copyW ≤ 0 ∨ copyH ≤ 0 then ⟨0, 0, 0, 0⟩
      else clampToPanel g ⟨c.x, c.y, copyW, copyH⟩
  | .InvertedPortrait =>
      clampToPanel g ⟨g.srcW - c.x - c.w, g.srcH - c.y - c.h, c.w, c.h⟩
  | .LandscapeCW => clampToPanel g ⟨g.srcH - c.y - c.h, c.x, c.h, c.w⟩
  | .LandscapeCCW => clampToPanel g ⟨c.y, g.srcW - c.x - c.w, c.h, c.w⟩

/-- An empty rectangle is not announced. -/
def announce (d : Rect) (o : Orientation) (mode : RepaintMode) : List Entry :=
  if d.w ≤ 0 ∨ d.h ≤ 0 then [] else [.announced d o mode]

/-- What a repaint adds to the log. -/
def Track.repaintLog (g : Geometry) (k : Track) : List Entry :=
  .copied k.effective k.rect ::
    announce (imageRect g k.effective k.rect) k.effective k.mode

/-- A standard repaint clears the flag. -/
def Track.afterRepaint (k : Track) : Track :=
  { k with hasUpdate := if k.mode = .standard then false else k.hasUpdate }

/-- One operation: the entries it adds and the state it leaves. -/
inductive Move (g : Geometry) (k : Track) : Act → List Entry → Track → Prop
  | idle (a : Act) : Move g k a [] k
  | fresh (src : List UInt8) (r : Rect) (hu : k.hasUpdate = false) :
      Move g k (.commit src r) [.committed r] { k with rect := r, hasUpdate := true }
  | merge (src : List UInt8) (r : Rect) (hu : k.hasUpdate = true)
      (hb : badMerge k.rect r = false) :
      Move g k (.commit src r) [.committed r] { k with rect := k.rect.hull r }
  /-- The accumulator is announced as it is, in source coordinates. -/
  | flush (src : List UInt8) (r : Rect) (hu : k.hasUpdate = true)
      (hb : badMerge k.rect r = true) :
      Move g k (.commit src r)
        [.announced k.rect k.effective k.mode, .committed r] { k with rect := r }
  | tick (now now' : ℤ) (hu : k.hasUpdate = true) :
      Move g k (.tick now now') (k.repaintLog g) k.afterRepaint
  | repaint (now : ℤ) : Move g k (.repaint now) (k.repaintLog g) k.afterRepaint
  | setMode (mode : RepaintMode) :
      Move g k (.setMode mode) [] { k with mode := mode }
  | setEffective (o : Orientation) (ho : o ≠ .Auto) (hne : o ≠ k.effective) :
      Move g k (.setEffective o) []
        { k with effective := o, rect := g.source, hasUpdate := true }

/-- The call gives up an accumulator. -/
def Flushes (s : State) : Act → Prop
  | .commit _ r => s.updateInfo.hasUpdate = true ∧ badMerge s.updateInfo.rect r = true
  | .tick _ _ | .repaint _ | .setMode _ | .setEffective _ => False

instance (s : State) : ∀ a, Decidable (Flushes s a)
  | .commit _ _ => inferInstanceAs (Decidable (_ ∧ _))
  | .tick _ _ | .repaint _ | .setMode _ | .setEffective _ =>
      inferInstanceAs (Decidable False)

/-! ## §4  The screen runs on the abstract machine -/

/-- The buffers of the screen have the sizes of the geometry. -/
structure Wired (g : Geometry) (s : State) : Prop where
  ready : s.device.Ready
  geometry : s.geometry = g
  bpp : s.bytesPerPixel = 2
  src_length : (s.srcBuffer.length : ℤ) = g.srcW * 2 * g.srcH
  src_pos : 0 < g.srcW ∧ 0 < g.srcH

theorem Device.setData_announced (d : Device) (b : List UInt8) :
    (d.setData b).announced = d.announced := by
  unfold Device.setData
  cases d.backend <;> rfl

theorem Device.update_announced {d d' : Device} {r : Rect} {mode : RefreshMode}
    (h : d.update r mode = some d') : d'.announced = d.announced ++ [(r, mode)] := by
  unfold Device.update at h
  cases hb : d.backend with
  | appload q =>
      rw [hb] at h
      cases h
      rfl
  | vncast c =>
      rw [hb] at h
      simp only at h
      cases hs : Vncast.sendPartialUpdate c r with
      | none =>
          rw [hs] at h
          cases h
      | some x =>
          rw [hs] at h
          cases h
          rfl

/-- The rectangle `blit_rotated` hands back does not depend on the buffers. -/
theorem blitRotated_rect {g : Geometry} {o : Orientation} {src dst dst' : List UInt8}
    {s d : Rect} (h : blitRotated g o src dst s = some (dst', d)) :
    d = imageRect g o s := by
  have hloop : ∀ {x : Option (List UInt8)} {r : Rect},
      (x.bind fun b => some (b, r)) = some (dst', d) → d = r := by
    intro x r hx
    cases x with
    | none => cases hx
    | some b =>
        cases hx
        rfl
  unfold blitRotated at h
  unfold imageRect
  simp only at h ⊢
  split at h
  · rename_i hemp
    cases h
    rw [if_pos hemp]
  · rename_i hemp
    rw [if_neg hemp]
    cases o with
    | Portrait | Auto =>
        simp only at h ⊢
        split at h
        · rename_i hcrop
          cases h
          rw [if_pos hcrop]
        · rename_i hcrop
          rw [if_neg hcrop]
          exact hloop h
    | InvertedPortrait | LandscapeCW | LandscapeCCW => exact hloop h

theorem Wired.fits {g : Geometry} {s : State} (hs : Wired g s) :
    Fits g s.srcBuffer s.device.getData := by
  have hgeo := hs.geometry
  have hbpp : g.bpp = 2 := by
    rw [← hgeo]
    exact hs.bpp
  constructor
  · rw [hbpp]
    exact hs.src_length
  · rw [hbpp, ← hgeo]
    exact hs.ready.data_length

/-- The panel rectangle is the image of the source rectangle. -/
theorem Fits.mem_imageRect {g : Geometry} {src dst : List UInt8} (h : Fits g src dst)
    (o : Orientation) (r : Rect) (p : ℤ × ℤ) :
    p ∈ imageRect g o r ↔
      p ∈ g.panel ∧ ∃ q, (q ∈ r ∧ q ∈ g.source) ∧ rotate g o q = p := by
  obtain ⟨dst', d, hblit, hB⟩ := blitRotated_spec (o := o) (s := r) h
  rw [← blitRotated_rect hblit]
  exact hB.announced p

theorem Wired.mem_imageRect {g : Geometry} {s : State} (hs : Wired g s)
    (o : Orientation) (r : Rect) (p : ℤ × ℤ) :
    p ∈ imageRect g o r ↔
      p ∈ g.panel ∧ ∃ q, (q ∈ r ∧ q ∈ g.source) ∧ rotate g o q = p :=
  hs.fits.mem_imageRect o r p

theorem announcements_of_append {s s' : State} {l : List (Rect × RefreshMode)}
    (h : s'.device.announced = s.device.announced ++ l) :
    announcements s s' = l.map fun e => .announced e.1 s'.effective s'.repaintMode := by
  unfold announcements
  rw [h, List.drop_left]

section Refinement

variable {g : Geometry} {s : State}

/-- A repaint is the abstract one. -/
theorem Wired.repaint (hs : Wired g s) (now : ℤ) :
    ∃ s', Screen.repaint s now = some s' ∧ Wired g s' ∧
      s'.track = s.track.afterRepaint ∧
      announcements s s' = announce (imageRect g s.effective s.updateInfo.rect)
        s.effective s.repaintMode := by
  have hsrc : (s.srcBuffer.length : ℤ) = s.srcWidth * 2 * s.srcHeight := by
    rw [hs.src_length, ← hs.geometry]
    rfl
  obtain ⟨data, d, dev, hcopy, hblit, -, hready, hcases⟩ :=
    copyToPanel_cases (s := beginRepaint s now) hs.ready hs.bpp hsrc
  have hd : d = imageRect g s.effective s.updateInfo.rect := by
    rw [← hs.geometry]
    exact blitRotated_rect hblit
  -- the device after the announcement, if there is one
  obtain ⟨hr, hx, hy, hann⟩ : dev.Ready ∧ dev.getXres = s.device.getXres ∧
      dev.getYres = s.device.getYres ∧ dev.announced = s.device.announced ++
        if d.w ≤ 0 ∨ d.h ≤ 0 then [] else [(d, s.waveformMode)] := by
    rcases hcases with ⟨hempty, rfl⟩ | ⟨hempty, hupd, hU⟩
    · rw [if_pos hempty, List.append_nil]
      exact ⟨hready, Device.setData_getXres _ _, Device.setData_getYres _ _,
        Device.setData_announced _ _⟩
    · rw [if_neg hempty]
      refine ⟨hU.ready, hU.xres.trans (Device.setData_getXres _ _),
        hU.yres.trans (Device.setData_getYres _ _), ?_⟩
      rw [Device.update_announced hupd, Device.setData_announced]
      rfl
  refine ⟨{ beginRepaint s now with device := dev }, ?_, ?_, rfl, ?_⟩
  · show (copyToPanel (beginRepaint s now)).bind _ = _
    rw [hcopy]
    rfl
  · refine ⟨hr, ?_, hs.bpp, hs.src_length, hs.src_pos⟩
    rw [← hs.geometry]
    simp only [State.geometry, hx, hy]
    rfl
  · rw [announcements_of_append hann, ← hd]
    unfold announce
    split
    · rfl
    · rfl

/-- The call goes well, and is a move of the abstract machine that adds the
same entries. -/
def Steps (g : Geometry) (t : Trace) (a : Act) : Prop :=
  ∃ t' es, t.step a = some t' ∧ Wired g t'.screen ∧ t'.log = t.log ++ es ∧
    Move g t.screen.track a es t'.screen.track

theorem announcements_of_device {s s' : State} (h : s'.device = s.device) :
    announcements s s' = [] := by
  rw [announcements_of_append (l := []) (by rw [h, List.append_nil])]
  rfl

theorem Wired.step_commit (hs : Wired g s) (log : List Entry) {src : List UInt8} {r : Rect}
    (hsrc : src.length = s.srcBuffer.length) : Steps g ⟨s, log⟩ (.commit src r) := by
  have hw : ∀ {u : UpdateInfo} {dev : Device}, dev.Ready →
      dev.getXres = s.device.getXres → dev.getYres = s.device.getYres →
      Wired g { s with srcBuffer := src, updateInfo := u, device := dev } := by
    intro u dev hr hx hy
    refine ⟨hr, ?_, hs.bpp, ?_, hs.src_pos⟩
    · rw [← hs.geometry]
      simp only [State.geometry, hx, hy]
    · show (src.length : ℤ) = _
      rw [hsrc]
      exact hs.src_length
  show ∃ t' es, Option.map _ (commitUpdates { s with srcBuffer := src } r) = some t' ∧ _
  unfold commitUpdates
  simp only
  by_cases hu : s.updateInfo.hasUpdate = true
  · by_cases hb : badMerge s.updateInfo.rect r = true
    · obtain ⟨dev, hupd, hU⟩ := Device.update_spec hs.ready s.updateInfo.rect
        s.waveformMode
      rw [if_pos hu, if_pos hb]
      refine ⟨_, _, by
        simp only [State.waveformMode] at hupd ⊢
        rw [hupd]
        rfl, hw hU.ready hU.xres hU.yres, rfl, ?_⟩
      rw [announcements_of_append (Device.update_announced hupd)]
      have hmove := Move.flush (g := g) (k := s.track) src r hu hb
      simp only [State.track, hu] at hmove ⊢
      exact hmove
    · rw [if_pos hu, if_neg hb]
      refine ⟨_, _, rfl, hw hs.ready rfl rfl, rfl, ?_⟩
      rw [announcements_of_device (by rfl)]
      exact Move.merge (k := s.track) src r hu (Bool.eq_false_of_not_eq_true hb)
  · rw [if_neg hu]
    refine ⟨_, _, rfl, hw hs.ready rfl rfl, rfl, ?_⟩
    rw [announcements_of_device (by rfl)]
    exact Move.fresh (k := s.track) src r (Bool.eq_false_of_not_eq_true hu)

/-- A call that runs `repaint`. -/
theorem Wired.step_repaints (hs : Wired g s) (log : List Entry) {a : Act} (ha : Repaints s a) :
    ∃ t', Trace.step ⟨s, log⟩ a = some t' ∧ Wired g t'.screen ∧
      t'.log = log ++ s.track.repaintLog g ∧
      t'.screen.track = s.track.afterRepaint := by
  obtain ⟨now, hact, hcom⟩ : ∃ now, act s a = Screen.repaint s now ∧ commits a = [] := by
    cases a with
    | tick now now' =>
        refine ⟨now', ?_, rfl⟩
        show (eventLoop s now now').map (·.1) = _
        unfold eventLoop
        rw [if_pos ha.1, if_pos ha.2]
        cases Screen.repaint s now' <;> rfl
    | repaint now => exact ⟨now, rfl, rfl⟩
    | commit src r => exact ha.elim
    | setMode mode => exact ha.elim
    | setEffective o => exact ha.elim
  obtain ⟨s', hrep, hw, htr, hann⟩ := hs.repaint now
  refine ⟨_, by
    show Option.map _ (act s a) = _
    rw [hact, hrep]
    rfl, hw, ?_, htr⟩
  show log ++ _ = _
  rw [hann, copies_of_repaints ha, hcom, List.append_nil]
  rfl

theorem Wired.steps_repaints (hs : Wired g s) (log : List Entry) {a : Act} (ha : Repaints s a) :
    Steps g ⟨s, log⟩ a := by
  obtain ⟨t', hrun, hw, hlog, htr⟩ := hs.step_repaints log ha
  refine ⟨t', _, hrun, hw, hlog, ?_⟩
  rw [htr]
  cases a with
  | tick now now' => exact Move.tick now now' ha.1
  | repaint now => exact Move.repaint now
  | commit src r => exact ha.elim
  | setMode mode => exact ha.elim
  | setEffective o => exact ha.elim

theorem Wired.step_tick (hs : Wired g s) (log : List Entry) (now now' : ℤ) :
    Steps g ⟨s, log⟩ (.tick now now') := by
  by_cases ha : Repaints s (.tick now now')
  · exact hs.steps_repaints log ha
  · have hidle : act s (.tick now now') = some s := by
      show (eventLoop s now now').map (·.1) = _
      unfold eventLoop
      by_cases hu : s.updateInfo.hasUpdate = true
      · rw [if_pos hu, if_neg fun hw => ha ⟨hu, hw⟩]
        rfl
      · rw [if_neg hu]
        rfl
    refine ⟨_, _, by
      show Option.map _ (act s (.tick now now')) = _
      rw [hidle]
      rfl, hs, rfl, ?_⟩
    rw [announcements_of_device (by rfl), copies_of_not_repaints ha]
    exact Move.idle _

theorem Wired.step_setEffective (hs : Wired g s) (log : List Entry) (o : Orientation) :
    Steps g ⟨s, log⟩ (.setEffective o) := by
  have hgeo : s.srcWidth = g.srcW ∧ s.srcHeight = g.srcH := by
    rw [← hs.geometry]
    exact ⟨rfl, rfl⟩
  show ∃ t' es, some (Trace.mk (setEffectiveOrientation s o) _) = some t' ∧ _
  unfold setEffectiveOrientation
  by_cases ho : o = .Auto
  · rw [if_pos ho]
    refine ⟨_, _, rfl, hs, rfl, ?_⟩
    rw [announcements_of_device (by rfl)]
    exact Move.idle _
  by_cases hsame : s.effective = o
  · rw [if_neg ho, if_pos hsame]
    refine ⟨_, _, rfl, hs, rfl, ?_⟩
    rw [announcements_of_device (by rfl)]
    exact Move.idle _
  have hpos : s.srcWidth > 0 ∧ s.srcHeight > 0 := by
    rw [hgeo.1, hgeo.2]
    exact hs.src_pos
  rw [if_neg ho, if_neg hsame, if_pos hpos]
  refine ⟨_, _, rfl, ⟨hs.ready, hs.geometry, hs.bpp, hs.src_length, hs.src_pos⟩,
    rfl, ?_⟩
  rw [announcements_of_device (by rfl)]
  have hmove := Move.setEffective (g := g) (k := s.track) o ho fun h => hsame h.symm
  simp only [State.track, Geometry.source, Rect.full, ← hgeo.1, ← hgeo.2] at hmove ⊢
  exact hmove

/-- **One operation** of the screen is a move of the abstract machine. -/
theorem Wired.step {t : Trace} (ht : Wired g t.screen) {a : Act} (ha : Sized t a) :
    Steps g t a := by
  obtain ⟨s, log⟩ := t
  cases a with
  | commit src r => exact ht.step_commit log ha
  | tick now now' => exact ht.step_tick log now now'
  | repaint now => exact ht.steps_repaints log trivial
  | setMode mode =>
      refine ⟨_, _, rfl, ⟨ht.ready, ht.geometry, ht.bpp, ht.src_length, ht.src_pos⟩,
        rfl, ?_⟩
      rw [announcements_of_device (by rfl)]
      exact Move.setMode (k := s.track) mode
  | setEffective o => exact ht.step_setEffective log o

/-- **Run rule.** A property of the abstract state and the log that every
move preserves, whenever the call it comes from is one that is admitted,
holds at the end of every run of admitted calls. -/
theorem Wired.run {P : Trace → Act → Prop} {I : Track → List Entry → Prop}
    (hsized : ∀ t a, P t a → Sized t a)
    (hstep : ∀ t a t' es, Wired g t.screen → I t.screen.track t.log → P t a →
      t.step a = some t' → Move g t.screen.track a es t'.screen.track →
      I t'.screen.track (t.log ++ es))
    {t : Trace} (ht : Wired g t.screen) (hI : I t.screen.track t.log)
    {as : List Act} (has : EveryStep Trace.step P t as) :
    ∃ t', run Trace.step t as = some t' ∧ Wired g t'.screen ∧
      I t'.screen.track t'.log := by
  refine run_inv (fun t => Wired g t.screen ∧ I t.screen.track t.log) ?_ ⟨ht, hI⟩ has
  rintro t a ⟨ht, hI⟩ hP
  obtain ⟨t', es, hrun, ht', hlog, hmove⟩ := ht.step (hsized t a hP)
  refine ⟨t', hrun, ht', ?_⟩
  rw [hlog]
  exact hstep t a t' es ht hI hP hrun hmove

end Refinement

/-- A new screen, but for the orientation in force. -/
theorem Trace.start_cases {d : Device} {o : Orientation} {env : Option (List Char)}
    {sw sh : ℤ} {t : Trace} (h : Trace.start d o env sw sh = some t) :
    0 < sw ∧ 0 < sh ∧ ∃ e, t =
      { screen := { create d o env with
          srcWidth := sw
          srcHeight := sh
          effective := e
          srcBuffer :=
            List.replicate (sw * sh * ((create d o env).bytesPerPixel : ℤ)).toNat 0 }
        log := [] } := by
  obtain ⟨s, hs, rfl⟩ := Option.map_eq_some_iff.mp h
  obtain ⟨hw, hh, e, rfl⟩ := createFramebuf_cases hs
  exact ⟨hw, hh, e, rfl⟩

/-- A new screen is wired, and its log is empty. -/
theorem Trace.start_wired {d : Device} {o : Orientation} {env : Option (List Char)}
    {sw sh : ℤ} {t : Trace} (hd : d.Ready) (h : Trace.start d o env sw sh = some t) :
    Wired t.screen.geometry t.screen ∧ t.log = [] := by
  obtain ⟨hw, hh, e, rfl⟩ := Trace.start_cases h
  exact ⟨⟨hd, rfl, create_bytesPerPixel d o env,
    replicate_length hw hh (create_bytesPerPixel d o env), hw, hh⟩, rfl⟩

end Rmcast.Screen
