import Rmcast.Screen.Trace

/-!
# The area arithmetic

`commit_updates` takes the areas of the accumulator and of the new rectangle
as `int` products and widens them afterwards; the merged area is widened
first. An accumulator that is given up goes through `device.update` to
`classify_frame_mode`, in source coordinates, where its area and that of the
panel are scaled by 100 and by 40, again as `int`s. Which sizes of source and
panel let a product overflow is a condition on the sizes alone, since every
rectangle of the source can get into the accumulator.
-/

namespace Rmcast.Screen

open Loop Vncast Word

/-! ## §1  The products -/

/-- The value is one of a 32-bit `int`. -/
def FitsInt (z : ℤ) : Prop := -2 ^ 31 ≤ z ∧ z < 2 ^ 31

/-- The products `classify_frame_mode` comes to, of the panel area `total` and
the area of the update. -/
def classifyProducts (total area : ℤ) : List ℤ :=
  if total ≤ 0 then [area, total]
  else if area * 100 < total then [area, total, area * 100]
  else [area, total, area * 100, total * 40]

/-- `classify_frame_mode` without a bound on its `int`s. -/
def exactMode (total area : ℤ) : UInt32 :=
  if total ≤ 0 then 2
  else if area * 100 < total then 2
  else if area * 100 < total * 40 then 1
  else 3

/-- `merged_area > sum_area * 2` without a bound on the areas. -/
def exactMerge (u r : Rect) : Bool :=
  decide ((u.hull r).area > (u.area + r.area) * 2)

/-- The area of the panel. -/
def Device.panelArea (d : Device) : ℤ := d.getXres * d.getYres

/-- The products of `commit_updates`, and of what it calls. -/
def commitProducts (s : State) (r : Rect) : List ℤ :=
  let u := s.updateInfo.rect
  if s.updateInfo.hasUpdate then
    [u.area, r.area] ++
      if badMerge u r ∧ s.device.isVncast then
        classifyProducts s.device.panelArea u.area
      else []
  else []

/-- The `FRAME` that `commit_updates` sends. -/
def flushFrame (s : State) (r : Rect) : Option Qtfb.Frame :=
  if s.updateInfo.hasUpdate ∧ badMerge s.updateInfo.rect r then
    match s.device.backend with
    | .vncast c => (sendPartialUpdate c s.updateInfo.rect).map (·.2)
    | .appload _ => none
  else none

/-- How long an update of the mode takes: `Animation`, `Mono`, `Content`. -/
def modeRank (mode : UInt32) : ℕ :=
  if mode = 3 then 2 else if mode = 1 then 1 else 0

/-- The commit of `r` is decided as in exact arithmetic. -/
structure CommitExact (s : State) (r : Rect) : Prop where
  products : ∀ z ∈ commitProducts s r, FitsInt z
  merge : s.updateInfo.hasUpdate = true →
    badMerge s.updateInfo.rect r = exactMerge s.updateInfo.rect r
  mode : ∀ m ∈ flushFrame s r,
    m.mode = exactMode s.device.panelArea s.updateInfo.rect.area

/-- A commit is for a rectangle of the source. -/
def Admitted (t : Trace) : Act → Prop
  | .commit src r =>
      src.length = t.screen.srcBuffer.length ∧
        r.Inside t.screen.srcWidth t.screen.srcHeight
  | .tick _ _ | .repaint _ | .setMode _ | .setEffective _ => True

/-- In a run from `t₀` the rectangle `r` is committed in the state `t`. -/
def Reaches (t₀ t : Trace) (r : Rect) : Prop :=
  ∃ as src, run Trace.step t₀ as = some t ∧ EveryStep Trace.step Admitted t₀ as ∧
    Admitted t (.commit src r)

/-- **Areas do not wrap** in any run, and a larger update never gets a faster
mode. -/
structure AreasExact (t₀ : Trace) : Prop where
  exact : ∀ t r, Reaches t₀ t r → CommitExact t.screen r
  monotone : ∀ t r t' r', Reaches t₀ t r → Reaches t₀ t' r' →
    ∀ m ∈ flushFrame t.screen r, ∀ m' ∈ flushFrame t'.screen r',
      t.screen.updateInfo.rect.area ≤ t'.screen.updateInfo.rect.area →
      modeRank m.mode ≤ modeRank m'.mode

/-- The panel is small enough for every rectangle that has less than half the
area of the source. -/
def PanelFits (total sw sh : ℤ) : Prop :=
  total < 2 ^ 31 ∧ ∀ w h, 0 ≤ w → w ≤ sw → 0 ≤ h → h ≤ sh → 2 * (w * h) < sw * sh →
    w * h * 100 < 2 ^ 31 ∧ (total ≤ w * h * 100 → total * 40 < 2 ^ 31)

/-- The sizes of source and panel let no product overflow. -/
def SizesFit (d : Device) (sw sh : ℤ) : Prop :=
  sw * sh < 2 ^ 31 ∧ (d.isVncast = true → PanelFits d.panelArea sw sh)

/-! ## §2  Exact products, exact decisions -/

section Exactness

variable {c : Connection} {u r : Rect} {total area : ℤ}

theorem fitsInt_of_nonneg {z : ℤ} (h0 : 0 ≤ z) (h : z < 2 ^ 31) : FitsInt z :=
  ⟨le_trans (by decide) h0, h⟩

theorem FitsInt.int32_eq {z : ℤ} (h : FitsInt z) : int32 z = z := Word.int32_eq h.1 h.2

theorem badMerge_exact (hu : FitsInt u.area) (hr : FitsInt r.area) :
    badMerge u r = exactMerge u r := by
  have hu' : int32 (u.w * u.h) = u.area := hu.int32_eq
  have hr' : int32 (r.w * r.h) = r.area := hr.int32_eq
  unfold badMerge exactMerge
  simp only [hu', hr']
  rfl

/-- The first and the second product are taken in any case. -/
theorem classifyProducts_area (total area : ℤ) : area ∈ classifyProducts total area := by
  unfold classifyProducts
  split_ifs
  · exact List.mem_cons_self ..
  · exact List.mem_cons_self ..
  · exact List.mem_cons_self ..

theorem classifyProducts_total (total area : ℤ) : total ∈ classifyProducts total area := by
  unfold classifyProducts
  split_ifs
  · exact List.mem_cons_of_mem _ (List.mem_cons_self ..)
  · exact List.mem_cons_of_mem _ (List.mem_cons_self ..)
  · exact List.mem_cons_of_mem _ (List.mem_cons_self ..)

/-- When all products fit. -/
theorem classifyProducts_fit_iff (h0 : 0 < total) (ha : 0 ≤ area) :
    (∀ z ∈ classifyProducts total area, FitsInt z) ↔
      total < 2 ^ 31 ∧ area * 100 < 2 ^ 31 ∧ (total ≤ area * 100 → total * 40 < 2 ^ 31) := by
  unfold classifyProducts
  rw [if_neg (not_le.mpr h0)]
  have h100 : 0 ≤ area * 100 := mul_nonneg ha (by decide)
  have h40 : 0 ≤ total * 40 := mul_nonneg h0.le (by decide)
  have hle : area ≤ area * 100 := le_mul_of_one_le_right ha (by decide)
  split
  · rename_i hlt
    constructor
    · intro h
      have htotal := h total (by simp)
      have harea := h (area * 100) (by simp)
      exact ⟨htotal.2, harea.2, fun hge => absurd hlt (not_lt.mpr hge)⟩
    · rintro ⟨htotal, harea, -⟩ z hz
      simp only [List.mem_cons, List.not_mem_nil, or_false] at hz
      rcases hz with rfl | rfl | rfl
      · exact fitsInt_of_nonneg ha (hle.trans_lt harea)
      · exact fitsInt_of_nonneg h0.le htotal
      · exact fitsInt_of_nonneg h100 harea
  · rename_i hge
    constructor
    · intro h
      have htotal := h total (by simp)
      have harea := h (area * 100) (by simp)
      have hscaled := h (total * 40) (by simp)
      exact ⟨htotal.2, harea.2, fun _ => hscaled.2⟩
    · rintro ⟨htotal, harea, hscaled⟩ z hz
      simp only [List.mem_cons, List.not_mem_nil, or_false] at hz
      rcases hz with rfl | rfl | rfl | rfl
      · exact fitsInt_of_nonneg ha (hle.trans_lt harea)
      · exact fitsInt_of_nonneg h0.le htotal
      · exact fitsInt_of_nonneg h100 harea
      · exact fitsInt_of_nonneg h40 (hscaled (not_lt.mp hge))

/-- **Without overflow the mode is exact.** -/
theorem classifyFrameMode_exact {w h : ℤ}
    (hfit : ∀ z ∈ classifyProducts (c.width * c.height) (w * h), FitsInt z) :
    classifyFrameMode c w h = exactMode (c.width * c.height) (w * h) := by
  have harea := (hfit _ (classifyProducts_area _ _)).int32_eq
  have htotal := (hfit _ (classifyProducts_total _ _)).int32_eq
  unfold classifyFrameMode exactMode
  unfold classifyProducts at hfit
  simp only [harea, htotal]
  by_cases h0 : c.width * c.height ≤ 0
  · rw [if_pos h0, if_pos h0]
  rw [if_neg h0] at hfit ⊢
  rw [if_neg h0]
  by_cases h1 : w * h * 100 < c.width * c.height
  · rw [if_pos h1] at hfit
    have h100 := (hfit (w * h * 100) (by simp)).int32_eq
    rw [h100, if_pos h1, if_pos h1]
  · rw [if_neg h1] at hfit
    have h100 := (hfit (w * h * 100) (by simp)).int32_eq
    have h40 := (hfit (c.width * c.height * 40) (by simp)).int32_eq
    rw [h100, h40]

/-- A larger area never has a faster mode. -/
theorem exactMode_mono {area' : ℤ} (h : area ≤ area') :
    modeRank (exactMode total area) ≤ modeRank (exactMode total area') := by
  have hscaled : area * 100 ≤ area' * 100 := mul_le_mul_of_nonneg_right h (by decide)
  unfold exactMode
  by_cases h0 : total ≤ 0
  · rw [if_pos h0, if_pos h0]
  rw [if_neg h0, if_neg h0]
  by_cases h1 : area * 100 < total
  · rw [if_pos h1]
    exact Nat.zero_le _
  rw [if_neg h1, if_neg fun hlt => h1 (hscaled.trans_lt hlt)]
  by_cases h2 : area * 100 < total * 40
  · rw [if_pos h2]
    split
    · exact le_refl _
    · decide
  · rw [if_neg h2, if_neg fun hlt => h2 (hscaled.trans_lt hlt)]

end Exactness

/-! ## §3  Runs -/

section Backend

theorem Device.update_isVncast {d d' : Device} {r : Rect} {mode : RefreshMode}
    (h : d.update r mode = some d') : d'.isVncast = d.isVncast := by
  unfold Device.update at h
  unfold Device.isVncast
  cases hb : d.backend with
  | appload q =>
      rw [hb] at h
      cases h
      rfl
  | vncast c =>
      rw [hb] at h
      obtain ⟨x, -, hx⟩ := Option.bind_eq_some_iff.mp h
      cases hx
      rfl

theorem Device.setData_isVncast (d : Device) (b : List UInt8) :
    (d.setData b).isVncast = d.isVncast := by
  unfold Device.setData Device.isVncast
  cases d.backend with
  | appload q => rfl
  | vncast c => rfl

theorem repaint_isVncast {s s' : State} {now : ℤ} (h : repaint s now = some s') :
    s'.device.isVncast = s.device.isVncast := by
  obtain ⟨dev, hcopy, hs'⟩ := Option.bind_eq_some_iff.mp h
  cases hs'
  obtain ⟨x, -, hx⟩ := Option.bind_eq_some_iff.mp hcopy
  dsimp only at hx
  split at hx
  · cases hx
    exact Device.setData_isVncast _ _
  · exact (Device.update_isVncast hx).trans (Device.setData_isVncast _ _)

/-- The kind of the display stays. -/
theorem act_isVncast {s s' : State} {a : Act} (h : act s a = some s') :
    s'.device.isVncast = s.device.isVncast := by
  cases a with
  | commit src r =>
      simp only [act, commitUpdates] at h
      split at h
      · split at h
        · obtain ⟨dev, hupd, hs'⟩ := Option.bind_eq_some_iff.mp h
          cases hs'
          exact Device.update_isVncast hupd
        · cases h
          rfl
      · cases h
        rfl
  | tick now now' =>
      obtain ⟨x, hx, rfl⟩ := Option.map_eq_some_iff.mp h
      unfold eventLoop at hx
      split at hx
      · split at hx
        · obtain ⟨t, hrep, ht⟩ := Option.bind_eq_some_iff.mp hx
          cases ht
          exact repaint_isVncast hrep
        · cases hx
          rfl
      · cases hx
        rfl
  | repaint now => exact repaint_isVncast h
  | setMode mode =>
      cases h
      rfl
  | setEffective o =>
      cases h
      unfold setEffectiveOrientation
      split_ifs
      · rfl
      · rfl
      · rfl
      · rfl

end Backend

/-- The accumulator lies in the source, and the display is of kind `v`. -/
structure Confined (g : Geometry) (v : Bool) (s : State) : Prop where
  wired : Wired g s
  inside : s.updateInfo.rect.Inside g.srcW g.srcH
  kind : s.device.isVncast = v

section Runs

variable {g : Geometry} {v : Bool} {s : State} {r : Rect}

/-- **Step lemma.** -/
theorem Confined.step {t : Trace} (h : Confined g v t.screen) {a : Act} (ha : Admitted t a) :
    ∃ t', t.step a = some t' ∧ Confined g v t'.screen := by
  have hsized : Sized t a := by
    cases a with
    | commit src r => exact ha.1
    | tick now now' => trivial
    | repaint now => trivial
    | setMode mode => trivial
    | setEffective o => trivial
  have hin : ∀ {src r}, Admitted t (.commit src r) → r.Inside g.srcW g.srcH := by
    intro src r hr
    rw [← h.wired.geometry]
    exact hr.2
  obtain ⟨t', es, hrun, hwired, -, hmove⟩ := h.wired.step hsized
  refine ⟨t', hrun, hwired, ?_, ?_⟩
  · have hrect : ∀ k, Move g t.screen.track a es k → k.rect.Inside g.srcW g.srcH := by
      intro k hk
      cases hk with
      | idle => exact h.inside
      | fresh src r hu => exact hin ha
      | merge src r hu hb => exact h.inside.hull (hin ha)
      | flush src r hu hb => exact hin ha
      | tick now now' hu => exact h.inside
      | repaint now => exact h.inside
      | setMode mode => exact h.inside
      | setEffective o ho hne =>
          have hpos := h.wired.src_pos
          constructor
          · exact le_refl 0
          · exact le_refl 0
          · exact hpos.1.le
          · exact hpos.2.le
          · exact (zero_add _).le
          · exact (zero_add _).le
    exact hrect _ hmove
  · obtain ⟨s', hact, rfl⟩ := Option.map_eq_some_iff.mp hrun
    exact (act_isVncast hact).trans h.kind

theorem Confined.panelArea (h : Confined g v s) :
    s.device.panelArea = g.panelW * g.panelH := by
  rw [← h.wired.geometry]
  rfl

theorem inside_area_le (hr : r.Inside g.srcW g.srcH) : r.area ≤ g.srcW * g.srcH := by
  have hw : r.w ≤ g.srcW := le_trans (le_add_of_nonneg_left hr.x_nonneg) hr.right
  have hh : r.h ≤ g.srcH := le_trans (le_add_of_nonneg_left hr.y_nonneg) hr.bottom
  exact mul_le_mul hw hh hr.h_nonneg (hr.w_nonneg.trans hw)

/-- An accumulator that is given up has less than half the area of the
source. -/
theorem flushed_area_lt {u : Rect} (hu : u.Inside g.srcW g.srcH) (hr : r.Inside g.srcW g.srcH)
    (hm : exactMerge u r = true) : 2 * (u.w * u.h) < g.srcW * g.srcH := by
  have hgt : (u.hull r).area > (u.area + r.area) * 2 := of_decide_eq_true hm
  have hle := inside_area_le (hu.hull hr)
  have h0 := hr.area_nonneg
  unfold Rect.area at *
  linarith

theorem sendPartialUpdate_mode {c c' : Connection} {m : Qtfb.Frame}
    (h : sendPartialUpdate c r = some (c', m)) : m.mode = classifyFrameMode c r.w r.h := by
  obtain ⟨shm, -, hm⟩ := Option.bind_eq_some_iff.mp h
  cases hm
  rfl

/-- The products of a commit that are not those of a flush. -/
theorem commitProducts_cases {z : ℤ} (hz : z ∈ commitProducts s r) :
    z = s.updateInfo.rect.area ∨ z = r.area ∨
      (badMerge s.updateInfo.rect r = true ∧ s.device.isVncast = true ∧
        z ∈ classifyProducts s.device.panelArea s.updateInfo.rect.area) := by
  simp only [commitProducts] at hz
  split at hz
  · rcases List.mem_append.mp hz with hz | hz
    · rcases List.mem_pair.mp hz with rfl | rfl
      · exact Or.inl rfl
      · exact Or.inr (Or.inl rfl)
    · split at hz
      · rename_i hflush
        exact Or.inr (Or.inr ⟨hflush.1, hflush.2, hz⟩)
      · cases hz
  · cases hz

theorem flushFrame_exact {m : Qtfb.Frame} (hm : m ∈ flushFrame s r)
    (hfit : badMerge s.updateInfo.rect r = true → s.device.isVncast = true →
      ∀ z ∈ classifyProducts s.device.panelArea s.updateInfo.rect.area, FitsInt z) :
    m.mode = exactMode s.device.panelArea s.updateInfo.rect.area := by
  simp only [flushFrame] at hm
  split at hm
  · rename_i hflush
    cases hb : s.device.backend with
    | appload q =>
        rw [hb] at hm
        cases hm
    | vncast c =>
        rw [hb] at hm
        obtain ⟨x, hx, rfl⟩ := Option.map_eq_some_iff.mp hm
        have hcast : s.device.isVncast = true := by
          unfold Device.isVncast
          rw [hb]
        have htotal : s.device.panelArea = c.width * c.height := by
          unfold Device.panelArea Device.getXres Device.getYres
          rw [hb]
        have hfits := hfit hflush.2 hcast
        rw [htotal] at hfits ⊢
        exact (sendPartialUpdate_mode hx).trans (classifyFrameMode_exact hfits)
  · cases hm

/-- Every commit of a run is decided as in exact arithmetic. -/
theorem Confined.commitExact (h : Confined g v s) (hr : r.Inside g.srcW g.srcH)
    (hpanel : 0 < g.panelW * g.panelH) (hsrc : g.srcW * g.srcH < 2 ^ 31)
    (hfit : v = true → PanelFits (g.panelW * g.panelH) g.srcW g.srcH) : CommitExact s r := by
  have hu := h.inside
  have hareas : ∀ {r : Rect}, r.Inside g.srcW g.srcH → FitsInt r.area := fun hr =>
    fitsInt_of_nonneg hr.area_nonneg ((inside_area_le hr).trans_lt hsrc)
  have hmerge := badMerge_exact (hareas hu) (hareas hr)
  have hclass : badMerge s.updateInfo.rect r = true → s.device.isVncast = true →
      ∀ z ∈ classifyProducts s.device.panelArea s.updateInfo.rect.area, FitsInt z := by
    intro hbad hcast
    obtain ⟨htotal, hall⟩ := hfit (h.kind.symm.trans hcast)
    have hsmall := flushed_area_lt hu hr (hmerge.symm.trans hbad)
    rw [h.panelArea, classifyProducts_fit_iff hpanel hu.area_nonneg]
    exact ⟨htotal, hall _ _ hu.w_nonneg
      (le_trans (le_add_of_nonneg_left hu.x_nonneg) hu.right) hu.h_nonneg
      (le_trans (le_add_of_nonneg_left hu.y_nonneg) hu.bottom) hsmall⟩
  refine ⟨?_, fun _ => hmerge, fun m hm => flushFrame_exact hm hclass⟩
  intro z hz
  rcases commitProducts_cases hz with rfl | rfl | ⟨hbad, hcast, hz⟩
  · exact hareas hu
  · exact hareas hr
  · exact hclass hbad hcast z hz

/-- Where a rectangle is committed, it is one of the source. -/
theorem Confined.reaches {t₀ t : Trace} (h : Confined g v t₀.screen) (ht : Reaches t₀ t r) :
    Confined g v t.screen ∧ r.Inside g.srcW g.srcH := by
  obtain ⟨as, src, hrun, hall, hlast⟩ := ht
  obtain ⟨t', hrun', hconf⟩ := run_inv (fun t => Confined g v t.screen)
    (fun t a ht ha => ht.step ha) h hall
  obtain rfl := Option.some.inj (hrun.symm.trans hrun')
  refine ⟨hconf, ?_⟩
  rw [← hconf.wired.geometry]
  exact hlast.2

end Runs

/-! ## §4  The sizes -/

section Sizes

variable {d : Device} {o : Orientation} {env : Option (List Char)} {sw sh : ℤ} {t₀ : Trace}

/-- A new screen: the accumulator is empty. -/
theorem start_eq (h : Trace.start d o env sw sh = some t₀) :
    0 < sw ∧ 0 < sh ∧ t₀.screen.device = d ∧ t₀.screen.srcWidth = sw ∧
      t₀.screen.srcHeight = sh ∧ t₀.screen.updateInfo = {} := by
  obtain ⟨hw, hh, e, rfl⟩ := Trace.start_cases h
  exact ⟨hw, hh, rfl, rfl, rfl, rfl⟩

theorem start_confined (hd : d.Ready) (h : Trace.start d o env sw sh = some t₀) :
    Confined t₀.screen.geometry d.isVncast t₀.screen := by
  obtain ⟨hw, hh, hdev, hsw, hsh, hupd⟩ := start_eq h
  refine ⟨(Trace.start_wired hd h).1, ?_, by rw [hdev]⟩
  show t₀.screen.updateInfo.rect.Inside t₀.screen.srcWidth t₀.screen.srcHeight
  rw [hupd, hsw, hsh]
  constructor
  · exact le_refl 0
  · exact le_refl 0
  · exact le_refl 0
  · exact le_refl 0
  · exact (zero_add _).trans_le hw.le
  · exact (zero_add _).trans_le hh.le

/-- Any two rectangles of the source meet in `commit_updates`. -/
theorem reaches_pair (h : Trace.start d o env sw sh = some t₀) {u r : Rect}
    (hu : u.Inside sw sh) (hr : r.Inside sw sh) :
    ∃ t, Reaches t₀ t r ∧ t.screen.updateInfo = ⟨u, true⟩ ∧ t.screen.device = d := by
  obtain ⟨-, -, hdev, hsw, hsh, hupd⟩ := start_eq h
  obtain ⟨s, hs⟩ : ∃ s, s = { t₀.screen with updateInfo := ⟨u, true⟩ } := ⟨_, rfl⟩
  have hact : act t₀.screen (.commit t₀.screen.srcBuffer u) = some s := by
    simp only [act, commitUpdates, hupd, hs]
    rfl
  obtain ⟨t, hstep, ht⟩ : ∃ t, t₀.step (.commit t₀.screen.srcBuffer u) = some t ∧
      t.screen = s := ⟨_, congrArg (Option.map _) hact, rfl⟩
  have hscreen := ht.trans hs
  refine ⟨t, ⟨[.commit t₀.screen.srcBuffer u], t.screen.srcBuffer, ?_, ?_, rfl, ?_⟩, ?_, ?_⟩
  · rw [run_cons, hstep]
    rfl
  · refine ⟨⟨rfl, ?_⟩, fun _ _ => trivial⟩
    rw [hsw, hsh]
    exact hu
  · rw [hscreen]
    show r.Inside t₀.screen.srcWidth t₀.screen.srcHeight
    rw [hsw, hsh]
    exact hr
  · rw [hscreen]
  · rw [hscreen]
    exact hdev

/-- Both areas are among the products. -/
theorem commitProducts_areas {s : State} {u r : Rect} (hs : s.updateInfo = ⟨u, true⟩) :
    u.area ∈ commitProducts s r := by
  simp only [commitProducts, hs]
  exact List.mem_append_left _ (List.mem_cons_self ..)

theorem commitProducts_flush {s : State} {u r : Rect} (hs : s.updateInfo = ⟨u, true⟩)
    (hbad : badMerge u r = true) (hcast : s.device.isVncast = true) {z : ℤ}
    (hz : z ∈ classifyProducts s.device.panelArea u.area) : z ∈ commitProducts s r := by
  simp only [commitProducts, hs]
  rw [if_pos trivial, if_pos ⟨hbad, hcast⟩]
  exact List.mem_append_right _ hz

/-- The whole source twice. -/
theorem AreasExact.source (h : AreasExact t₀) (hstart : Trace.start d o env sw sh = some t₀) :
    sw * sh < 2 ^ 31 := by
  obtain ⟨hw, hh, -⟩ := start_eq hstart
  have hfull : (Rect.full sw sh).Inside sw sh :=
    ⟨le_refl 0, le_refl 0, hw.le, hh.le, (zero_add _).le, (zero_add _).le⟩
  obtain ⟨t, ht, hupd, -⟩ := reaches_pair hstart hfull hfull
  exact ((h.exact t _ ht).products _ (commitProducts_areas hupd)).2

/-- An accumulator in the upper left corner and an empty rectangle in the
lower right one are not merged. -/
theorem badMerge_corners {sw sh a b : ℤ} (hsw : 0 < sw) (hsh : 0 < sh) (haw : a ≤ sw)
    (hbh : b ≤ sh) (hab : 0 ≤ a * b) (hlt : a * b < 2 ^ 31) (hsmall : 2 * (a * b) < sw * sh) :
    badMerge ⟨0, 0, a, b⟩ ⟨sw, sh, 0, 0⟩ = true := by
  have hhull : (⟨0, 0, a, b⟩ : Rect).hull ⟨sw, sh, 0, 0⟩ = Rect.full sw sh := by
    unfold Rect.hull Rect.full
    simp only [zero_add, add_zero, min_eq_left hsw.le, min_eq_left hsh.le, max_eq_right haw,
      max_eq_right hbh, sub_zero]
  have hempty : FitsInt (⟨sw, sh, 0, 0⟩ : Rect).area :=
    fitsInt_of_nonneg (show (0 : ℤ) ≤ 0 * 0 by norm_num) (show (0 : ℤ) * 0 < 2 ^ 31 by norm_num)
  rw [badMerge_exact (u := ⟨0, 0, a, b⟩) (fitsInt_of_nonneg hab hlt) hempty]
  unfold exactMerge
  rw [hhull]
  apply decide_eq_true
  show sw * sh > (a * b + 0 * 0) * 2
  linarith

/-- A rectangle in one corner of the source, and an empty one in the
opposite. -/
theorem AreasExact.panel (h : AreasExact t₀) (hstart : Trace.start d o env sw sh = some t₀)
    (hpanel : 0 < d.panelArea) (hcast : d.isVncast = true) :
    PanelFits d.panelArea sw sh := by
  obtain ⟨hw, hh, -⟩ := start_eq hstart
  have hsrc := h.source hstart
  have hclass : ∀ w h, 0 ≤ w → w ≤ sw → 0 ≤ h → h ≤ sh → 2 * (w * h) < sw * sh →
      d.panelArea < 2 ^ 31 ∧ w * h * 100 < 2 ^ 31 ∧
        (d.panelArea ≤ w * h * 100 → d.panelArea * 40 < 2 ^ 31) := by
    intro a b ha haw hb hbh hsmall
    have hu : (⟨0, 0, a, b⟩ : Rect).Inside sw sh :=
      ⟨le_refl 0, le_refl 0, ha, hb, (zero_add _).trans_le haw, (zero_add _).trans_le hbh⟩
    have hr : (⟨sw, sh, 0, 0⟩ : Rect).Inside sw sh :=
      ⟨hw.le, hh.le, le_refl 0, le_refl 0, (add_zero _).le, (add_zero _).le⟩
    have hab : 0 ≤ (⟨0, 0, a, b⟩ : Rect).area := hu.area_nonneg
    have hbad : badMerge ⟨0, 0, a, b⟩ ⟨sw, sh, 0, 0⟩ = true := by
      have hab' : 0 ≤ a * b := hab
      exact badMerge_corners hw hh haw hbh hab' (by linarith) hsmall
    obtain ⟨t, ht, hupd, hdev⟩ := reaches_pair hstart hu hr
    have hproducts := (h.exact t _ ht).products
    rw [← hdev] at hcast hpanel ⊢
    exact (classifyProducts_fit_iff hpanel hab).mp fun z hz =>
      hproducts z (commitProducts_flush hupd hbad hcast hz)
  have harea : 2 * ((0 : ℤ) * 0) < sw * sh := by
    rw [mul_zero, mul_zero]
    exact mul_pos hw hh
  exact ⟨(hclass 0 0 (le_refl 0) hw.le (le_refl 0) hh.le harea).1,
    fun a b ha haw hb hbh hsmall => (hclass a b ha haw hb hbh hsmall).2⟩

end Sizes

/-- **The area arithmetic is exact in every run** exactly if the sizes of
source and panel let no product overflow. -/
theorem areas_exact_iff {d : Device} {o : Orientation} {env : Option (List Char)}
    {sw sh : ℤ} {t₀ : Trace} (hd : d.Ready) (hw : 0 < d.getXres) (hh : 0 < d.getYres)
    (hstart : Trace.start d o env sw sh = some t₀) :
    AreasExact t₀ ↔ SizesFit d sw sh := by
  have hpanel : 0 < d.panelArea := mul_pos hw hh
  constructor
  · intro h
    exact ⟨h.source hstart, h.panel hstart hpanel⟩
  · rintro ⟨hsrc, hfit⟩
    obtain ⟨-, -, hdev, hsw, hsh, -⟩ := start_eq hstart
    have hconf := start_confined hd hstart
    have harea : t₀.screen.geometry.panelW * t₀.screen.geometry.panelH = d.panelArea := by
      rw [← hdev]
      rfl
    have hexact : ∀ t r, Reaches t₀ t r → CommitExact t.screen r := by
      intro t r ht
      obtain ⟨hct, hr⟩ := hconf.reaches ht
      refine hct.commitExact hr ?_ ?_ ?_
      · rw [harea]
        exact hpanel
      · show t₀.screen.srcWidth * t₀.screen.srcHeight < 2 ^ 31
        rw [hsw, hsh]
        exact hsrc
      · show _ → PanelFits _ t₀.screen.srcWidth t₀.screen.srcHeight
        rw [harea, hsw, hsh]
        exact hfit
    refine ⟨hexact, ?_⟩
    intro t r t' r' ht ht' m hm m' hm' hle
    rw [(hexact t r ht).mode m hm, (hexact t' r' ht').mode m' hm',
      (hconf.reaches ht).1.panelArea, (hconf.reaches ht').1.panelArea]
    exact exactMode_mono hle

theorem areas_exact_strip :
    ∃ t₀, Trace.start castStrip .Portrait none 5 1 = some t₀ ∧ AreasExact t₀ := by
  obtain ⟨t₀, hstart⟩ : ∃ t₀, Trace.start castStrip .Portrait none 5 1 = some t₀ :=
    ⟨_, rfl⟩
  refine ⟨t₀, hstart, (areas_exact_iff castStrip_ready (by decide) (by decide) hstart).mpr ?_⟩
  refine ⟨by norm_num, fun _ => ⟨by decide, ?_⟩⟩
  intro w h _ _ _ _ hsmall
  exact ⟨by linarith, fun _ => by decide⟩

/-- A vncast connection of 1620×2160 pixels in 8-bit grayscale. -/
def castPanel : Device where
  backend := .vncast
    { w := 1620, h := 2160, stride := 1620, bpp := 8, format := 2
      shm := List.replicate (1620 * 2160) 0xFF
      shadow := List.replicate (1620 * 2160 * 2) 0
      forceGrayscale := false }

theorem castPanel_ready : castPanel.Ready where
  w_lt := by decide
  h_lt := by decide
  shadow_length := by
    show ((List.replicate (1620 * 2160 * 2) (0 : UInt8)).length : ℤ) = 1620 * 2 * 2160
    rw [List.length_replicate]
    norm_num
  shm_length := by
    show ((List.replicate (1620 * 2160) (0xFF : UInt8)).length : ℤ) = 1620 * 2160
    rw [List.length_replicate]
    norm_num
  format := ⟨1, toGrayscale8, rfl, by decide⟩

/-- A source of 10240×4320 pixels: an accumulator over almost its upper half is
given up for the last pixel, and 100 times its area is too much. -/
theorem areas_wrap :
    ¬ ∀ (d : Device) (o : Orientation) (env : Option (List Char)) (sw sh : ℤ) (t₀ : Trace),
      d.Ready → 0 < d.getXres ∧ d.getXres ≤ 65535 → 0 < d.getYres ∧ d.getYres ≤ 65535 →
      sw ≤ 65535 → sh ≤ 65535 → Trace.start d o env sw sh = some t₀ → AreasExact t₀ := by
  intro H
  obtain ⟨t₀, hstart⟩ : ∃ t₀, Trace.start castPanel .Portrait none 10240 4320 = some t₀ := by
    unfold Trace.start createFramebuf
    rw [if_neg (by norm_num)]
    exact ⟨_, rfl⟩
  have hexact := H castPanel .Portrait none 10240 4320 t₀ castPanel_ready (by decide)
    (by decide) (by norm_num) (by norm_num) hstart
  obtain ⟨t, ht, hupd, hdev⟩ := reaches_pair hstart (u := ⟨0, 0, 10240, 2150⟩)
    (r := ⟨10239, 4319, 1, 1⟩) (by decide) (by decide)
  have hproduct : 10240 * 2150 * 100 ∈ commitProducts t.screen ⟨10239, 4319, 1, 1⟩ := by
    apply commitProducts_flush hupd (by decide +kernel)
    · rw [hdev]
      rfl
    · rw [hdev]
      decide +kernel
  exact absurd ((hexact.exact t _ ht).products _ hproduct).2 (by norm_num)

end Rmcast.Screen
