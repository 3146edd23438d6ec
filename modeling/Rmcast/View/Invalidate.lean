import Mathlib.Tactic
import Rmcast.Lib.Loop
import Rmcast.View.FrameView

/-!
# Partial updates of the frame view

`onFrameReady` asks the scene for a repaint of the part of the view that shows
what has changed in the image. It computes that part from the cached layout;
the next `paint` computes a new layout if the cached one has been dropped in
between. The machine has one event for each slot and override of `FrameView`,
in any order:

* `geometryChange` — the view gets a size;
* `setRotation` — the angle is set;
* `rebuildImage` — the server has a new picture in the shared memory;
* `onFrameReady` — a frame has arrived, with what has changed in it;
* `paint` — the scene repaints what it has been asked for.
-/

namespace Rmcast.View

/-! ## §1 The view -/

/-- A partial `update(r)`, with the rectangle of the image it is for. -/
structure Request where
  rect : QRect
  x : ℤ
  y : ℤ
  w : ℤ
  h : ℤ
deriving DecidableEq, Repr

structure FrameView where
  /-- The size of `boundingRect()`. -/
  bounds : Size
  rotation : ℤ
  img : Option Image
  lastSeq : UInt32
  layout : Layout
  layoutValid : Bool
  /-- A full `update()` has been asked for since the last `paint`. -/
  whole : Bool
  /-- The partial updates asked for since the last `paint`. -/
  asked : List Request

/-- A new view, after `setServer`. -/
def FrameView.start (bounds : Size) (img : Image) : FrameView where
  bounds := bounds
  rotation := 0
  img := some img
  lastSeq := 0
  layout := ⟨1, 0, 0, 0, 0⟩
  layoutValid := false
  whole := true
  asked := []

inductive Event where
  | geometryChange (newGeometry : Size)
  | setRotation (deg : ℤ)
  | rebuildImage (img : Option Image)
  | onFrameReady (seq : UInt32) (x y dw dh : ℤ)
  | paint

/-! ## §2 The slots -/

/-- What `recalcLayout` would compute now. -/
def FrameView.current (qt : Toolkit) (v : FrameView) : Layout :=
  recalcLayout qt v.bounds v.rotation v.img

/-- The layout the next `paint` draws with. -/
def FrameView.paintLayout (qt : Toolkit) (v : FrameView) : Layout :=
  if v.layoutValid then v.layout else v.current qt

def FrameView.geometryChange (v : FrameView) (newGeometry : Size) : FrameView :=
  { v with bounds := newGeometry, layoutValid := false }

def FrameView.setRotation (v : FrameView) (deg : ℤ) : FrameView :=
  if normalized deg = v.rotation then v
  else { v with rotation := normalized deg, layoutValid := false, whole := true }

/-- `none` where the server has no picture. -/
def FrameView.rebuildImage (v : FrameView) (img : Option Image) : FrameView :=
  { v with img := img, layoutValid := false }

/-- The rectangle of a partial update: from the cached layout, whether it is
valid or not. -/
def FrameView.dirtyRect (qt : Toolkit) (v : FrameView) (x y dw dh : ℤ) : QRect :=
  (mapSourceRect qt v.layout v.bounds v.rotation v.img x y dw dh).inflated

def FrameView.onFrameReady (qt : Toolkit) (v : FrameView) (seq : UInt32)
    (x y dw dh : ℤ) : FrameView :=
  let firstFrame := v.lastSeq = 0
  let v := { v with lastSeq := seq }
  if firstFrame ∨ dw ≤ 0 ∨ dh ≤ 0 then { v with whole := true }
  else
    -- the cached layout is not checked
    let r := v.dirtyRect qt x y dw dh
    -- an empty rectangle would repaint nothing
    if r.isEmpty then { v with whole := true }
    else { v with asked := v.asked ++ [⟨r, x, y, dw, dh⟩] }

def FrameView.paint (qt : Toolkit) (v : FrameView) : FrameView :=
  { v with layout := v.paintLayout qt, layoutValid := true, whole := false, asked := [] }

def FrameView.step (qt : Toolkit) (v : FrameView) : Event → FrameView
  | .geometryChange newGeometry => v.geometryChange newGeometry
  | .setRotation deg => v.setRotation deg
  | .rebuildImage img => v.rebuildImage img
  | .onFrameReady seq x y dw dh => v.onFrameReady qt seq x y dw dh
  | .paint => v.paint qt

/-! ## §3 What the next `paint` shows is asked for -/

/-- The next `paint` shows the changed rectangle inside the requested one. -/
def FrameView.Serves (qt : Toolkit) (v : FrameView) (q : Request) : Prop :=
  shown qt (v.paintLayout qt) v.bounds v.rotation v.img q.x q.y q.w q.h ⊆ q.rect.area

/-- Unless the whole view is repainted, nothing that has changed stays stale. -/
def FrameView.Covered (qt : Toolkit) (v : FrameView) : Prop :=
  v.whole = false → ∀ q ∈ v.asked, v.Serves qt q

/-- The angles and images of the view: quarter turns, and never no image. -/
def Event.Proper : Event → Prop
  | .setRotation deg => normalized deg ∈ turns
  | .rebuildImage img => img ≠ none
  | _ => True

/-- A partial update is asked for with a current layout only, and until the
next `paint` no size changes; or the whole view is repainted anyway. -/
def FrameView.Steady (qt : Toolkit) (v : FrameView) : Event → Prop
  | .onFrameReady _ _ _ dw dh =>
    v.whole ∨ v.lastSeq = 0 ∨ dw ≤ 0 ∨ dh ≤ 0 ∨ v.layout = v.current qt
  | .geometryChange newGeometry => v.whole ∨ v.asked = [] ∨ newGeometry = v.bounds
  | .rebuildImage img => v.whole ∨ v.asked = [] ∨ img = v.img
  | _ => True

instance (e : Event) : Decidable e.Proper := by
  cases e <;> unfold Event.Proper <;> infer_instance

instance (qt : Toolkit) (v : FrameView) (e : Event) : Decidable (v.Steady qt e) := by
  cases e <;> unfold FrameView.Steady <;> infer_instance

variable {qt : Toolkit} {v : FrameView}

/-- **The invariant.** -/
structure FrameView.Inv (qt : Toolkit) (v : FrameView) : Prop where
  turned : v.rotation ∈ turns
  loaded : v.img ≠ none
  valid : v.layoutValid → v.layout = v.current qt
  covered : v.Covered qt

theorem FrameView.Inv.paintLayout_eq (h : v.Inv qt) : v.paintLayout qt = v.current qt := by
  unfold FrameView.paintLayout
  split
  · exact h.valid ‹_›
  · rfl

/-- With a current layout, the requested rectangle is right. -/
theorem FrameView.serves_dirtyRect (hturned : v.rotation ∈ turns) (hloaded : v.img ≠ none)
    (hcurrent : v.layout = v.current qt) (x y : ℤ) {dw dh : ℤ} (hw : 0 ≤ dw) (hh : 0 ≤ dh) :
    v.Serves qt ⟨v.dirtyRect qt x y dw dh, x, y, dw, dh⟩ := by
  have hpaint : v.paintLayout qt = v.current qt := by
    unfold FrameView.paintLayout
    split
    · exact hcurrent
    · rfl
  unfold FrameView.Serves FrameView.dirtyRect
  rw [hpaint, hcurrent]
  obtain ⟨img, himg⟩ := Option.ne_none_iff_exists'.mp hloaded
  unfold FrameView.current
  rw [himg]
  exact shown_subset hturned x y hw hh

/-! ## §4 Each slot keeps the invariant -/

theorem FrameView.Inv.start (bounds : Size) (img : Image) :
    (FrameView.start bounds img).Inv qt :=
  ⟨List.mem_cons_self .., Option.some_ne_none _, nofun, nofun⟩

theorem FrameView.Inv.paint (h : v.Inv qt) : (v.paint qt).Inv qt :=
  ⟨h.turned, h.loaded, fun _ => h.paintLayout_eq, fun _ _ hq => (List.not_mem_nil hq).elim⟩

/-- Nothing is asked for that a change of size could spoil. -/
theorem FrameView.covered_of_idle (h : v.whole ∨ v.asked = []) : v.Covered qt := by
  intro hwhole q hq
  rcases h with hw | hasked
  · exact absurd (hwhole.symm.trans hw) (by decide)
  · rw [hasked] at hq
    exact (List.not_mem_nil hq).elim

/-- What the next `paint` draws does not depend on whether the layout is kept. -/
theorem FrameView.Inv.covered_invalid (h : v.Inv qt) :
    ({ v with layoutValid := false } : FrameView).Covered qt := by
  intro hwhole q hq
  have hserves := h.covered hwhole q hq
  unfold FrameView.Serves at hserves
  rw [h.paintLayout_eq] at hserves
  exact hserves

theorem FrameView.Inv.geometryChange (h : v.Inv qt) {newGeometry : Size}
    (hsteady : v.Steady qt (.geometryChange newGeometry)) :
    (v.geometryChange newGeometry).Inv qt := by
  refine ⟨h.turned, h.loaded, nofun, ?_⟩
  rcases hsteady with hwhole | hasked | rfl
  · exact FrameView.covered_of_idle (Or.inl hwhole)
  · exact FrameView.covered_of_idle (Or.inr hasked)
  · exact h.covered_invalid

theorem FrameView.Inv.rebuildImage (h : v.Inv qt) {img : Option Image} (himg : img ≠ none)
    (hsteady : v.Steady qt (.rebuildImage img)) : (v.rebuildImage img).Inv qt := by
  refine ⟨h.turned, himg, nofun, ?_⟩
  rcases hsteady with hwhole | hasked | rfl
  · exact FrameView.covered_of_idle (Or.inl hwhole)
  · exact FrameView.covered_of_idle (Or.inr hasked)
  · exact h.covered_invalid

theorem FrameView.Inv.setRotation (h : v.Inv qt) {deg : ℤ} (hdeg : normalized deg ∈ turns) :
    (v.setRotation deg).Inv qt := by
  unfold FrameView.setRotation
  split
  · exact h
  · exact ⟨hdeg, h.loaded, nofun, FrameView.covered_of_idle (Or.inl rfl)⟩

theorem FrameView.Inv.onFrameReady (h : v.Inv qt) {seq : UInt32} {x y dw dh : ℤ}
    (hsteady : v.Steady qt (.onFrameReady seq x y dw dh)) :
    (v.onFrameReady qt seq x y dw dh).Inv qt := by
  unfold FrameView.onFrameReady
  dsimp only
  split_ifs with hfull hempty
  · exact ⟨h.turned, h.loaded, h.valid, FrameView.covered_of_idle (Or.inl rfl)⟩
  · exact ⟨h.turned, h.loaded, h.valid, FrameView.covered_of_idle (Or.inl rfl)⟩
  · refine ⟨h.turned, h.loaded, h.valid, fun hwhole q hq => ?_⟩
    push Not at hfull
    obtain ⟨hfirst, hw, hh⟩ := hfull
    -- the requests made before, and the new one
    rcases List.mem_append.mp hq with hq | hq
    · exact h.covered hwhole q hq
    · rw [List.mem_singleton.mp hq]
      have hcurrent : v.layout = v.current qt := by
        rcases hsteady with hw' | hfirst' | hw' | hh' | hcurrent
        · exact absurd (hwhole.symm.trans hw') (by decide)
        · exact absurd hfirst' hfirst
        · exact absurd hw' hw.not_ge
        · exact absurd hh' hh.not_ge
        · exact hcurrent
      exact FrameView.serves_dirtyRect h.turned h.loaded hcurrent x y hw.le hh.le

theorem FrameView.Inv.step (h : v.Inv qt) {e : Event} (hproper : e.Proper)
    (hsteady : v.Steady qt e) : (v.step qt e).Inv qt := by
  cases e with
  | geometryChange newGeometry => exact h.geometryChange hsteady
  | setRotation deg => exact h.setRotation hproper
  | rebuildImage img => exact h.rebuildImage hproper hsteady
  | onFrameReady seq x y dw dh => exact h.onFrameReady hsteady
  | paint => exact h.paint

/-! ## §5 Runs -/

def FrameView.run (qt : Toolkit) (v : FrameView) (es : List Event) : FrameView :=
  es.foldl (FrameView.step qt) v

/-- Every event of the run is proper and meets `Steady` where it comes. -/
def FrameView.SteadyRun (qt : Toolkit) (v : FrameView) (es : List Event) : Prop :=
  Loop.EveryStep (fun v e => some (FrameView.step qt v e))
    (fun v e => e.Proper ∧ v.Steady qt e) v es

instance (qt : Toolkit) (v : FrameView) (es : List Event) : Decidable (v.SteadyRun qt es) := by
  unfold FrameView.SteadyRun
  infer_instance

/-- **Partial updates cover what the next `paint` shows**, at every `paint` of
every steady run. -/
theorem partial_updates_cover (qt : Toolkit) (bounds : Size) (img : Image) (es : List Event)
    (hes : (FrameView.start bounds img).SteadyRun qt es) :
    ∀ pre, pre ++ [.paint] <+: es → ((FrameView.start bounds img).run qt pre).Covered qt := by
  rintro pre ⟨rest, rfl⟩
  rw [List.append_assoc] at hes
  have hinv := Loop.foldl_keeps (FrameView.Inv qt) (fun v e hI hP => hI.step hP.1 hP.2)
    (FrameView.Inv.start bounds img) hes.of_append
  exact hinv.covered

/-- A view, and a picture, of the given side. -/
def Size.square (side : ℕ) : Size := ⟨side, side, Nat.cast_nonneg _, Nat.cast_nonneg _⟩

def Image.hundred : Image := ⟨100, 100, by decide, by decide⟩

/-- A turned view: after the first frame, every change is repainted where it is
seen. -/
theorem partial_updates_cover_turned :
    ((FrameView.start (Size.square 200) Image.hundred).run Toolkit.exact
      [.setRotation 450, .onFrameReady 1 0 0 0 0, .paint, .onFrameReady 2 10 20 4 8,
        .onFrameReady 3 14 20 4 8]).Covered Toolkit.exact :=
  partial_updates_cover Toolkit.exact (Size.square 200) Image.hundred
    [.setRotation 450, .onFrameReady 1 0 0 0 0, .paint, .onFrameReady 2 10 20 4 8,
      .onFrameReady 3 14 20 4 8, .paint]
    (by decide +kernel) _ (List.prefix_refl _)

/-- The view after it has grown, and a change has been looked for where it would
have been seen before. -/
def grown : FrameView :=
  (FrameView.start (Size.square 100) Image.hundred).run Toolkit.exact
    [.onFrameReady 1 0 0 0 0, .paint, .geometryChange (Size.square 200),
      .onFrameReady 2 50 50 10 10]

theorem grown_not_covered : ¬grown.Covered Toolkit.exact := by
  intro hcov
  have hserves := hcov (by decide +kernel) ⟨⟨49, 49, 12, 12⟩, 50, 50, 10, 10⟩
    (by decide +kernel)
  have hlayout : grown.paintLayout Toolkit.exact = ⟨2, 0, 0, 200, 200⟩ := by decide +kernel
  have himg : grown.img = some Image.hundred := by decide +kernel
  have hrot : grown.rotation = 0 := by decide +kernel
  unfold FrameView.Serves at hserves
  rw [hlayout, himg, hrot] at hserves
  have hshown : ((110, 110) : ℚ × ℚ) ∈ shown Toolkit.exact ⟨2, 0, 0, 200, 200⟩ grown.bounds 0
      (some Image.hundred) 50 50 10 10 := by
    show _ ∈ (if (0 : ℚ) < 200 ∧ (0 : ℚ) < 200 then
      drawPoint Toolkit.exact ⟨2, 0, 0, 200, 200⟩ grown.bounds 0 Image.hundred '' _ else ∅)
    rw [if_pos (by norm_num)]
    refine ⟨(55, 55), ?_, ?_⟩
    · refine Plane.mem_box.mpr ⟨⟨?_, ?_⟩, ?_, ?_⟩ <;> norm_num
    · simp only [drawPoint, Image.hundred]
      norm_num
  have hmem := (Plane.mem_box.mp (hserves hshown)).1.2
  norm_num at hmem

/-- The next `paint` shows the change elsewhere. -/
theorem partial_update_stale :
    ¬∀ (qt : Toolkit) (bounds : Size) (img : Image) (es : List Event),
      (∀ e ∈ es, e.Proper) → ∀ pre, pre ++ [.paint] <+: es →
        ((FrameView.start bounds img).run qt pre).Covered qt := by
  intro h
  refine grown_not_covered (h Toolkit.exact (Size.square 100) Image.hundred
    [.onFrameReady 1 0 0 0 0, .paint, .geometryChange (Size.square 200),
      .onFrameReady 2 50 50 10 10, .paint] ?_ _ (List.prefix_refl _))
  decide

end Rmcast.View
