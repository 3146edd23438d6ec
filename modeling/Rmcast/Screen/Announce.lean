import Rmcast.Screen.Trace

/-!
# Announced rectangles are painted panel rectangles

A rectangle that `repaint` announces is the clipped image of the accumulator,
which `blit_rotated` has just copied. `commit_updates` announces too, when it
gives an accumulator up, and what it announces is the accumulator itself: a
rectangle of the source, copied or not. Under an upright orientation the two
kinds of coordinates coincide, and the announcement is sound if everything in
the accumulator has been copied; §2 shows that nothing else can go wrong.
-/

namespace Rmcast.Screen

open Loop

/-! ## §1  Soundness of an announcement -/

/-- `blit_rotated` has copied the source pixel `q` under `o`. -/
def Copied (log : List Entry) (o : Orientation) (q : ℤ × ℤ) : Prop :=
  ∃ r, .copied o r ∈ log ∧ q ∈ r

/-- `d` is a panel rectangle that has been painted under `o`. -/
structure PanelRect (g : Geometry) (log : List Entry) (o : Orientation)
    (d : Rect) : Prop where
  nonempty : 0 < d.w ∧ 0 < d.h
  inside : d.Inside g.panelW g.panelH
  /-- It is the clipped image of a source rectangle that has been copied. -/
  image : ∃ s : Rect,
    (∀ p, p ∈ d ↔ p ∈ g.panel ∧ ∃ q, (q ∈ s ∧ q ∈ g.source) ∧ rotate g o q = p) ∧
    ∀ q ∈ s, q ∈ g.source → Copied log o q

/-- Every rectangle announced so far was sound when it was announced. -/
def AllPainted (g : Geometry) (log : List Entry) : Prop :=
  ∀ before d o mode after, log = before ++ .announced d o mode :: after →
    PanelRect g before o d

/-- Source and panel coordinates coincide. -/
def Upright (o : Orientation) : Prop := o = .Portrait ∨ o = .Auto

instance (o : Orientation) : Decidable (Upright o) :=
  inferInstanceAs (Decidable (_ ∨ _))

/-- The accumulator can be announced as it is. -/
structure Flushable (t : Trace) : Prop where
  upright : Upright t.screen.effective
  nonempty : 0 < t.screen.updateInfo.rect.w ∧ 0 < t.screen.updateInfo.rect.h
  in_source : t.screen.updateInfo.rect.Inside t.screen.srcWidth t.screen.srcHeight
  in_panel : t.screen.updateInfo.rect.Inside t.screen.device.getXres
    t.screen.device.getYres
  copied : ∀ q ∈ t.screen.updateInfo.rect, Copied t.log t.screen.effective q

/-! ## §2  Sound announcements -/

section Sound

variable {g : Geometry} {log : List Entry}

theorem Upright.rotate {o : Orientation} (ho : Upright o) (q : ℤ × ℤ) :
    rotate g o q = q := by
  rcases ho with rfl | rfl
  · rfl
  · rfl

theorem AllPainted.nil : AllPainted g [] := by
  intro before d o mode after h
  cases before <;> cases h

theorem AllPainted.snoc {e : Entry} (h : AllPainted g log)
    (he : ∀ d o mode, e = .announced d o mode → PanelRect g log o d) :
    AllPainted g (log ++ [e]) := by
  intro before d o mode after heq
  rcases snoc_eq_split heq with ⟨rfl, heq, -⟩ | ⟨rest, -, hl⟩
  · exact he d o mode heq
  · exact h before d o mode rest hl

/-- What `repaint` announces is the image of what it has just copied. -/
theorem PanelRect.of_repaint {s : State} (hs : Wired g s) {o : Orientation} {r : Rect}
    (hw : 0 < (imageRect g o r).w) (hh : 0 < (imageRect g o r).h) :
    PanelRect g (log ++ [.copied o r]) o (imageRect g o r) where
  nonempty := ⟨hw, hh⟩
  inside := Rect.Inside.of_mem hw hh fun p hp => ((hs.mem_imageRect o r p).mp hp).1
  image := ⟨r, hs.mem_imageRect o r, fun q hq _ => ⟨r, by simp, hq⟩⟩

theorem AllPainted.repaint {t : Trace} (ht : Wired g t.screen)
    (h : AllPainted g t.log) :
    AllPainted g (t.log ++ t.screen.track.repaintLog g) := by
  have hcopied : AllPainted g
      (t.log ++ [.copied t.screen.track.effective t.screen.track.rect]) :=
    h.snoc fun d o mode he => by cases he
  unfold Track.repaintLog announce
  split
  · exact hcopied
  · rename_i hne
    have happ := hcopied.snoc (e := .announced
      (imageRect g t.screen.track.effective t.screen.track.rect)
      t.screen.track.effective t.screen.track.mode) fun d o mode he => by
        cases he
        exact PanelRect.of_repaint ht (by omega) (by omega)
    rw [List.append_assoc] at happ
    exact happ

/-- An accumulator that can be announced as it is. -/
theorem PanelRect.of_flushable {t : Trace} (ht : Wired g t.screen) (hf : Flushable t) :
    PanelRect g t.log t.screen.track.effective t.screen.track.rect := by
  have hsrc : t.screen.updateInfo.rect.Inside g.srcW g.srcH := by
    rw [← ht.geometry]
    exact hf.in_source
  have hpanel : t.screen.updateInfo.rect.Inside g.panelW g.panelH := by
    rw [← ht.geometry]
    exact hf.in_panel
  refine ⟨hf.nonempty, hpanel, t.screen.updateInfo.rect, ?_,
    fun q hq _ => hf.copied q hq⟩
  intro p
  constructor
  · intro hp
    exact ⟨hpanel.mem_full hp, p, ⟨hp, hsrc.mem_full hp⟩, hf.upright.rotate p⟩
  · rintro ⟨-, q, ⟨hq, -⟩, he⟩
    have hqp : q = p := (hf.upright.rotate q).symm.trans he
    rw [← hqp]
    exact hq

/-- **Step lemma.** -/
theorem AllPainted.step {t t' : Trace} {a : Act} {es : List Entry}
    (ht : Wired g t.screen) (h : AllPainted g t.log)
    (ha : Flushes t.screen a → Flushable t)
    (hmove : Move g t.screen.track a es t'.screen.track) :
    AllPainted g (t.log ++ es) := by
  have hsilent : AllPainted g (t.log ++ []) := by
    rw [List.append_nil]
    exact h
  generalize t'.screen.track = k' at hmove
  cases hmove with
  | idle => exact hsilent
  | fresh src r hu => exact h.snoc fun d o mode he => by cases he
  | merge src r hu hb => exact h.snoc fun d o mode he => by cases he
  | flush src r hu hb =>
      have hflush := h.snoc (e := .announced t.screen.track.rect
        t.screen.track.effective t.screen.track.mode) fun d o mode he => by
          cases he
          exact PanelRect.of_flushable ht (ha ⟨hu, hb⟩)
      have happ := hflush.snoc (e := .committed r) fun d o mode he => by cases he
      rw [List.append_assoc] at happ
      exact happ
  | tick now now' hu => exact h.repaint ht
  | repaint now => exact h.repaint ht
  | setMode mode => exact hsilent
  | setEffective o ho hne => exact hsilent

end Sound

/-- An accumulator that has been copied as it is. -/
theorem Flushable.of_copied {t : Trace} (hup : Upright t.screen.effective)
    (hne : 0 < t.screen.updateInfo.rect.w ∧ 0 < t.screen.updateInfo.rect.h)
    (hsrc : t.screen.updateInfo.rect.Inside t.screen.srcWidth t.screen.srcHeight)
    (hpanel : t.screen.updateInfo.rect.Inside t.screen.device.getXres t.screen.device.getYres)
    (hlog : .copied t.screen.effective t.screen.updateInfo.rect ∈ t.log) : Flushable t :=
  ⟨hup, hne, hsrc, hpanel, fun _ hq => ⟨_, hlog, hq⟩⟩

/-- The fast repaint leaves the flag set, so the second commit gives up an
accumulator that has been copied. -/
def castFlush : List Act :=
  [.commit [1, 1, 0, 0, 0, 0, 0, 0, 0, 0] ⟨0, 0, 1, 1⟩,
   .tick 500000000 500000001,
   .commit [1, 1, 0, 0, 0, 0, 0, 0, 2, 2] ⟨4, 0, 1, 1⟩,
   .tick 600000000 600000001]

/-- A panel of one column and five rows, which a source of five columns and
one row reaches by a rotation. -/
def column : Device where
  backend := .appload ⟨1, 5, List.replicate 10 0, .UI⟩

example : column.Ready := by
  show ((List.replicate 10 (0 : UInt8)).length : ℤ) = 1 * 2 * 5
  decide

/-- The last and the first pixel of the source row are committed. The first
accumulator is given up, and the column `4` of the source is announced on a
panel that has one column. -/
def farColumns : List Act :=
  [.commit [0, 0, 0, 0, 0, 0, 0, 0, 2, 2] ⟨4, 0, 1, 1⟩,
   .commit [1, 1, 0, 0, 0, 0, 0, 0, 2, 2] ⟨0, 0, 1, 1⟩]

end Rmcast.Screen
