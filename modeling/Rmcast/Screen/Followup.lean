import Rmcast.Screen.Input
import Rmcast.Screen.Trace

/-!
# Fast repaints and their standard follow-up

While the user touches the screen, or the keyboard is shown, repaints use a
fast waveform. Such a repaint leaves the flag of the accumulator set, so that
the accumulator keeps growing over everything that has been announced fast
until a standard repaint announces it again. The invariant is that: a panel
pixel that still owes a standard announcement lies in the image of an
accumulator whose flag is set. Giving an accumulator up in fast mode breaks
it.
-/

namespace Rmcast.Screen

open Loop

/-! ## §1  Events -/

/-- What happens to a session: input in panel coordinates, with the instant
at which a repaint it causes reads the clock, and the two things the main loop
does. -/
inductive Happening where
  | touch (type : InputType) (x y now : ℤ)
  | keyboard (type : InputType) (keyCode : ℤ) (now : ℤ)
  | commit (src : List UInt8) (r : Rect)
  | tick (now now' : ℤ)
deriving Repr

/-- The calls that concern the screen. -/
def screenActs (now : ℤ) (calls : List Call) : List Act :=
  calls.filterMap fun
    | .setRepaintMode mode => some (.setMode mode)
    | .repaint => some (.repaint now)
    | .sendButtonPress _ _ _ | .sendVirtualKeyPress _ _ => none

def Happening.acts : Happening → List Act
  | .touch type x y now => screenActs now (touchHandleEvent type x y)
  | .keyboard type keyCode now =>
      screenActs now (virtualkeyboardHandleEvent type keyCode)
  | .commit src r => [.commit src r]
  | .tick now now' => [.tick now now']

def Trace.happen (t : Trace) (e : Happening) : Option Trace :=
  Loop.run Trace.step t e.acts

/-- The event ends with a `repaint` in standard mode. -/
def StandardRepaint (t : Trace) (e : Happening) : Prop :=
  ∃ as a u, e.acts = as ++ [a] ∧ Loop.run Trace.step t as = some u ∧
    Repaints u.screen a ∧ u.screen.repaintMode = .standard

/-! ## §2  What is owed -/

/-- The panel pixel `p` has been announced fast and not in standard mode
since. -/
def Owed (log : List Entry) (p : ℤ × ℤ) : Prop :=
  ∃ before d o after, log = before ++ .announced d o .fast :: after ∧ p ∈ d ∧
    ∀ d' o', .announced d' o' .standard ∈ after → p ∉ d'

/-- Every panel pixel announced fast has been covered by a later standard
announcement. -/
def FollowedUp (g : Geometry) (log : List Entry) : Prop :=
  ∀ before d o after, log = before ++ .announced d o .fast :: after →
    ∀ p ∈ d, p ∈ g.panel → ∃ d' o', .announced d' o' .standard ∈ after ∧ p ∈ d'

theorem followedUp_iff {g : Geometry} {log : List Entry} :
    FollowedUp g log ↔ ∀ p ∈ g.panel, ¬ Owed log p := by
  constructor
  · rintro h p hp ⟨before, d, o, after, heq, hd, hno⟩
    obtain ⟨d', o', hmem, hd'⟩ := h before d o after heq p hd hp
    exact hno d' o' hmem hd'
  · intro h before d o after heq p hd hp
    by_contra hno
    exact h p hp ⟨before, d, o, after, heq, hd,
      fun d' o' hmem hd' => hno ⟨d', o', hmem, hd'⟩⟩

theorem Owed.not_nil {p : ℤ × ℤ} : ¬ Owed [] p := by
  rintro ⟨before, d, o, after, heq, -⟩
  cases before <;> cases heq

/-- What one more entry leaves owed. -/
theorem Owed.of_snoc {log : List Entry} {e : Entry} {p : ℤ × ℤ}
    (h : Owed (log ++ [e]) p) :
    (∃ d o, e = .announced d o .fast ∧ p ∈ d) ∨
      (Owed log p ∧ ∀ d o, e = .announced d o .standard → p ∉ d) := by
  obtain ⟨before, d, o, after, heq, hd, hno⟩ := h
  rcases snoc_eq_split heq with ⟨-, rfl, -⟩ | ⟨rest, rfl, rfl⟩
  · exact Or.inl ⟨d, o, rfl, hd⟩
  · refine Or.inr ⟨⟨before, d, o, rest, rfl, hd, fun d' o' hmem => ?_⟩, ?_⟩
    · exact hno d' o' (List.mem_append_left _ hmem)
    · rintro d' o' rfl
      exact hno d' o' (by simp)

/-- An entry that is no announcement changes nothing. -/
theorem Owed.of_snoc_silent {log : List Entry} {e : Entry} {p : ℤ × ℤ}
    (he : ∀ d o mode, e ≠ .announced d o mode) (h : Owed (log ++ [e]) p) :
    Owed log p := by
  rcases h.of_snoc with ⟨d, o, hed, -⟩ | ⟨h, -⟩
  · exact absurd hed (he d o .fast)
  · exact h

/-! ## §3  The invariant -/

/-- What is owed lies in the image of the accumulator, whose flag is set. -/
def Covered (g : Geometry) (k : Track) (log : List Entry) : Prop :=
  ∀ p ∈ g.panel, Owed log p →
    k.hasUpdate = true ∧ p ∈ imageRect g k.effective k.rect

/-- The call gives up an accumulator that is still needed: in fast mode, or
in standard mode when the rectangle it announces, which is the accumulator in
source coordinates, misses a pixel that is owed. -/
def Drops (t : Trace) (a : Act) : Prop :=
  Flushes t.screen a ∧
    (t.screen.repaintMode = .fast ∨
      ∃ p ∈ t.screen.geometry.panel, Owed t.log p ∧ p ∉ t.screen.updateInfo.rect)

/-- Calls of a session with a fixed orientation: `repaint` is called in
standard mode only, the repaints of the event loop apart. -/
def Regular (t : Trace) : Act → Prop
  | .repaint _ => t.screen.repaintMode = .standard
  | .setEffective _ => False
  | .commit _ _ | .tick _ _ | .setMode _ => True

section Steps

variable {g : Geometry} {t : Trace}

/-- What a repaint leaves owed: what it announces in fast mode, and what was
owed and is not covered in standard mode. -/
theorem Owed.of_repaint {p : ℤ × ℤ} {k : Track} {log : List Entry}
    (h : Owed (log ++ k.repaintLog g) p) :
    (k.mode = .fast ∧ p ∈ imageRect g k.effective k.rect) ∨
      (Owed log p ∧ (k.mode = .standard → p ∉ imageRect g k.effective k.rect)) := by
  have hcopied : Owed (log ++ [.copied k.effective k.rect]) p → Owed log p :=
    Owed.of_snoc_silent fun d o mode he => by cases he
  unfold Track.repaintLog announce at h
  split at h
  · -- an empty image covers nothing
    rename_i hempty
    refine Or.inr ⟨hcopied h, fun _ hmem => ?_⟩
    rw [Rect.mem_iff] at hmem
    omega
  · rw [List.append_cons] at h
    rcases h.of_snoc with ⟨d, o, he, hd⟩ | ⟨ho, hno⟩
    · injection he with hd' _ hm
      rw [← hd'] at hd
      exact Or.inl ⟨hm, hd⟩
    · refine Or.inr ⟨hcopied ho, fun hm => ?_⟩
      rw [hm] at hno
      exact hno _ k.effective rfl

/-- After a standard repaint nothing is owed. -/
theorem Covered.standardRepaint {k : Track} {log : List Entry} (h : Covered g k log)
    (hmode : k.mode = .standard) {p : ℤ × ℤ} (hp : p ∈ g.panel) :
    ¬ Owed (log ++ k.repaintLog g) p := by
  intro howed
  rcases howed.of_repaint with ⟨hm, -⟩ | ⟨ho, hno⟩
  · rw [hmode] at hm
    cases hm
  · exact hno hmode (h p hp ho).2

/-- A repaint keeps the invariant, unless it is a fast one of an accumulator
whose flag is not set. -/
theorem Covered.repaint {k : Track} {log : List Entry} (h : Covered g k log)
    (hu : k.mode = .standard ∨ k.hasUpdate = true) :
    Covered g k.afterRepaint (log ++ k.repaintLog g) := by
  intro p hp howed
  cases hm : k.mode with
  | standard => exact absurd howed (h.standardRepaint hm hp)
  | fast =>
      have hflag : k.hasUpdate = true := by
        rcases hu with hs | hu
        · rw [hm] at hs
          cases hs
        · exact hu
      refine ⟨?_, ?_⟩
      · show (if k.mode = .standard then false else k.hasUpdate) = true
        rw [hm, if_neg (by decide)]
        exact hflag
      · rcases howed.of_repaint with ⟨-, hmem⟩ | ⟨ho, -⟩
        · exact hmem
        · exact (h p hp ho).2

/-- A larger accumulator has a larger image. -/
theorem Wired.imageRect_hull {s : State} (hs : Wired g s) (o : Orientation)
    (r r' : Rect) {p : ℤ × ℤ} (hp : p ∈ imageRect g o r) :
    p ∈ imageRect g o (r.hull r') := by
  rw [hs.mem_imageRect] at hp ⊢
  obtain ⟨hpanel, q, ⟨hq, hsrc⟩, he⟩ := hp
  exact ⟨hpanel, q, ⟨Rect.mem_hull_left hq, hsrc⟩, he⟩

/-- **Step lemma.** -/
theorem Covered.step {t' : Trace} {a : Act} {es : List Entry} (ht : Wired g t.screen)
    (h : Covered g t.screen.track t.log) (hreg : Regular t a) (hdrop : ¬ Drops t a)
    (hmove : Move g t.screen.track a es t'.screen.track) :
    Covered g t'.screen.track (t.log ++ es) := by
  have hcommitted : ∀ {log : List Entry} {r : Rect} {p : ℤ × ℤ},
      Owed (log ++ [.committed r]) p → Owed log p :=
    Owed.of_snoc_silent fun d o mode he => by cases he
  generalize t'.screen.track = k' at hmove
  cases hmove with
  | idle =>
      rw [List.append_nil]
      exact h
  | fresh src r hu =>
      -- nothing is owed while the flag is not set
      intro p hp howed
      have hset := (h p hp (hcommitted howed)).1
      rw [hu] at hset
      cases hset
  | merge src r hu hb =>
      intro p hp howed
      exact ⟨hu, ht.imageRect_hull _ _ _ (h p hp (hcommitted howed)).2⟩
  | flush src r hu hb =>
      intro p hp howed
      refine absurd ?_ hdrop
      refine ⟨⟨hu, hb⟩, ?_⟩
      rw [List.append_cons] at howed
      rcases (hcommitted howed).of_snoc with ⟨d, o, he, -⟩ | ⟨ho, hno⟩
      · injection he with _ _ hm
        exact Or.inl hm
      · cases hm : t.screen.repaintMode with
        | fast => exact Or.inl rfl
        | standard =>
            rw [ht.geometry]
            refine Or.inr ⟨p, hp, ho, hno t.screen.track.rect t.screen.effective ?_⟩
            rw [← hm]
            rfl
  | tick now now' hu => exact h.repaint (Or.inr hu)
  | repaint now => exact h.repaint (Or.inl hreg)
  | setMode mode =>
      rw [List.append_nil]
      exact h
  | setEffective o ho hne => exact hreg.elim

end Steps

/-! ## §4  Runs of events -/

/-- The event is a commit that gives up an accumulator that is still
needed. -/
def Happening.Drops (t : Trace) (e : Happening) : Prop :=
  ∃ a ∈ e.acts, Screen.Drops t a

def Happening.Sized (t : Trace) : Happening → Prop
  | .commit src _ => src.length = t.screen.srcBuffer.length
  | .tick _ _ | .touch _ _ _ _ | .keyboard _ _ _ => True

instance (t : Trace) : ∀ e : Happening, Decidable (e.Sized t)
  | .commit _ _ => inferInstanceAs (Decidable (_ = _))
  | .tick _ _ | .touch _ _ _ _ | .keyboard _ _ _ => inferInstanceAs (Decidable True)

theorem screenActs_touch (now : ℤ) (type : InputType) (x y : ℤ) :
    screenActs now (touchHandleEvent type x y) = [] ∨
      screenActs now (touchHandleEvent type x y) = [.setMode .fast] ∨
      screenActs now (touchHandleEvent type x y)
        = [.setMode .standard, .repaint now] := by
  cases type with
  | touchPress | penPress => exact Or.inr (Or.inl rfl)
  | touchRelease | penRelease => exact Or.inr (Or.inr rfl)
  | touchUpdate | penUpdate | vkbPress | vkbRelease => exact Or.inl rfl

theorem screenActs_keyboard (now : ℤ) (type : InputType) (keyCode : ℤ) :
    screenActs now (virtualkeyboardHandleEvent type keyCode) = [] ∨
      screenActs now (virtualkeyboardHandleEvent type keyCode) = [.setMode .fast] ∨
      screenActs now (virtualkeyboardHandleEvent type keyCode)
        = [.setMode .standard, .repaint now] := by
  unfold virtualkeyboardHandleEvent
  by_cases hshow : keyCode = 0xf001
  · rw [if_pos hshow]
    split
    · exact Or.inr (Or.inl rfl)
    · exact Or.inl rfl
  by_cases hhide : keyCode = 0xf000
  · rw [if_neg hshow, if_pos hhide]
    split
    · exact Or.inr (Or.inr rfl)
    · exact Or.inl rfl
  · rw [if_neg hshow, if_neg hhide]
    split
    · exact Or.inl rfl
    · split
      · exact Or.inl rfl
      · exact Or.inl rfl

/-- Input switches the mode, and repaints in standard mode only. -/
theorem Happening.acts_cases (e : Happening) :
    (∃ src r, e = .commit src r) ∨ (∃ now now', e = .tick now now') ∨ e.acts = [] ∨
      e.acts = [.setMode .fast] ∨ ∃ now, e.acts = [.setMode .standard, .repaint now] := by
  cases e with
  | commit src r => exact Or.inl ⟨src, r, rfl⟩
  | tick now now' => exact Or.inr (Or.inl ⟨now, now', rfl⟩)
  | touch type x y now =>
      rcases screenActs_touch now type x y with h | h | h
      · exact Or.inr (Or.inr (Or.inl h))
      · exact Or.inr (Or.inr (Or.inr (Or.inl h)))
      · exact Or.inr (Or.inr (Or.inr (Or.inr ⟨now, h⟩)))
  | keyboard type keyCode now =>
      rcases screenActs_keyboard now type keyCode with h | h | h
      · exact Or.inr (Or.inr (Or.inl h))
      · exact Or.inr (Or.inr (Or.inr (Or.inl h)))
      · exact Or.inr (Or.inr (Or.inr (Or.inr ⟨now, h⟩)))

section Runs

variable {g : Geometry} {t : Trace}

/-- The invariant of a run of calls. -/
structure Good (g : Geometry) (t : Trace) : Prop where
  wired : Wired g t.screen
  covered : Covered g t.screen.track t.log

theorem Good.call (h : Good g t) {a : Act} (hs : Sized t a) (hreg : Regular t a)
    (hdrop : ¬ Drops t a) : ∃ t', t.step a = some t' ∧ Good g t' := by
  obtain ⟨t', es, hrun, hw, hlog, hmove⟩ := h.wired.step hs
  refine ⟨t', hrun, hw, ?_⟩
  rw [hlog]
  exact h.covered.step h.wired hreg hdrop hmove

/-- **One event** keeps the invariant. -/
theorem Good.happen (h : Good g t) {e : Happening} (hs : e.Sized t)
    (hdrop : ¬ e.Drops t) : ∃ t', t.happen e = some t' ∧ Good g t' := by
  unfold Trace.happen
  rcases e.acts_cases with ⟨src, r, rfl⟩ | ⟨now, now', rfl⟩ | he | he | ⟨now, he⟩
  · obtain ⟨t', hrun, h'⟩ := h.call (a := .commit src r) hs trivial
      fun hd => hdrop ⟨_, List.mem_singleton.mpr rfl, hd⟩
    refine ⟨t', ?_, h'⟩
    show Loop.run Trace.step t [.commit src r] = _
    rw [run_cons, hrun]
    rfl
  · obtain ⟨t', hrun, h'⟩ := h.call (a := .tick now now') trivial trivial
      fun hd => hd.1.elim
    refine ⟨t', ?_, h'⟩
    show Loop.run Trace.step t [.tick now now'] = _
    rw [run_cons, hrun]
    rfl
  · rw [he]
    exact ⟨t, rfl, h⟩
  · rw [he]
    obtain ⟨t', hrun, h'⟩ := h.call (a := .setMode .fast) trivial trivial
      fun hd => hd.1.elim
    refine ⟨t', ?_, h'⟩
    rw [run_cons, hrun]
    rfl
  · rw [he]
    obtain ⟨t', hrun, h'⟩ := h.call (a := .setMode .standard) trivial trivial
      fun hd => hd.1.elim
    have hmode : t'.screen.repaintMode = .standard := by
      cases hrun
      rfl
    obtain ⟨u, hrun', hu⟩ := h'.call (a := .repaint now) trivial hmode
      fun hd => hd.1.elim
    refine ⟨u, ?_, hu⟩
    rw [run_cons, hrun]
    show Loop.run Trace.step t' [.repaint now] = _
    rw [run_cons, hrun']
    rfl

/-- After an event that ends with a standard repaint, everything announced
fast has been followed up. -/
theorem Good.followedUp (h : Good g t) {e : Happening} (hrep : StandardRepaint t e) :
    ∃ t', t.happen e = some t' ∧ FollowedUp g t'.log := by
  obtain ⟨as, a, u, hacts, hrun, ha, hmode⟩ := hrep
  -- the calls before the repaint keep the invariant
  have hu : Good g u := by
    rcases e.acts_cases with ⟨src, r, rfl⟩ | ⟨now, now', rfl⟩ | he | he | ⟨now, he⟩
    · obtain ⟨-, hlast⟩ := List.append_inj' (show [] ++ [_] = as ++ [a] from hacts) rfl
      cases hlast
      exact ha.elim
    · obtain ⟨rfl, -⟩ := List.append_inj' (show [] ++ [_] = as ++ [a] from hacts) rfl
      cases hrun
      exact h
    · rw [he] at hacts
      exact absurd hacts.symm (by simp)
    · rw [he] at hacts
      obtain ⟨-, hlast⟩ := List.append_inj' (show [] ++ [_] = as ++ [a] from hacts) rfl
      cases hlast
      exact ha.elim
    · rw [he] at hacts
      obtain ⟨rfl, -⟩ := List.append_inj'
        (show [.setMode .standard] ++ [.repaint now] = as ++ [a] from hacts) rfl
      obtain ⟨t', hset, h'⟩ := h.call (a := .setMode .standard) trivial trivial
        fun hd => hd.1.elim
      rw [run_cons, hset] at hrun
      cases hrun
      exact h'
  obtain ⟨t', hstep, -, hlog, -⟩ := hu.wired.step_repaints u.log ha
  refine ⟨t', ?_, ?_⟩
  · unfold Trace.happen
    rw [hacts, run_snoc, hrun]
    exact hstep
  · rw [hlog, followedUp_iff]
    exact fun p hp => hu.covered.standardRepaint hmode hp

end Runs

/-- **Fast repaints are followed up.** In a run in which `commit_updates`
gives up no accumulator that is still needed, an event that ends with a
standard repaint leaves no panel pixel announced fast and not in standard mode
since. -/
theorem fast_followed_up {d : Device} {o : Orientation} {env : Option (List Char)}
    {sw sh : ℤ} {t₀ : Trace} {es : List Happening} (hd : d.Ready)
    (hstart : Trace.start d o env sw sh = some t₀)
    (hes : EveryStep Trace.happen (fun t e => e.Sized t ∧ ¬ e.Drops t) t₀ es) :
    ∃ t, run Trace.happen t₀ es = some t ∧
      ∀ e, StandardRepaint t e →
        ∃ t', t.happen e = some t' ∧ FollowedUp t₀.screen.geometry t'.log := by
  obtain ⟨hwired, hlog⟩ := Trace.start_wired hd hstart
  obtain ⟨t, hrun, ht⟩ := run_inv (Good t₀.screen.geometry)
    (fun t e ht he => ht.happen he.1 he.2)
    ⟨hwired, fun p _ howed => absurd (hlog ▸ howed) Owed.not_nil⟩ hes
  exact ⟨t, hrun, fun e he => ht.followedUp he⟩

/-- A touch on a strip of five pixels, an update under the finger, and the end
of the touch. -/
def tap : List Happening :=
  [.touch .touchPress 0 0 0,
   .commit [1, 1, 0, 0, 0, 0, 0, 0, 0, 0] ⟨0, 0, 1, 1⟩,
   .tick 500000000 500000001]

theorem strip_ready : strip.Ready := by
  show ((List.replicate 10 (0 : UInt8)).length : ℤ) = 5 * 2 * 1
  decide

/-- The event gives up no accumulator at all. -/
def Happening.Quiet (t : Trace) (e : Happening) : Prop :=
  ∀ a ∈ e.acts, ¬ Flushes t.screen a

instance (t : Trace) (e : Happening) : Decidable (e.Quiet t) :=
  inferInstanceAs (Decidable (∀ a ∈ e.acts, ¬ Flushes t.screen a))

theorem fast_followed_up_tap :
    ∃ t₀, Trace.start strip .Portrait none 5 1 = some t₀ ∧
      ∃ t, run Trace.happen t₀ tap = some t ∧
        ∀ e, StandardRepaint t e →
          ∃ t', t.happen e = some t' ∧ FollowedUp t₀.screen.geometry t'.log := by
  obtain ⟨t₀, hstart⟩ : ∃ t₀, Trace.start strip .Portrait none 5 1 = some t₀ := ⟨_, rfl⟩
  have hes : ∀ t ∈ Trace.start strip .Portrait none 5 1,
      EveryStep Trace.happen (fun t e => e.Sized t ∧ e.Quiet t) t tap := by
    decide +kernel
  refine ⟨t₀, hstart, fast_followed_up strip_ready hstart ?_⟩
  refine (hes t₀ hstart).imp fun t e h => ⟨h.1, ?_⟩
  rintro ⟨a, ha, hd⟩
  exact h.2 a ha hd.1

/-- The first pixel is announced fast. When the last one is committed, the
accumulator with the first one is given up, and the repaint at the end of the
touch covers the last pixel only. -/
def farTouch : List Happening :=
  [.touch .touchPress 0 0 0,
   .commit [1, 1, 0, 0, 0, 0, 0, 0, 0, 0] ⟨0, 0, 1, 1⟩,
   .tick 500000000 500000001,
   .commit [1, 1, 0, 0, 0, 0, 0, 0, 2, 2] ⟨4, 0, 1, 1⟩]

theorem fast_left_behind :
    ¬ ∀ t₀, Trace.start strip .Portrait none 5 1 = some t₀ →
      EveryStep Trace.happen (fun t e => e.Sized t) t₀ farTouch →
      ∃ t, run Trace.happen t₀ farTouch = some t ∧
        ∀ e, StandardRepaint t e →
          ∃ t', t.happen e = some t' ∧ FollowedUp t₀.screen.geometry t'.log := by
  intro H
  obtain ⟨t₀, hstart⟩ : ∃ t₀, Trace.start strip .Portrait none 5 1 = some t₀ := ⟨_, rfl⟩
  have hes : ∀ t ∈ Trace.start strip .Portrait none 5 1,
      EveryStep Trace.happen (fun t e => e.Sized t) t farTouch := by
    decide +kernel
  obtain ⟨t, hrun, h⟩ := H t₀ hstart (hes t₀ hstart)
  obtain ⟨u, hu⟩ : ∃ u, t.step (.setMode .standard) = some u := ⟨_, rfl⟩
  obtain ⟨t', hend, hF⟩ := h (.touch .touchRelease 0 0 600000000)
    ⟨[.setMode .standard], .repaint 600000000, u, rfl, by
      rw [run_cons, hu]
      rfl, trivial, by cases hu; rfl⟩
  have hlog : ∀ t₀ ∈ Trace.start strip .Portrait none 5 1,
      (0, 0) ∈ t₀.screen.geometry.panel ∧
      ∀ t ∈ run Trace.happen t₀ farTouch,
      ∀ t' ∈ t.happen (.touch .touchRelease 0 0 600000000),
        t'.log = [.committed ⟨0, 0, 1, 1⟩, .copied .Portrait ⟨0, 0, 1, 1⟩] ++
          .announced ⟨0, 0, 1, 1⟩ .Portrait .fast ::
            [.announced ⟨0, 0, 1, 1⟩ .Portrait .fast, .committed ⟨4, 0, 1, 1⟩,
             .copied .Portrait ⟨4, 0, 1, 1⟩,
             .announced ⟨4, 0, 1, 1⟩ .Portrait .standard] := by
    decide +kernel
  obtain ⟨hpanel, hl⟩ := hlog t₀ hstart
  obtain ⟨d', o', hmem, hp⟩ := hF _ _ _ _ (hl t hrun t' hend) (0, 0) (by decide) hpanel
  have hd : d' = ⟨4, 0, 1, 1⟩ := by
    simp only [List.mem_cons, Entry.announced.injEq, reduceCtorEq, and_false,
      and_true, false_or, or_false, List.not_mem_nil] at hmem
    exact hmem.1
  rw [hd] at hp
  exact absurd hp (by decide)

end Rmcast.Screen
