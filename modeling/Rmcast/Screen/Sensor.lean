import Rmcast.Screen.Trace

/-!
# The orientation sensor

`OrientationSensor::run` classifies accelerometer readings and reports a
direction when it differs from the last one. The client maps the direction to
an orientation and sets it. The other writer of the effective orientation is
`create_framebuf`, which resolves a requested `Auto` by the shapes of source
and panel, whatever the sensor has set; and the sensor does not report an
unchanged direction again.
-/

namespace Rmcast.Screen

open Loop

/-! ## §1  The code -/

inductive DeviceOrientation where
  | Unknown
  | PortraitUp
  | PortraitDown
  | LandscapeLeft
  | LandscapeRight
deriving DecidableEq, Repr

def kDominanceThreshold : ℤ := 6000

def classify (x y z : ℤ) : DeviceOrientation :=
  if |z| > |x| ∧ |z| > |y| then .Unknown
  else if |y| > |x| then
    if |y| < kDominanceThreshold then .Unknown
    else if y > 0 then .PortraitUp else .PortraitDown
  else
    if |x| < kDominanceThreshold then .Unknown
    else if x > 0 then .LandscapeLeft else .LandscapeRight

/-- `parse_env`; `env` is `getenv`. -/
def parseEnv (env : List Char → Option (List Char)) (var : List Char)
    (fallback : Orientation) : Orientation :=
  match env var with
  | some s => Orientation.fromString s
  | none => fallback

/-- `map_device_to_blit`. -/
def mapDeviceToBlit (env : List Char → Option (List Char)) :
    DeviceOrientation → Orientation
  | .PortraitUp => parseEnv env "ORIENT_PORTRAIT_UP".toList .LandscapeCW
  | .PortraitDown => parseEnv env "ORIENT_PORTRAIT_DOWN".toList .LandscapeCCW
  | .LandscapeLeft => parseEnv env "ORIENT_LANDSCAPE_LEFT".toList .LandscapeCW
  | .LandscapeRight => parseEnv env "ORIENT_LANDSCAPE_RIGHT".toList .LandscapeCCW
  | .Unknown => .Auto

/-- The callback `client::client` gives to the sensor. -/
def onChange (env : List Char → Option (List Char)) (s : State)
    (d : DeviceOrientation) : State :=
  if mapDeviceToBlit env d ≠ .Auto then
    setEffectiveOrientation s (mapDeviceToBlit env d)
  else s

/-- The screen and the sensor's `last_`. `seen` records the orientation of the
last direction sampled that has one. -/
structure Rotator where
  screen : State
  last : DeviceOrientation := .Unknown
  seen : Option Orientation := none

/-- One iteration of `OrientationSensor::run`. -/
def sample (env : List Char → Option (List Char)) (r : Rotator) (x y z : ℤ) :
    Rotator :=
  let now := classify x y z
  if now ≠ .Unknown then
    -- the callback sees changes of direction only
    { screen := if now ≠ r.last then onChange env r.screen now else r.screen
      last := now
      seen := if mapDeviceToBlit env now ≠ .Auto then some (mapDeviceToBlit env now)
        else r.seen }
  else r

inductive RotatorEvent where
  | sample (x y z : ℤ)
  | create (sw sh : ℤ)
deriving DecidableEq, Repr

def Rotator.step (env : List Char → Option (List Char)) (r : Rotator) :
    RotatorEvent → Option Rotator
  | .sample x y z => some (Screen.sample env r x y z)
  | .create sw sh => (createFramebuf r.screen sw sh).map fun s => { r with screen := s }

/-- The sensor thread is started before there is a framebuffer. -/
def Rotator.start (d : Device) (envWaveform : Option (List Char)) : Rotator where
  screen := Screen.create d .Auto envWaveform

/-! ## §2  Who has the last word -/

/-- Auto-rotate is in force. -/
def Rotator.InForce (r : Rotator) : Prop :=
  ∀ o ∈ r.seen, r.screen.effective = o

/-- What `create_framebuf` resolves `Auto` to. -/
def resolveAuto (d : Device) (sw sh : ℤ) : Orientation :=
  if decide (d.getYres > d.getXres) ≠ decide (sh > sw) then .LandscapeCCW
  else .Portrait

/-- The step leaves the orientation the sensor has set: a framebuffer is
created before the sensor has set one, or `Auto` is resolved to that one. -/
def Rotator.Agrees (r : Rotator) : RotatorEvent → Prop
  | .sample _ _ _ => True
  | .create sw sh => ∀ o ∈ r.seen, resolveAuto r.screen.device sw sh = o

instance (r : Rotator) : ∀ e, Decidable (r.Agrees e)
  | .sample _ _ _ => inferInstanceAs (Decidable True)
  | .create _ _ => inferInstanceAs (Decidable (∀ o ∈ r.seen, _))

/-- A framebuffer has a size. -/
def RotatorEvent.Positive : RotatorEvent → Prop
  | .sample _ _ _ => True
  | .create sw sh => 0 < sw ∧ 0 < sh

instance : ∀ e : RotatorEvent, Decidable e.Positive
  | .sample _ _ _ => inferInstanceAs (Decidable True)
  | .create _ _ => inferInstanceAs (Decidable (_ ∧ _))

/-- `Auto` is requested, and the last direction is the one seen. -/
structure Tracking (env : List Char → Option (List Char)) (r : Rotator) : Prop where
  requested : r.screen.requested = .Auto
  last_seen : mapDeviceToBlit env r.last ≠ .Auto →
    r.seen = some (mapDeviceToBlit env r.last)

section Rotation

variable {env : List Char → Option (List Char)} {r : Rotator}

theorem setEffectiveOrientation_effective {s : State} {o : Orientation}
    (ho : o ≠ .Auto) : (setEffectiveOrientation s o).effective = o := by
  unfold setEffectiveOrientation
  rw [if_neg ho]
  split
  · rename_i hsame
    exact hsame
  · split
    · rfl
    · rfl

theorem setEffectiveOrientation_requested (s : State) (o : Orientation) :
    (setEffectiveOrientation s o).requested = s.requested := by
  unfold setEffectiveOrientation
  split
  · rfl
  · split
    · rfl
    · split
      · rfl
      · rfl

theorem onChange_requested (s : State) (d : DeviceOrientation) :
    (onChange env s d).requested = s.requested := by
  unfold onChange
  split
  · exact setEffectiveOrientation_requested _ _
  · rfl

/-- A sample of a direction that maps to no orientation changes nothing on the
screen. -/
theorem onChange_auto {s : State} {d : DeviceOrientation}
    (h : mapDeviceToBlit env d = .Auto) : onChange env s d = s :=
  if_neg fun hne => hne h

theorem onChange_effective {s : State} {d : DeviceOrientation}
    (h : mapDeviceToBlit env d ≠ .Auto) :
    (onChange env s d).effective = mapDeviceToBlit env d := by
  unfold onChange
  rw [if_pos h]
  exact setEffectiveOrientation_effective h

theorem Tracking.sample (h : Tracking env r) (x y z : ℤ) :
    Tracking env (Screen.sample env r x y z) := by
  unfold Screen.sample
  by_cases hu : classify x y z = .Unknown
  · rw [if_neg fun hne => hne hu]
    exact h
  · rw [if_pos hu]
    refine ⟨?_, fun hne => if_pos hne⟩
    show (if classify x y z ≠ r.last then onChange env r.screen (classify x y z)
      else r.screen).requested = _
    split
    · exact (onChange_requested _ _).trans h.requested
    · exact h.requested

/-- A sample leaves auto-rotate in force. -/
theorem Tracking.sample_inForce (h : Tracking env r) (hr : r.InForce) (x y z : ℤ) :
    (Screen.sample env r x y z).InForce := by
  unfold Screen.sample
  by_cases hu : classify x y z = .Unknown
  · rw [if_neg fun hne => hne hu]
    exact hr
  rw [if_pos hu]
  intro o ho
  show (if classify x y z ≠ r.last then onChange env r.screen (classify x y z)
    else r.screen).effective = o
  by_cases hmap : mapDeviceToBlit env (classify x y z) = .Auto
  · -- the direction has no orientation: both writers leave the screen alone
    have ho' : o ∈ r.seen := by
      rw [show (_ : Option Orientation) = r.seen from if_neg fun hne => hne hmap] at ho
      exact ho
    rw [onChange_auto hmap, ite_self]
    exact hr o ho'
  · have ho' : mapDeviceToBlit env (classify x y z) = o := by
      rw [show (_ : Option Orientation) = some _ from if_pos hmap] at ho
      exact Option.some.inj ho
    by_cases hlast : classify x y z = r.last
    · -- no change of direction, and no callback
      rw [if_neg fun hne => hne hlast]
      apply hr
      rw [h.last_seen (by rw [← hlast]; exact hmap), ← hlast, ho']
      rfl
    · rw [if_pos hlast, onChange_effective hmap, ho']

/-- **Creating a framebuffer** resolves `Auto` anew. -/
theorem Tracking.create (h : Tracking env r) {sw sh : ℤ} (hw : 0 < sw) (hh : 0 < sh) :
    ∃ s, createFramebuf r.screen sw sh = some s ∧ s.requested = .Auto ∧
      s.effective = resolveAuto r.screen.device sw sh := by
  unfold createFramebuf
  rw [if_neg (by omega)]
  refine ⟨_, rfl, h.requested, ?_⟩
  show (if r.screen.requested = .Auto then _ else _) = _
  rw [if_pos h.requested]
  rfl

end Rotation

/-- **Auto-rotate stays in force** in every state of a run exactly if every
framebuffer creation agrees with the orientation the sensor has set. -/
theorem auto_rotate_iff (env : List Char → Option (List Char)) (d : Device)
    (envWaveform : Option (List Char)) (es : List RotatorEvent)
    (hes : ∀ e ∈ es, e.Positive) :
    (∀ pre, pre <+: es →
      ∃ r, run (Rotator.step env) (Rotator.start d envWaveform) pre = some r ∧
        r.InForce) ↔
    EveryStep (Rotator.step env) Rotator.Agrees (Rotator.start d envWaveform) es := by
  refine every_prefix_iff (I := Tracking env) ?_ ⟨rfl, fun hne => absurd rfl hne⟩
    (fun o ho => nomatch ho) hes
  intro r e hI hr he
  cases e with
  | sample x y z =>
      exact ⟨_, rfl, hI.sample x y z, fun _ => trivial, fun _ => hI.sample_inForce hr x y z⟩
  | create sw sh =>
      obtain ⟨s, hs, hreq, heff⟩ := hI.create he.1 he.2
      refine ⟨{ r with screen := s }, ?_, ⟨hreq, hI.last_seen⟩, ?_⟩
      · show (createFramebuf r.screen sw sh).map _ = _
        rw [hs]
        rfl
      · show (∀ o ∈ r.seen, s.effective = o) ↔ ∀ o ∈ r.seen, _
        rw [heff]

/-- A panel of one column and two rows. -/
def uprightPanel : Device where
  backend := .appload ⟨1, 2, List.replicate 4 0, .UI⟩

/-- The framebuffer is created, and the device is then turned on its left
side and back. -/
theorem auto_rotate_turns :
    ∃ r, run (Rotator.step fun _ => none) (Rotator.start uprightPanel none)
        [.create 2 1, .sample 9000 0 0, .sample 0 (-9000) 0] = some r ∧ r.InForce :=
  (auto_rotate_iff (fun _ => none) uprightPanel none
    [.create 2 1, .sample 9000 0 0, .sample 0 (-9000) 0] (by decide)).mpr (by decide)
    _ (List.prefix_refl _)

/-- The device is held upright, which maps to `LandscapeCW`, and then the
framebuffer is created: `Auto` is resolved to `LandscapeCCW`, and the sensor
does not report the unchanged direction again. -/
theorem auto_rotate_overwritten :
    ¬ ∀ es : List RotatorEvent, (∀ e ∈ es, e.Positive) → ∀ pre, pre <+: es →
      ∃ r, run (Rotator.step fun _ => none) (Rotator.start uprightPanel none) pre = some r ∧
        r.InForce := by
  intro H
  obtain ⟨r, hrun, hr⟩ := H [.sample 0 9000 0, .create 2 1, .sample 0 9000 0]
    (by decide) _ (List.prefix_refl _)
  have hend : ∀ r ∈ run (Rotator.step fun _ => none) (Rotator.start uprightPanel none)
      [.sample 0 9000 0, .create 2 1, .sample 0 9000 0],
      r.seen = some .LandscapeCW ∧ r.screen.effective = .LandscapeCCW := by
    decide +kernel
  obtain ⟨hseen, heff⟩ := hend r hrun
  have hcw := hr .LandscapeCW (by rw [hseen]; rfl)
  rw [heff] at hcw
  cases hcw

end Rmcast.Screen
