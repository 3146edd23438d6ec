import Rmcast.Screen.Updates

/-!
# Touch, pen and keyboard input

AppLoad reports input in panel coordinates. `touch::handle_event` and
`virtualkeyboard::handle_event` turn an event into calls: pointer and key
messages to the VNC server, switches of the repaint mode, and a repaint when
the interaction ends. A pointer message carries source coordinates, which
`transform_input` finds; §2 shows that they name the pixel under the finger.
-/

namespace Rmcast.Screen

open Mem

/-! ## §1  The code -/

/-- The `INPUT_*` event types. -/
inductive InputType where
  | touchPress
  | touchRelease
  | touchUpdate
  | penPress
  | penRelease
  | penUpdate
  | vkbPress
  | vkbRelease
deriving DecidableEq, Repr

inductive MouseButton where
  | None
  | Left
deriving DecidableEq, Repr

/-- What a handler asks for. -/
inductive Call where
  | setRepaintMode (mode : RepaintMode)
  | sendButtonPress (x y : ℤ) (button : MouseButton)
  | sendVirtualKeyPress (keyCode : ℤ) (down : Bool)
  | repaint
deriving DecidableEq, Repr

/-- `touch::handle_event`. -/
def touchHandleEvent (type : InputType) (x y : ℤ) : List Call :=
  (if type = .touchPress ∨ type = .penPress then [.setRepaintMode .fast] else []) ++
  [.sendButtonPress x y .Left] ++
  if type = .touchRelease ∨ type = .penRelease then
    [.sendButtonPress x y .None, .setRepaintMode .standard, .repaint]
  else []

/-- The keys of `mapAsciiToX11Key` that are not printable. -/
def unprintableKeys : List (ℤ × ℤ) :=
  [(8, 0xff08), (9, 0xff09), (13, 0xff0d), (27, 0xff1b), (127, 0xffff),
   (0x84, 0xff51), (0x83, 0xff52), (0x85, 0xff53), (0x82, 0xff54),
   (0x86, 0xff50), (0x87, 0xff57), (0x80, 0xff55), (0x81, 0xff56)]

def mapAsciiToX11Key (ascii : ℤ) : ℤ :=
  if (' '.toNat : ℤ) ≤ ascii ∧ ascii ≤ ('~'.toNat : ℤ) then ascii
  else if 0x00a0 ≤ ascii ∧ ascii ≤ 0x00ff then ascii
  else (unprintableKeys.lookup ascii).getD 0

def remapModifierKey (key : ℤ) : ℤ :=
  if key = 0x100000 then 0xffe1
  else if key = 0x200000 then 0xffe3
  else if key = 0x400000 then 0xffe9
  else 0

/-- `virtualkeyboard::handle_event`: the codes `0xf001` and `0xf000` report
that the keyboard is shown and hidden. The low half of an int, `& 0xFFFF`, is
its remainder modulo `2 ^ 16`, of a negative one too. -/
def virtualkeyboardHandleEvent (type : InputType) (keyCode : ℤ) : List Call :=
  if keyCode = 0xf001 then
    if type = .vkbPress then [.setRepaintMode .fast] else []
  else if keyCode = 0xf000 then
    if type = .vkbPress then [.setRepaintMode .standard, .repaint] else []
  else if keyCode = 0 then []
  else if keyCode % 2 ^ 16 = 0 then
    [.sendVirtualKeyPress (remapModifierKey keyCode) (type = .vkbPress)]
  else
    [.sendVirtualKeyPress (mapAsciiToX11Key (keyCode % 2 ^ 16)) (type = .vkbPress)]

/-- `client::send_button_press`: the coordinates of the pointer event. -/
def sendButtonPress (s : State) (x y : ℤ) : ℤ × ℤ :=
  transformInput s.geometry s.effective (x, y)

/-! ## §2  The pixel under the finger -/

section Touch

variable {g : Geometry} {o : Orientation} {src dst₀ dst : List UInt8}

/-- A source pixel has a value. -/
theorem Fits.pixel_isSome (hfit : Fits g src dst₀) {q : ℤ × ℤ} (hq : q ∈ g.source) :
    ∃ px, pixel src g.srcW g.bpp q = some px := by
  obtain ⟨h1, h2, h3, h4⟩ := Rect.mem_full.mp hq
  have hb := cell_isSome (k := g.bpp) hfit.src_length le_rfl h1 h2 h3 h4
  exact load_isSome hb.1 hb.2

/-- After a blit of the whole source, the panel shows each source pixel that
lands on it. -/
theorem Painted.whole (h : Painted g o src dst₀ (fun q => q ∈ g.source ∧ q ∈ g.source) dst)
    {q : ℤ × ℤ} (hq : q ∈ g.source) (hp : rotate g o q ∈ g.panel) :
    pixel dst g.panelW g.bpp (rotate g o q) = pixel src g.srcW g.bpp q :=
  h.shown q ⟨hq, hq⟩ hp

/-- **A touch lands on the pixel under the finger**: after the whole source
has been copied, the panel point `p` shows the source pixel that
`transform_input` names, and a source pixel that is on the panel is the one
named at its rotated position. -/
theorem touch_lands (g : Geometry) (o : Orientation) (src dst₀ : List UInt8)
    (hw : 1 ≤ g.srcW) (hh : 1 ≤ g.srcH) (hfit : Fits g src dst₀) :
    ∃ dst d, blitRotated g o src dst₀ g.source = some (dst, d) ∧
      (∀ p ∈ g.panel, transformInput g o p ∈ g.source →
        ∃ px, pixel dst g.panelW g.bpp p = some px ∧
          pixel src g.srcW g.bpp (transformInput g o p) = some px) ∧
      ∀ q ∈ g.source, rotate g o q ∈ g.panel →
        pixel dst g.panelW g.bpp (rotate g o q) = pixel src g.srcW g.bpp q ∧
        transformInput g o (rotate g o q) = q := by
  obtain ⟨dst, d, hblit, hB⟩ := blitRotated_spec (o := o) (s := g.source) hfit
  refine ⟨dst, d, hblit, ?_, ?_⟩
  · intro p hp hq
    have hrot : rotate g o (transformInput g o p) = p :=
      (transformInput_eq_iff hw hh).mp rfl
    obtain ⟨px, hpx⟩ := hfit.pixel_isSome hq
    refine ⟨px, ?_, hpx⟩
    have hshown := hB.painted.whole hq (by rw [hrot]; exact hp)
    rw [hrot] at hshown
    exact hshown.trans hpx
  · intro q hq hp
    exact ⟨hB.painted.whole hq hp, (transformInput_eq_iff hw hh).mpr rfl⟩

/-- A 3×2 source on a panel of 2×2 pixels. -/
theorem touch_lands_cropped :
    ∃ dst d, blitRotated ⟨3, 2, 2, 2, 1⟩ .LandscapeCW [1, 2, 3, 4, 5, 6] [0, 0, 0, 0]
        (Geometry.source ⟨3, 2, 2, 2, 1⟩) = some (dst, d) ∧
      (∀ p ∈ Geometry.panel ⟨3, 2, 2, 2, 1⟩,
        transformInput ⟨3, 2, 2, 2, 1⟩ .LandscapeCW p ∈ Geometry.source ⟨3, 2, 2, 2, 1⟩ →
        ∃ px, pixel dst 2 1 p = some px ∧
          pixel [1, 2, 3, 4, 5, 6] 3 1 (transformInput ⟨3, 2, 2, 2, 1⟩ .LandscapeCW p)
            = some px) ∧
      ∀ q ∈ Geometry.source ⟨3, 2, 2, 2, 1⟩,
        rotate ⟨3, 2, 2, 2, 1⟩ .LandscapeCW q ∈ Geometry.panel ⟨3, 2, 2, 2, 1⟩ →
        pixel dst 2 1 (rotate ⟨3, 2, 2, 2, 1⟩ .LandscapeCW q)
          = pixel [1, 2, 3, 4, 5, 6] 3 1 q ∧
        transformInput ⟨3, 2, 2, 2, 1⟩ .LandscapeCW
          (rotate ⟨3, 2, 2, 2, 1⟩ .LandscapeCW q) = q :=
  touch_lands ⟨3, 2, 2, 2, 1⟩ .LandscapeCW [1, 2, 3, 4, 5, 6] [0, 0, 0, 0]
    (by decide) (by decide) ⟨by decide, by decide⟩

end Touch

end Rmcast.Screen
