import Rmcast.Vncast.Shm

/-!
# What the client sends

The messages of `vncast::ClientConnection`, under the constants of its own
header (`vncast_client.hpp` repeats the wire structs of `qtfb/protocol.h`).
-/

namespace Rmcast.Vncast

open Word

/-! ## §1  The client's header -/

def kMagic : UInt32 := 0x56434B31

def kVersion : UInt32 := 1

/-- The client's `Tag` and packed structs. -/
def packed : Qtfb.Message → List UInt8
  | .hello m => words [kMagic, 0x01, m.clientVersion, m.requestedW,
      m.requestedH, m.requestedFps]
  | .frame m => words [kMagic, 0x03, m.seq, m.x, m.y, m.w, m.h, m.mode]
  | .cursor m => words [kMagic, 0x05, m.x, m.y, m.w, m.h, m.visible]
  | .bye m => words [kMagic, 0xFF, m.reason]

/-- The two headers lay the messages out alike. -/
theorem packed_eq_encode (m : Qtfb.Message) : packed m = m.encode := by
  cases m <;> rfl

/-! ## §2  The operations -/

/-- The `HELLO` of `handshake`; `fpsCap` is read from `$VNCAST_FPS`. -/
def hello (fpsCap : UInt32) : Qtfb.HelloC2S where
  clientVersion := kVersion
  requestedW := 0
  requestedH := 0
  requestedFps := fpsCap

/-- The `BYE` of the destructor. -/
def bye : Qtfb.Bye := ⟨0⟩

/-- `classify_frame_mode`. -/
def classifyFrameMode (c : Connection) (w h : ℤ) : UInt32 :=
  let area := int32 (w * h)
  let total := int32 (c.width * c.height)
  if total ≤ 0 then 2
  else if int32 (area * 100) < total then 2
  else if int32 (area * 100) < int32 (total * 40) then 1
  else 3

/-- The `FRAME` of an update; the sequence number is already counted up. -/
def updateFrame (c : Connection) (r : Rect) : Qtfb.Frame where
  seq := c.seq
  x := ofInt r.x
  y := ofInt r.y
  w := ofInt r.w
  h := ofInt r.h
  mode := classifyFrameMode c r.w r.h

/-- `send_partial_update`: the connection and the `FRAME` to send. -/
def sendPartialUpdate (c : Connection) (r : Rect) :
    Option (Connection × Qtfb.Frame) := do
  let shm ← blitRectToShm c r
  let c := { c with shm := shm, seq := c.seq + 1 }
  return (c, updateFrame c r)

def sendCompleteUpdate (c : Connection) : Option (Connection × Qtfb.Frame) :=
  sendPartialUpdate c ⟨0, 0, c.width, c.height⟩

/-- `send_cursor_pos`: only a change is cached and sent. -/
def sendCursorPos (c : Connection) (x y w h : ℤ) (visible : Bool) :
    Connection × Option Qtfb.CursorC2S :=
  if x = c.cursorX ∧ y = c.cursorY ∧ ofInt w = c.cursorW ∧
      ofInt h = c.cursorH ∧ visible = c.cursorVisible then (c, none)
  else
    ({ c with
        cursorX := x
        cursorY := y
        cursorW := ofInt w
        cursorH := ofInt h
        cursorVisible := visible },
      some
      { x := ofInt x
        y := ofInt y
        w := ofInt w
        h := ofInt h
        visible := if visible then 1 else 0 })

/-! ## §3  What the operations keep -/

/-- An update keeps the geometry and the buffers' sizes. -/
theorem Announced.updated {c : Connection} (h : Announced c)
    {S : ℤ × ℤ → Prop} {shm : List UInt8} (hP : Progress c c.shm S shm) :
    Announced { c with shm := shm, seq := c.seq + 1 } where
  w_lt := h.w_lt
  h_lt := h.h_lt
  shadow_length := h.shadow_length
  shm_length := by
    rw [← h.shm_length]
    exact_mod_cast hP.length
  format := h.format

/-- So does a cursor position. -/
theorem Announced.sendCursorPos {c : Connection} (hA : Announced c)
    (x y w h : ℤ) (visible : Bool) :
    Announced (sendCursorPos c x y w h visible).1 := by
  unfold Vncast.sendCursorPos
  split
  · exact hA
  · exact ⟨hA.w_lt, hA.h_lt, hA.shadow_length, hA.shm_length, hA.format⟩

/-- What `send_partial_update` does to the connection. -/
theorem sendPartialUpdate_spec {c : Connection} (hA : Announced c) (r : Rect) :
    ∃ shm m, sendPartialUpdate c r
        = some ({ c with shm := shm, seq := c.seq + 1 }, m) ∧
      Progress c c.shm
        (fun p => p ∈ r ∧ p ∈ Rect.full c.w.toNat c.h.toNat) shm := by
  obtain ⟨shm, hblit, hP⟩ := blitRectToShm_spec hA r
  refine ⟨shm, updateFrame { c with shm := shm, seq := c.seq + 1 } r, ?_, hP⟩
  unfold sendPartialUpdate
  rw [hblit]
  rfl

end Rmcast.Vncast
