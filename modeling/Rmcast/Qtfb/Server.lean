import Rmcast.Lib.Framing
import Rmcast.Qtfb.Stream

/-!
# The qtfb server

`Server::onSocketReadyRead` and the handlers it calls (`qtfb/server.cpp`).
The read loop is a reader of the message stream in the sense of the framing
library; what it does is kept in a log of messages handled, replies written,
signals emitted and connections closed.

Of Qt, a local socket is modelled by what the server can tell: whether bytes
it wrote are still unsent, and whether it is closing. `disconnectFromServer`
on a socket with unsent bytes only starts the closing; otherwise it emits
`disconnected` before it returns.
-/

namespace Rmcast.Qtfb

open Word Framing

/-! ## §1  State -/

/-- A connected `QLocalSocket`. -/
structure Socket where
  unsent : Bool
  closing : Bool
deriving DecidableEq, Repr

/-- `Server`. -/
structure Server where
  socket : Option Socket
  w : ℤ
  h : ℤ
  stride : ℤ
  bpp : UInt32
  format : UInt32
  /-- Latin-1 bytes of the shm name. -/
  shmName : List UInt8
  fpsCap : UInt32 := 0
  minPeriodMs : ℤ := 0
  lastEmitMs : ℤ := 0
  lastFrameMode : UInt32 := 0xFFFFFFFF
  cursorX : ℤ := -1
  cursorY : ℤ := -1
  cursorW : ℤ := 0
  cursorH : ℤ := 0
  cursorVisible : Bool := false
deriving DecidableEq, Repr

inductive Signal where
  | frameReady (seq : UInt32) (x y dw dh : ℤ)
  | lastFrameModeChanged
  | cursorChanged
  | clientConnected
  | clientDisconnected
deriving DecidableEq, Repr

/-- What the server does, in order. -/
inductive Act where
  | handled (m : Message)
  | wrote (ack : HelloAckS2C)
  | emitted (s : Signal)
  /-- `disconnectFromServer` was called on the client's socket. -/
  | closed
deriving DecidableEq, Repr

/-! ## §2  Handlers -/

/-- `handleHello`: the server, the reply, and the signals. -/
def handleHello (s : Server) (m : HelloC2S) :
    Server × HelloAckS2C × List Signal :=
  let nameLen := min s.shmName.length 64
  ({ s with
      fpsCap := m.requestedFps
      minPeriodMs :=
        if m.requestedFps = 0 then 0 else ((1000 / m.requestedFps.toNat : ℕ) : ℤ)
      lastEmitMs := 0
      cursorX := -1
      cursorY := -1
      cursorW := 0
      cursorH := 0
      cursorVisible := false
      lastFrameMode := 0xFFFFFFFF },
    { accepted := if m.clientVersion = VERSION then 1 else 0
      w := ofInt s.w
      h := ofInt s.h
      stride := ofInt s.stride
      bpp := s.bpp
      format := s.format
      shmNameLen := .ofNat nameLen
      shmName := s.shmName.take nameLen ++ List.replicate (64 - nameLen) 0 },
    [.cursorChanged, .lastFrameModeChanged])

/-- Small rectangles bypass the fps cap. -/
def smallRect (m : Frame) : Bool :=
  decide (m.w > 0 ∧ m.h > 0 ∧ m.w ≤ 256 ∧ m.h ≤ 256)

/-- The fps cap swallows the frame. -/
def throttled (s : Server) (now : ℤ) (m : Frame) : Bool :=
  !smallRect m && decide (s.fpsCap > 0 ∧ s.minPeriodMs > 0) &&
    decide (s.lastEmitMs ≠ 0 ∧ now - s.lastEmitMs < s.minPeriodMs)

/-- The two signals at the end of the `Frame` case. -/
def emitFrame (s : Server) (m : Frame) : Server × List Signal :=
  let ready := .frameReady m.seq (toInt m.x) (toInt m.y) (toInt m.w) (toInt m.h)
  if m.mode ≠ s.lastFrameMode then
    ({ s with lastFrameMode := m.mode }, [.lastFrameModeChanged, ready])
  else (s, [ready])

/-- The `Frame` case at clock reading `now`. -/
def handleFrame (s : Server) (now : ℤ) (m : Frame) : Server × List Signal :=
  if !smallRect m && decide (s.fpsCap > 0 ∧ s.minPeriodMs > 0) then
    -- the rectangle is kept nowhere
    if s.lastEmitMs ≠ 0 ∧ now - s.lastEmitMs < s.minPeriodMs then (s, [])
    else emitFrame { s with lastEmitMs := now } m
  else emitFrame s m

/-- The `CursorC2S` case. -/
def handleCursor (s : Server) (m : CursorC2S) : Server × List Signal :=
  let changed :=
    decide (toInt m.x ≠ s.cursorX ∨ toInt m.y ≠ s.cursorY ∨
      toInt m.w ≠ s.cursorW ∨ toInt m.h ≠ s.cursorH ∨
      decide (m.visible ≠ 0) ≠ s.cursorVisible)
  ({ s with
      cursorX := toInt m.x
      cursorY := toInt m.y
      cursorW := toInt m.w
      cursorH := toInt m.h
      cursorVisible := decide (m.visible ≠ 0) },
    if changed then [.cursorChanged] else [])

/-! ## §3  The read loop -/

/-- The server with its log and the number of `Frame` messages it has
read. -/
structure Session where
  server : Server
  log : List Act := []
  frames : ℕ := 0
deriving DecidableEq, Repr

namespace Session

/-- `m_socket->disconnectFromServer()`. -/
def disconnect (s : Session) : Session :=
  match s.server.socket with
  | none => s
  | some k =>
      if k.unsent then
        { s with
          server := { s.server with socket := some { k with closing := true } }
          log := s.log ++ [.closed] }
      else
        { s with
          server := { s.server with socket := none }
          log := s.log ++ [.closed, .emitted .clientDisconnected] }

/-- The reply leaves `m_socket->write` unsent. -/
def write (s : Session) (ack : HelloAckS2C) : Session :=
  { s with
    server := { s.server with
      socket := s.server.socket.map fun k => { k with unsent := true } }
    log := s.log ++ [.wrote ack] }

/-- A message has been read and `signals` were emitted for it. -/
def record (s : Session) (m : Message) (server : Server)
    (signals : List Signal) : Session :=
  { s with
    server := server
    log := s.log ++ .handled m :: signals.map .emitted }

/-- The case of the switch for a complete message; the `n`-th `Frame` is read
at the time `clock n`. -/
def handle (clock : ℕ → ℤ) (s : Session) (m : Message) : Turn Session :=
  match m with
  | .hello h =>
      let (server, ack, signals) := handleHello s.server h
      let t := (s.record m server signals).write ack
      -- a rejected HELLO closes the socket, and the loop goes on
      .take m.encode.length (if ack.accepted = 0 then t.disconnect else t)
  | .frame f =>
      let (server, signals) := handleFrame s.server (clock s.frames) f
      .take m.encode.length
        { s.record m server signals with frames := s.frames + 1 }
  | .cursor c =>
      let (server, signals) := handleCursor s.server c
      .take m.encode.length (s.record m server signals)
  -- closes and returns, as a bad header does
  | .bye _ => .stop m.encode.length (s.record m s.server []).disconnect

/-- One turn of the `while` loop. -/
def look (clock : ℕ → ℤ) (s : Session) (b : List UInt8) : Turn Session :=
  if s.server.socket.isNone then .wait
  else match front b with
  | .short => .wait
  | .badMagic | .badTag => .stop 0 s.disconnect
  | .message m => handle clock s m

end Session

theorem handle_take_pos {clock : ℕ → ℤ} {s t : Session} {m : Message} {n : ℕ}
    (h : s.handle clock m = .take n t) : n = m.encode.length := by
  cases m <;> simp only [Session.handle, Turn.take.injEq] at h
  · exact h.1.symm
  · exact h.1.symm
  · exact h.1.symm
  · cases h

theorem handle_stop_eq {clock : ℕ → ℤ} {s t : Session} {m : Message} {n : ℕ}
    (h : s.handle clock m = .stop n t) :
    ∃ v, m = .bye v ∧ n = m.encode.length ∧
      t = (s.record m s.server []).disconnect := by
  cases m with
  | bye v =>
      simp only [Session.handle, Turn.stop.injEq] at h
      exact ⟨v, rfl, h.1.symm, h.2.symm⟩
  | hello _ | frame _ | cursor _ => simp only [Session.handle] at h; cases h

/-- What a turn can do. -/
theorem look_cases (clock : ℕ → ℤ) (s : Session) (b : List UInt8) :
    (s.look clock b = .wait ∧ (s.server.socket = none ∨ front b = .short)) ∨
    (s.server.socket ≠ none ∧ s.look clock b = .stop 0 s.disconnect ∧
      (front b = .badMagic ∨ front b = .badTag)) ∨
    (s.server.socket ≠ none ∧ ∃ m rest, front b = .message m ∧
      b = m.encode ++ rest ∧ s.look clock b = s.handle clock m) := by
  unfold Session.look
  cases hs : s.server.socket with
  | none => exact Or.inl ⟨rfl, Or.inl rfl⟩
  | some k =>
      cases hf : front b with
      | short => exact Or.inl ⟨rfl, Or.inr rfl⟩
      | badMagic => exact Or.inr (Or.inl ⟨by simp, rfl, Or.inl rfl⟩)
      | badTag => exact Or.inr (Or.inl ⟨by simp, rfl, Or.inr rfl⟩)
      | message m =>
          obtain ⟨rest, hb⟩ := encode_of_front hf
          exact Or.inr (Or.inr ⟨by simp, m, rest, rfl, hb, rfl⟩)

theorem look_append {clock : ℕ → ℤ} {s : Session} {b : List UInt8}
    (c : List UInt8) (h : s.look clock b ≠ .wait) :
    s.look clock (b ++ c) = s.look clock b := by
  unfold Session.look at h ⊢
  cases hs : s.server.socket with
  | none =>
      rw [hs] at h
      exact absurd rfl h
  | some k =>
      rw [hs] at h
      have hf : front b ≠ .short := by
        intro hf
        rw [hf] at h
        exact h rfl
      rw [front_append c hf]

/-- `onSocketReadyRead` is a reader of the message stream. -/
def reader (clock : ℕ → ℤ) : Reader Session UInt8 where
  look := Session.look clock
  take_pos := by
    intro s b n t h
    rcases look_cases clock s b with ⟨h', -⟩ | ⟨-, h', -⟩ | ⟨-, m, rest, -, -, h'⟩
    · rw [h'] at h
      cases h
    · rw [h'] at h
      cases h
    · rw [h'] at h
      have hge := m.encode_length_ge
      rw [handle_take_pos h]
      unfold headerSize at hge
      omega
  take_le := by
    intro s b n t h
    rcases look_cases clock s b with ⟨h', -⟩ | ⟨-, h', -⟩ | ⟨-, m, rest, -, hb, h'⟩
    · rw [h'] at h
      cases h
    · rw [h'] at h
      cases h
    · rw [h'] at h
      rw [handle_take_pos h, hb, List.length_append]
      omega
  stop_le := by
    intro s b n t h
    rcases look_cases clock s b with ⟨h', -⟩ | ⟨-, h', -⟩ | ⟨-, m, rest, -, hb, h'⟩
    · rw [h'] at h
      cases h
    · rw [h'] at h
      obtain ⟨rfl, -⟩ := Turn.stop.inj h
      exact Nat.zero_le _
    · rw [h'] at h
      obtain ⟨v, -, hn, -⟩ := handle_stop_eq h
      rw [hn, hb, List.length_append]
      omega
  take_append := by
    intro s b n t c h
    rw [look_append c (by rw [h]; simp), h]
  stop_append := by
    intro s b n t c h
    rw [look_append c (by rw [h]; simp), h]

/-- `onSocketReadyRead` on the bytes available: the session, the bytes left
unread, and whether the loop was left by a `return` after closing. -/
def onSocketReadyRead (clock : ℕ → ℤ) (s : Session) (b : List UInt8) :
    Option (Session × List UInt8 × Bool) :=
  (reader clock).drain (b.length + 1) s b

/-- Every call terminates. -/
theorem onSocketReadyRead_total (clock : ℕ → ℤ) (s : Session) (b : List UInt8) :
    ∃ r, onSocketReadyRead clock s b = some r :=
  Reader.drain_total (Nat.lt_succ_self _) s

/-! ## §4  The handlers, one lemma each -/

/-- The cap swallows a frame without a trace. -/
theorem handleFrame_throttled {s : Server} {now : ℤ} {m : Frame}
    (h : throttled s now m) : handleFrame s now m = (s, []) := by
  unfold throttled at h
  rw [Bool.and_eq_true, decide_eq_true_iff] at h
  unfold handleFrame
  rw [if_pos h.1, if_pos h.2]

/-- Any other frame is announced. -/
theorem handleFrame_emits {s : Server} {now : ℤ} {m : Frame}
    (h : throttled s now m = false) :
    ∃ t pre, handleFrame s now m = (t, pre ++ [.frameReady m.seq (toInt m.x)
        (toInt m.y) (toInt m.w) (toInt m.h)]) ∧
      (pre = [] ∨ pre = [.lastFrameModeChanged]) := by
  have key : ∀ s, ∃ t pre, emitFrame s m = (t, pre ++ [.frameReady m.seq
      (toInt m.x) (toInt m.y) (toInt m.w) (toInt m.h)]) ∧
      (pre = [] ∨ pre = [.lastFrameModeChanged]) := by
    intro s
    unfold emitFrame
    by_cases hm : m.mode ≠ s.lastFrameMode
    · exact ⟨_, [.lastFrameModeChanged], by rw [if_pos hm]; rfl, Or.inr rfl⟩
    · exact ⟨_, [], by rw [if_neg hm]; rfl, Or.inl rfl⟩
  unfold handleFrame
  by_cases hc : (!smallRect m && decide (s.fpsCap > 0 ∧ s.minPeriodMs > 0)) = true
  · rw [if_pos hc]
    by_cases hl : s.lastEmitMs ≠ 0 ∧ now - s.lastEmitMs < s.minPeriodMs
    · unfold throttled at h
      rw [hc, decide_eq_true hl] at h
      cases h
    · rw [if_neg hl]
      exact key _
  · rw [if_neg hc]
    exact key _

theorem handleFrame_socket (s : Server) (now : ℤ) (m : Frame) :
    (handleFrame s now m).1.socket = s.socket := by
  unfold handleFrame emitFrame
  split_ifs <;> rfl

theorem handleCursor_socket (s : Server) (m : CursorC2S) :
    (handleCursor s m).1.socket = s.socket := rfl

theorem handleHello_socket (s : Server) (m : HelloC2S) :
    (handleHello s m).1.socket = s.socket := rfl

end Rmcast.Qtfb
