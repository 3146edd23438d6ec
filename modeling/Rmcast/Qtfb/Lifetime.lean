import Rmcast.Qtfb.Gating

/-!
# The lifetime of the client's socket

The handlers of the server once more, with every `m_socket->` as an access that
fails where the pointer is null. `disconnectFromServer` is where the pointer can
change under its caller: with nothing left to send it emits `disconnected`
before it returns, and `onSocketDisconnected` clears `m_socket`.

The read loop and the handlers tolerate that, so they do what their models
without a pointer do (`look_eq`). `stop` does not: it goes through `m_socket`
again behind the call, without the test that `onSocketDisconnected` makes.
-/

namespace Rmcast.Qtfb.Lifetime

open Framing Loop

/-! ## §1  Through the pointer -/

/-- `m_socket->`. -/
def deref (s : Session) : Option Socket := s.server.socket

/-- `m_socket.clear()`. -/
def clear (s : Session) : Session :=
  { s with server := { s.server with socket := none } }

/-- `m_socket->deleteLater()`. -/
def deleteLater (s : Session) : Option Session := do
  let _ ← deref s
  return s

def emit (s : Session) (a : Act) : Session := { s with log := s.log ++ [a] }

/-- `onSocketDisconnected`. -/
def onSocketDisconnected (s : Session) : Option Session := do
  let s ← if s.server.socket.isSome then deleteLater s else some s
  return emit (clear s) (.emitted .clientDisconnected)

/-- `m_socket->disconnectFromServer()`. -/
def disconnectFromServer (s : Session) : Option Session := do
  let k ← deref s
  if k.unsent then
    return emit { s with
      server := { s.server with socket := some { k with closing := true } } } .closed
  else
    -- `disconnected` is emitted before the call returns
    onSocketDisconnected (emit s .closed)

/-- `m_socket->write(..)`. -/
def write (s : Session) (ack : HelloAckS2C) : Option Session := do
  let k ← deref s
  return emit { s with
    server := { s.server with socket := some { k with unsent := true } } } (.wrote ack)

/-- `handleHello`. -/
def handleHello (s : Session) (h : HelloC2S) : Option Session := do
  let r := Qtfb.handleHello s.server h
  let t ← write (s.record (.hello h) r.1 r.2.2) r.2.1
  if r.2.1.accepted = 0 then disconnectFromServer t else some t

/-- The case of the switch for a complete message. -/
def handle (clock : ℕ → ℤ) (s : Session) (m : Message) : Option (Turn Session) :=
  match m with
  | .hello h => (handleHello s h).map (.take m.encode.length)
  | .frame _ | .cursor _ => some (s.handle clock m)
  | .bye _ => (disconnectFromServer (s.record m s.server [])).map (.stop m.encode.length)

/-- One turn of `onSocketReadyRead`: the bytes are looked at, and read, through
the pointer. -/
def look (clock : ℕ → ℤ) (s : Session) (b : List UInt8) : Option (Turn Session) :=
  if s.server.socket.isNone then some .wait
  else (deref s).bind fun _ => match front b with
  | .short => some .wait
  | .badMagic | .badTag => (disconnectFromServer s).map (.stop 0)
  | .message m => (deref s).bind fun _ => handle clock s m

/-- The loop of `onSocketReadyRead`. -/
def drain (clock : ℕ → ℤ) : ℕ → Session → List UInt8 →
    Option (Session × List UInt8 × Bool)
  | 0, _, _ => none
  | k + 1, s, b => do
      match ← look clock s b with
      | .wait => return (s, b, false)
      | .take n t => drain clock k t (b.drop n)
      | .stop n t => return (t, b.drop n, true)

def onSocketReadyRead (clock : ℕ → ℤ) (s : Session) (b : List UInt8) :
    Option (Session × List UInt8 × Bool) :=
  drain clock (b.length + 1) s b

/-- The event loop sends what is unsent; a closing socket is then disconnected. -/
def bytesWritten (s : Session) : Option Session :=
  match s.server.socket with
  | none => some s
  | some k =>
      if k.closing then onSocketDisconnected s
      else some { s with server := { s.server with socket := some ⟨false, false⟩ } }

/-- The first line of `stop`: nothing is tested behind the call. -/
def dropClient (s : Session) : Option Session := do
  let s ← disconnectFromServer s
  let s ← deleteLater s
  return clear s

/-! ## §2  The entry points -/

/-- The server object: its client, and whether `m_server` is set. -/
structure Host where
  channel : Channel
  listening : Bool
deriving DecidableEq, Repr

namespace Host

def session (h : Host) : Session := h.channel.session

def withSession (h : Host) (s : Session) : Host :=
  { h with channel := { h.channel with session := s } }

/-- `stop`. -/
def stop (h : Host) : Option Host := do
  let s ← if h.session.server.socket.isSome then dropClient h.session else some h.session
  return { h.withSession s with listening := false }

end Host

/-- What calls into the server. -/
inductive Entry where
  | newConnection
  | readyRead (chunk : List UInt8)
  | bytesWritten
  | disconnected
  | stop
  /-- The destructor, which calls `stop`. -/
  | destroy
deriving DecidableEq, Repr

/-- The calls that end the service. -/
def Entry.Ends : Entry → Prop
  | .stop | .destroy => True
  | _ => False

def step (clock : ℕ → ℤ) (h : Host) : Entry → Option Host
  | .newConnection =>
      some (if h.listening then { h with channel := onNewConnection h.channel } else h)
  | .readyRead chunk =>
      (onSocketReadyRead clock h.session (h.channel.unread ++ chunk)).map fun r =>
        { h with channel := ⟨r.1, r.2.1⟩ }
  | .bytesWritten => (bytesWritten h.session).map h.withSession
  | .disconnected => (onSocketDisconnected h.session).map h.withSession
  | .stop | .destroy => h.stop

/-! ## §3  What the handlers do -/

theorem deref_of_some {s : Session} {k : Socket} (hk : s.server.socket = some k) :
    deref s = some k := hk

theorem onSocketDisconnected_eq (s : Session) :
    onSocketDisconnected s = some (emit (clear s) (.emitted .clientDisconnected)) := by
  unfold onSocketDisconnected deleteLater deref
  cases s.server.socket with
  | none => rfl
  | some k => rfl

theorem bytesWritten_eq (s : Session) : bytesWritten s = some s.flush := by
  unfold bytesWritten Session.flush
  cases s.server.socket with
  | none => rfl
  | some k =>
      simp only [onSocketDisconnected_eq]
      split
      · rfl
      · rfl

/-- With a client, the call goes through. -/
theorem disconnectFromServer_eq {s : Session} {k : Socket}
    (hk : s.server.socket = some k) : disconnectFromServer s = some s.disconnect := by
  unfold disconnectFromServer Session.disconnect
  rw [deref_of_some hk, hk]
  simp only [Option.bind_eq_bind, Option.bind_some, onSocketDisconnected_eq]
  split
  · rfl
  · unfold emit clear
    rw [List.append_assoc]
    rfl

/-- `handleHello` is called with a client, and goes through it to the end. -/
theorem handleHello_eq (clock : ℕ → ℤ) {s : Session} {k : Socket}
    (hk : s.server.socket = some k) (h : HelloC2S) :
    ∃ t, handleHello s h = some t ∧
      s.handle clock (.hello h) = .take (Message.hello h).encode.length t := by
  have hk' : (s.record (.hello h) (Qtfb.handleHello s.server h).1
      (Qtfb.handleHello s.server h).2.2).server.socket = some k := by
    rw [← hk]
    exact handleHello_socket s.server h
  have hw : write (s.record (.hello h) (Qtfb.handleHello s.server h).1
        (Qtfb.handleHello s.server h).2.2) (Qtfb.handleHello s.server h).2.1
      = some ((s.record (.hello h) (Qtfb.handleHello s.server h).1
        (Qtfb.handleHello s.server h).2.2).write (Qtfb.handleHello s.server h).2.1) := by
    unfold write Session.write
    rw [deref_of_some hk', hk']
    rfl
  unfold handleHello Session.handle
  simp only [hw, Option.bind_eq_bind, Option.bind_some]
  split
  · have hd := disconnectFromServer_eq (s := (s.record (.hello h)
      (Qtfb.handleHello s.server h).1 (Qtfb.handleHello s.server h).2.2).write
        (Qtfb.handleHello s.server h).2.1) (k := { k with unsent := true }) (by
      show Option.map _ _ = _
      rw [hk']
      rfl)
    exact ⟨_, hd, rfl⟩
  · exact ⟨_, rfl, rfl⟩

theorem handle_eq {clock : ℕ → ℤ} {s : Session} {k : Socket}
    (hk : s.server.socket = some k) (m : Message) :
    handle clock s m = some (s.handle clock m) := by
  cases m with
  | hello h =>
      obtain ⟨t, ht, hs⟩ := handleHello_eq clock hk h
      show Option.map _ (handleHello s h) = _
      rw [ht, hs]
      rfl
  | frame f => rfl
  | cursor v => rfl
  | bye v =>
      have hk' : (s.record (.bye v) s.server []).server.socket = some k := hk
      show Option.map _ (disconnectFromServer _) = _
      rw [disconnectFromServer_eq hk']
      rfl

/-- **The read loop tolerates both outcomes** of a disconnect. -/
theorem look_eq (clock : ℕ → ℤ) (s : Session) (b : List UInt8) :
    look clock s b = some (s.look clock b) := by
  unfold look Session.look
  cases hk : s.server.socket with
  | none => rfl
  | some k =>
      rw [deref_of_some hk]
      cases front b with
      | short => rfl
      | badMagic =>
          rw [disconnectFromServer_eq hk]
          rfl
      | badTag =>
          rw [disconnectFromServer_eq hk]
          rfl
      | message m => exact handle_eq hk m

theorem drain_eq (clock : ℕ → ℤ) (n : ℕ) (s : Session) (b : List UInt8) :
    drain clock n s b = (reader clock).drain n s b := by
  induction n generalizing s b with
  | zero => rfl
  | succ n ih =>
      unfold drain Reader.drain
      have hl : (reader clock).look s b = s.look clock b := rfl
      rw [look_eq, hl, Option.bind_eq_bind, Option.bind_some]
      cases s.look clock b with
      | wait => rfl
      | take m t => exact ih t (b.drop m)
      | stop m t => rfl

/-- `onSocketReadyRead` does what its model without a pointer does. -/
theorem onSocketReadyRead_eq (clock : ℕ → ℤ) (s : Session) (b : List UInt8) :
    onSocketReadyRead clock s b = Qtfb.onSocketReadyRead clock s b :=
  drain_eq clock (b.length + 1) s b

/-! ## §4  Which calls are safe -/

/-- What `stop` ends with. -/
def Host.Stopped (h : Host) : Prop := h.session.server.socket = none ∧ h.listening = false

/-- The client's socket, if there is one, has something left to send. -/
def Host.Pending (h : Host) : Prop :=
  ∀ k, h.session.server.socket = some k → k.unsent = true

instance (h : Host) : Decidable h.Pending :=
  match hk : h.session.server.socket with
  | none => isTrue fun k hk' => by rw [hk] at hk'; cases hk'
  | some k => decidable_of_iff (k.unsent = true)
      ⟨fun hu k' hk' => by rw [hk] at hk'; cases hk'; exact hu, fun h => h k hk⟩

theorem dropClient_pending {s : Session} {k : Socket} (hk : s.server.socket = some k)
    (hu : k.unsent = true) : ∃ t, dropClient s = some t ∧ t.server.socket = none := by
  have hs : s.disconnect.server.socket = some { k with closing := true } := by
    unfold Session.disconnect
    rw [hk]
    simp only [hu, if_true]
  refine ⟨clear s.disconnect, ?_, rfl⟩
  unfold dropClient deleteLater
  rw [disconnectFromServer_eq hk, Option.bind_eq_bind, Option.bind_some, deref_of_some hs]
  rfl

/-- With nothing left to send, the pointer is null when it is used again. -/
theorem dropClient_idle {s : Session} {k : Socket} (hk : s.server.socket = some k)
    (hu : k.unsent = false) : dropClient s = none := by
  have hs : s.disconnect.server.socket = none := by
    unfold Session.disconnect
    rw [hk]
    simp only [hu, Bool.false_eq_true, if_false]
  unfold dropClient deleteLater deref
  rw [disconnectFromServer_eq hk, Option.bind_eq_bind, Option.bind_some, hs]
  rfl

/-- **When `stop` goes through**: it then ends with both pointers null. -/
theorem stop_iff (h : Host) : (∃ t, h.stop = some t ∧ t.Stopped) ↔ h.Pending := by
  unfold Host.stop
  cases hk : h.session.server.socket with
  | none =>
      refine ⟨fun _ k hk' => ?_, fun _ => ⟨_, rfl, hk, rfl⟩⟩
      cases hk.symm.trans hk'
  | some k =>
      cases hu : k.unsent with
      | false =>
          have hd := dropClient_idle hk hu
          constructor
          · rintro ⟨t, ht, -⟩
            simp only [Option.isSome_some, if_true, hd] at ht
            cases ht
          · intro hp
            have := (hp k hk).symm.trans hu
            cases this
      | true =>
          obtain ⟨s, hs, hnull⟩ := dropClient_pending hk hu
          refine ⟨fun _ k' hk' => ?_, fun _ => ⟨{ h.withSession s with listening := false }, ?_,
            hnull, rfl⟩⟩
          · cases hk.symm.trans hk'
            exact hu
          · simp only [Option.isSome_some, if_true, hs]
            rfl

/-- The condition on a call. -/
def Admitted (h : Host) (e : Entry) : Prop := e.Ends → h.Pending

/-- Every call goes through where it is admitted, and `stop` and the destructor
nowhere else. -/
theorem step_iff (clock : ℕ → ℤ) (h : Host) (e : Entry) :
    (∃ t, step clock h e = some t ∧ (e.Ends → t.Stopped)) ↔ Admitted h e := by
  have hplain : ∀ e : Entry, ¬ e.Ends → (∃ t, step clock h e = some t) →
      ((∃ t, step clock h e = some t ∧ (e.Ends → t.Stopped)) ↔ Admitted h e) := by
    rintro e he ⟨t, ht⟩
    exact ⟨fun _ hends => absurd hends he, fun _ => ⟨t, ht, fun hends => absurd hends he⟩⟩
  have hends : ∀ e : Entry, e.Ends → step clock h e = h.stop →
      ((∃ t, step clock h e = some t ∧ (e.Ends → t.Stopped)) ↔ Admitted h e) := by
    intro e he hstep
    rw [hstep]
    constructor
    · rintro ⟨t, ht, hs⟩ -
      exact (stop_iff h).mp ⟨t, ht, hs he⟩
    · intro hp
      obtain ⟨t, ht, hs⟩ := (stop_iff h).mpr (hp he)
      exact ⟨t, ht, fun _ => hs⟩
  cases e with
  | newConnection => exact hplain .newConnection id ⟨_, rfl⟩
  | readyRead chunk =>
      obtain ⟨r, hr⟩ := onSocketReadyRead_total clock h.session (h.channel.unread ++ chunk)
      refine hplain (.readyRead chunk) id ⟨{ h with channel := ⟨r.1, r.2.1⟩ }, ?_⟩
      show Option.map _ (onSocketReadyRead clock h.session (h.channel.unread ++ chunk)) = _
      rw [onSocketReadyRead_eq, hr]
      rfl
  | bytesWritten =>
      refine hplain .bytesWritten id ⟨h.withSession h.session.flush, ?_⟩
      show Option.map _ (bytesWritten h.session) = _
      rw [bytesWritten_eq]
      rfl
  | disconnected =>
      refine hplain .disconnected id
        ⟨h.withSession (emit (clear h.session) (.emitted .clientDisconnected)), ?_⟩
      show Option.map _ (onSocketDisconnected h.session) = _
      rw [onSocketDisconnected_eq]
      rfl
  | stop => exact hends .stop trivial rfl
  | destroy => exact hends .destroy trivial rfl

/-- In a run from `h`, no call goes through a null pointer, and behind `stop`
and the destructor both pointers are null. -/
def SafeRun (clock : ℕ → ℤ) (h : Host) (es : List Entry) : Prop :=
  ∀ pre e, pre ++ [e] <+: es →
    ∃ t, run (step clock) h (pre ++ [e]) = some t ∧ (e.Ends → t.Stopped)

/-- **Re-entrancy**: a run is safe exactly if `stop` and the destructor find no
client, or one whose socket has something left to send. -/
theorem reentrant_iff (clock : ℕ → ℤ) (h : Host) (es : List Entry) :
    SafeRun clock h es ↔ EveryStep (step clock) Admitted h es :=
  every_event_iff (step_iff clock)

/-- A server that has started, without a client. -/
def started (server : Server) : Host := ⟨⟨⟨{ server with socket := none }, [], 0⟩, []⟩, true⟩

/-- A client connects and says nothing, and the session is stopped. -/
theorem stop_idle_client :
    ¬ ∀ (clock : ℕ → ℤ) (server : Server) (es : List Entry),
      SafeRun clock (started server) es := by
  intro h
  obtain ⟨t, ht, -⟩ := h (fun _ => 0) ⟨none, 1, 1, 4, 32, 1, [], 0, 0, 0, 0, 0, 0, 0, 0, false⟩
    [.newConnection, .stop] [.newConnection] .stop (List.prefix_refl _)
  have hnone : run (step fun _ => 0)
      (started ⟨none, 1, 1, 4, 32, 1, [], 0, 0, 0, 0, 0, 0, 0, 0, false⟩)
      ([.newConnection] ++ [.stop]) = none := by decide
  cases hnone.symm.trans ht

end Rmcast.Qtfb.Lifetime
