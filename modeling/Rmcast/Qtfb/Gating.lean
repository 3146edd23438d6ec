import Rmcast.Lib.Loop
import Rmcast.Qtfb.Chunking

/-!
# Handshake gating

Over successive clients, the server's log is checked by a monitor: frames and
cursor positions may show only once a HELLO has been accepted on the same
connection, and no message may show anything once the server has decided to
close. The server has no such state of its own. It lives up to the monitor
when its clients do not send a frame or a cursor position ahead of an
accepted HELLO, nor anything but a Bye behind the message that makes the
server close.

A socket that is closing counts as readable here until `disconnected`, so bytes
may still be delivered to it. Qt delivers none (see `Rmcast.Qtfb.Chunking`): its
runs are those here in which none are, and what is shown of all runs holds of
them. The bytes behind a rejected HELLO that break the monitor come in one
delivery with it, so there the choice does not matter.
-/

namespace Rmcast.Qtfb

open Framing Loop

/-! ## §1  The server among its clients -/

/-- What happens to the server. -/
inductive Happening where
  /-- `newConnection`. -/
  | connect
  /-- Bytes arrive on the client's socket, and `readyRead` is emitted. -/
  | bytes (chunk : List UInt8)
  /-- The event loop sends what is unsent. -/
  | flush
  /-- The client hangs up: `disconnected`. -/
  | hangup
deriving DecidableEq, Repr

/-- `onNewConnection`: a second client is refused. -/
def onNewConnection (c : Channel) : Channel :=
  match c.session.server.socket with
  | some _ => c
  | none =>
      { session :=
          { c.session with
            server := { c.session.server with socket := some ⟨false, false⟩ }
            log := c.session.log ++ [.emitted .clientConnected] }
        unread := [] }

/-- `onSocketDisconnected`. -/
def onSocketDisconnected (c : Channel) : Channel :=
  match c.session.server.socket with
  | none => c
  | some _ =>
      { c with session :=
          { c.session with
            server := { c.session.server with socket := none }
            log := c.session.log ++ [.emitted .clientDisconnected] } }

def happen (clock : ℕ → ℤ) (c : Channel) : Happening → Option Channel
  | .connect => some (onNewConnection c)
  | .bytes chunk => do
      let (s, rest, _) ← onSocketReadyRead clock c.session (c.unread ++ chunk)
      return ⟨s, rest⟩
  | .flush => some { c with session := c.session.flush }
  | .hangup => some (onSocketDisconnected c)

/-! ## §2  The monitor -/

/-- What the log says about the current connection: whether a HELLO has been
accepted, whether the server has decided to close, and which message it
handled last. -/
structure Phase where
  greeted : Bool := false
  closed : Bool := false
  cause : Option Tag := none
deriving DecidableEq, Repr

namespace Phase

def next (p : Phase) : Act → Phase
  | .emitted .clientConnected => {}
  | .emitted _ => p
  | .handled m => { p with cause := some m.tag }
  | .wrote ack => { p with greeted := p.greeted || decide (ack.accepted = 1) }
  | .closed => { p with closed := true }

/-- The effects of a message come before a decision to close, and those of a
frame or a cursor position after an accepted HELLO. -/
def Allows (p : Phase) : Act → Prop
  | .wrote _ => p.closed = false
  | .emitted (.frameReady ..) | .emitted .lastFrameModeChanged
  | .emitted .cursorChanged =>
      p.closed = false ∧
        (p.cause = some .Frame ∨ p.cause = some .CursorC2S → p.greeted = true)
  | _ => True

instance (p : Phase) : ∀ a, Decidable (p.Allows a)
  | .wrote _ => inferInstanceAs (Decidable (_ = _))
  | .emitted (.frameReady ..) | .emitted .lastFrameModeChanged
  | .emitted .cursorChanged => inferInstanceAs (Decidable (_ ∧ (_ → _)))
  | .emitted .clientConnected | .emitted .clientDisconnected
  | .handled _ | .closed => inferInstanceAs (Decidable True)

end Phase

/-- The phase at the end of a log. -/
def phase (log : List Act) : Phase := log.foldl Phase.next {}

/-- The monitor, from a phase on. -/
def GatedFrom : Phase → List Act → Prop
  | _, [] => True
  | p, a :: log => p.Allows a ∧ GatedFrom (p.next a) log

instance GatedFrom.decide : ∀ p log, Decidable (GatedFrom p log)
  | _, [] => isTrue trivial
  | p, a :: log =>
      have := decide (p.next a) log
      inferInstanceAs (Decidable (p.Allows a ∧ GatedFrom (p.next a) log))

/-- **The log shows a gated server.** -/
def Gated (log : List Act) : Prop := GatedFrom {} log

instance (log : List Act) : Decidable (Gated log) :=
  inferInstanceAs (Decidable (GatedFrom {} log))

/-! ## §3  The clients -/

/-- In the stream `b` a frame or a cursor position comes only after an
accepted HELLO, unless the connection is already `greeted`, and nothing but
a Bye comes after a rejected one. What comes after a Bye does not count: the
read loop returns there. -/
def Orderly (greeted : Bool) (b : List UInt8) : Prop :=
  ∀ ms (m : Message) rest, b = encodeAll ms ++ (m.encode ++ rest) →
    (∀ v, .bye v ∉ ms) →
    (m.tag = .Frame ∨ m.tag = .CursorC2S →
      greeted = true ∨ ∃ v, .hello v ∈ ms ∧ v.clientVersion = VERSION) ∧
    (m.tag ≠ .Bye → ∀ v, .hello v ∈ ms → v.clientVersion = VERSION)

/-- What a client may have in the buffer when `readyRead` is emitted. -/
def WellBehaved (s : Session) (b : List UInt8) : Prop :=
  ∀ k, s.server.socket = some k →
    if k.closing then ∀ (m : Message) rest, b = m.encode ++ rest → m.tag = .Bye
    else Orderly (phase s.log).greeted b

/-- The condition on what happens. -/
def Admitted (c : Channel) : Happening → Prop
  | .bytes chunk => WellBehaved c.session (c.unread ++ chunk)
  | .connect | .flush | .hangup => True

/-! ## §4  One turn of the read loop -/

theorem phase_append (log log' : List Act) :
    phase (log ++ log') = log'.foldl Phase.next (phase log) :=
  List.foldl_append

theorem gatedFrom_append {p : Phase} {log log' : List Act} :
    GatedFrom p (log ++ log') ↔
      GatedFrom p log ∧ GatedFrom (log.foldl Phase.next p) log' := by
  induction log generalizing p with
  | nil => exact ⟨fun h => ⟨trivial, h⟩, fun h => h.2⟩
  | cons a log ih =>
      show (_ ∧ GatedFrom _ (log ++ log')) ↔ (_ ∧ GatedFrom _ log) ∧ _
      rw [ih, and_assoc]
      rfl

/-- The monitor's phase agrees with the socket. -/
structure InStep (s : Session) : Prop where
  gated : Gated s.log
  closing : ∀ k, s.server.socket = some k → k.closing = (phase s.log).closed

/-- The signals a message can cause. -/
def OfMessage (signals : List Signal) : Prop :=
  .clientConnected ∉ signals

theorem handleFrame_ofMessage (s : Server) (now : ℤ) (m : Frame) :
    OfMessage (handleFrame s now m).2 := by
  unfold OfMessage handleFrame emitFrame
  split_ifs <;> simp

theorem handleCursor_ofMessage (s : Server) (m : CursorC2S) :
    OfMessage (handleCursor s m).2 := by
  unfold OfMessage handleCursor
  simp only
  split_ifs <;> simp

/-- Signals leave the phase as it is, and an open and greeted connection may
show them. -/
theorem gatedFrom_signals {p : Phase} {signals : List Signal}
    (hs : OfMessage signals) :
    (signals.map Act.emitted).foldl Phase.next p = p ∧
      (p.closed = false →
        (p.cause = some .Frame ∨ p.cause = some .CursorC2S → p.greeted = true) →
        GatedFrom p (signals.map Act.emitted)) := by
  induction signals with
  | nil => exact ⟨rfl, fun _ _ => trivial⟩
  | cons a as ih =>
      obtain ⟨ha, has⟩ : a ≠ .clientConnected ∧ OfMessage as :=
        ⟨fun he => hs (by rw [he]; exact List.mem_cons_self),
         fun hm => hs (List.mem_cons_of_mem a hm)⟩
      obtain ⟨ih1, ih2⟩ := ih has
      have hnext : p.next (.emitted a) = p := by
        cases a with
        | clientConnected => exact absurd rfl ha
        | _ => rfl
      constructor
      · rw [List.map_cons, List.foldl_cons, hnext, ih1]
      · intro hc hg
        refine ⟨?_, by rw [hnext]; exact ih2 hc hg⟩
        cases a with
        | frameReady _ _ _ _ _ => exact ⟨hc, hg⟩
        | lastFrameModeChanged => exact ⟨hc, hg⟩
        | cursorChanged => exact ⟨hc, hg⟩
        | clientConnected => trivial
        | clientDisconnected => trivial

/-- A message read on an open connection, greeted if it has to be. -/
theorem InStep.record {s : Session} {m : Message} (t : Server)
    {signals : List Signal} (h : InStep s) (hs : OfMessage signals)
    (hc : (phase s.log).closed = false)
    (hg : m.tag = .Frame ∨ m.tag = .CursorC2S → (phase s.log).greeted = true) :
    Gated (s.record m t signals).log ∧
      phase (s.record m t signals).log
        = { phase s.log with cause := some m.tag } := by
  obtain ⟨h1, h2⟩ := gatedFrom_signals (p := (phase s.log).next (.handled m)) hs
  constructor
  · refine gatedFrom_append.mpr ⟨h.gated, trivial, h2 hc ?_⟩
    intro hcause
    apply hg
    simpa [Phase.next] using hcause
  · unfold Session.record
    rw [phase_append, List.foldl_cons, h1]
    rfl

/-- Closing is always allowed, and shows in the socket. -/
theorem InStep.disconnect {s : Session} (h : Gated s.log) :
    InStep s.disconnect ∧ ∀ k, s.disconnect.server.socket = some k →
      k.closing = true := by
  unfold Session.disconnect
  cases hs : s.server.socket with
  | none =>
      refine ⟨⟨h, ?_⟩, ?_⟩
      all_goals
        intro k hk
        rw [hs] at hk
        cases hk
  | some k =>
      simp only
      split_ifs with hu
      · refine ⟨⟨gatedFrom_append.mpr ⟨h, trivial, trivial⟩, ?_⟩, ?_⟩
        · intro k' hk'
          obtain rfl := Option.some.inj hk'
          rw [phase_append]
          rfl
        · intro k' hk'
          obtain rfl := Option.some.inj hk'
          rfl
      · refine ⟨⟨gatedFrom_append.mpr ⟨h, trivial, trivial, trivial⟩, ?_⟩, ?_⟩
        all_goals
          intro k' hk'
          cases hk'

theorem Orderly.tail {g g' : Bool} {m : Message} {b : List UInt8}
    (h : Orderly g (m.encode ++ b)) (hbye : ∀ v, m ≠ .bye v)
    (hg : g = true ∨ (∃ v, m = .hello v ∧ v.clientVersion = VERSION) →
      g' = true) : Orderly g' b := by
  intro ms m' rest hb hms
  obtain ⟨h1, h2⟩ := h (m :: ms) m' rest
    (by rw [encodeAll_cons, List.append_assoc, hb])
    (fun v hv => by
      rcases List.mem_cons.mp hv with hv | hv
      · exact hbye v hv.symm
      · exact hms v hv)
  refine ⟨fun ht => ?_, fun ht v hv => h2 ht v (List.mem_cons_of_mem m hv)⟩
  rcases h1 ht with h3 | ⟨v, hv, hver⟩
  · exact Or.inl (hg (Or.inl h3))
  · rcases List.mem_cons.mp hv with hv | hv
    · exact Or.inl (hg (Or.inr ⟨v, hv.symm, hver⟩))
    · exact Or.inr ⟨v, hv, hver⟩

/-- Only a Bye comes behind a rejected HELLO. -/
theorem Orderly.rejected {g : Bool} {v : HelloC2S} {b : List UInt8}
    (h : Orderly g ((Message.hello v).encode ++ b))
    (hv : v.clientVersion ≠ VERSION) :
    ∀ (m : Message) rest, b = m.encode ++ rest → m.tag = .Bye := by
  rintro m rest rfl
  by_contra hm
  apply hv
  refine (h [.hello v] m rest ?_ ?_).2 hm v (List.mem_singleton.mpr rfl)
  · rw [encodeAll_cons, encodeAll_nil, List.append_nil]
  · intro w hw
    cases List.mem_singleton.mp hw

/-- A message other than `Bye` finds the connection open. -/
theorem WellBehaved.open_of_take {clock : ℕ → ℤ} {s t : Session} {m : Message}
    {b : List UInt8} {n : ℕ} {k : Socket} (hk : s.server.socket = some k)
    (hb : WellBehaved s (m.encode ++ b)) (ht : s.handle clock m = .take n t) :
    k.closing = false ∧ Orderly (phase s.log).greeted (m.encode ++ b) := by
  have hw := hb k hk
  have hopen : k.closing = false := by
    by_contra hne
    rw [if_pos (by simpa using hne)] at hw
    have hbye := hw m b rfl
    -- a Bye ends the loop
    cases m with
    | bye v =>
        simp only [Session.handle] at ht
        cases ht
    | hello _ | frame _ | cursor _ => cases hbye
  rw [if_neg (by simp [hopen])] at hw
  exact ⟨hopen, hw⟩

/-- A frame or a cursor position leaves the connection as it was. -/
theorem InStep.take_plain {s : Session} {m : Message} {b : List UInt8} {k : Socket}
    (h : InStep s) (hopen : k.closing = false) (hc : (phase s.log).closed = false)
    (hord : Orderly (phase s.log).greeted (m.encode ++ b))
    (hg : m.tag = .Frame ∨ m.tag = .CursorC2S → (phase s.log).greeted = true)
    (hhello : ∀ v, m ≠ .hello v) (hbye : ∀ v, m ≠ .bye v)
    (u : Server) (hu : u.socket = some k) {signals : List Signal}
    (hs : OfMessage signals) (frames : ℕ) :
    InStep { s.record m u signals with frames := frames } ∧
      WellBehaved { s.record m u signals with frames := frames } b := by
  obtain ⟨hgate, hph⟩ := h.record u hs hc hg
  refine ⟨⟨hgate, ?_⟩, ?_⟩
  · intro k' hk'
    obtain rfl := Option.some.inj (hu.symm.trans hk')
    simp only [hph, hc, hopen]
  · intro k' hk'
    obtain rfl := Option.some.inj (hu.symm.trans hk')
    rw [if_neg (by simp [hopen])]
    apply hord.tail hbye
    rintro (hgr | ⟨v, hv, -⟩)
    · simp only [hph, hgr]
    · exact absurd hv (hhello v)

/-- A HELLO is answered; one of another version is the last message. -/
theorem InStep.take_hello {clock : ℕ → ℤ} {s t : Session} {v : HelloC2S}
    {b : List UInt8} {n : ℕ} {k : Socket} (h : InStep s) (hk : s.server.socket = some k)
    (hopen : k.closing = false) (hc : (phase s.log).closed = false)
    (hord : Orderly (phase s.log).greeted ((Message.hello v).encode ++ b))
    (ht : s.handle clock (.hello v) = .take n t) : InStep t ∧ WellBehaved t b := by
  simp only [Session.handle] at ht
  obtain ⟨-, rfl⟩ := Turn.take.inj ht
  have hsig : OfMessage (handleHello s.server v).2.2 := by
    simp [OfMessage, handleHello]
  obtain ⟨hgate, hph⟩ := h.record (m := .hello v) (handleHello s.server v).1 hsig hc (by
    rintro (htag | htag) <;> cases htag)
  -- the reply
  have hgate' : Gated ((s.record (.hello v) (handleHello s.server v).1
      (handleHello s.server v).2.2).write (handleHello s.server v).2.1).log := by
    refine gatedFrom_append.mpr ⟨hgate, ?_, trivial⟩
    show (phase _).closed = false
    rw [hph]
    exact hc
  by_cases hv : v.clientVersion = VERSION
  · have hack : (handleHello s.server v).2.1.accepted = 1 := if_pos hv
    rw [hack, if_neg (by decide)]
    have hph' : phase ((s.record (.hello v) (handleHello s.server v).1
        (handleHello s.server v).2.2).write (handleHello s.server v).2.1).log
        = ⟨true, false, some .HelloC2S⟩ := by
      unfold Session.write
      rw [phase_append, hph]
      simp [Phase.next, hack, hc, Message.tag]
    have hsock : ((s.record (.hello v) (handleHello s.server v).1
        (handleHello s.server v).2.2).write
          (handleHello s.server v).2.1).server.socket
        = some { k with unsent := true } := by
      simp only [Session.write, Session.record, handleHello_socket, hk,
        Option.map_some]
    refine ⟨⟨hgate', ?_⟩, ?_⟩
    · intro k' hk'
      obtain rfl := Option.some.inj (hsock.symm.trans hk')
      rw [hph']
      exact hopen
    · intro k' hk'
      obtain rfl := Option.some.inj (hsock.symm.trans hk')
      rw [if_neg (by simp [hopen]), hph']
      exact hord.tail (by simp) (fun _ => rfl)
  -- rejected: the socket is closing, and only a Bye may follow
  · have hack : (handleHello s.server v).2.1.accepted = 0 := if_neg hv
    rw [hack, if_pos rfl]
    obtain ⟨hin, hclosing⟩ := InStep.disconnect hgate'
    refine ⟨hin, fun k' hk' => ?_⟩
    rw [if_pos (hclosing k' hk')]
    exact hord.rejected hv

/-- **Step lemma**: a message of a well-behaved client. -/
theorem InStep.take {clock : ℕ → ℤ} {s t : Session} {m : Message}
    {b : List UInt8} {n : ℕ} {k : Socket} (h : InStep s)
    (hk : s.server.socket = some k) (hb : WellBehaved s (m.encode ++ b))
    (ht : s.handle clock m = .take n t) : InStep t ∧ WellBehaved t b := by
  obtain ⟨hopen, hord⟩ := hb.open_of_take hk ht
  have hc : (phase s.log).closed = false := by
    rw [← h.closing k hk]
    exact hopen
  have hg : m.tag = .Frame ∨ m.tag = .CursorC2S →
      (phase s.log).greeted = true := by
    intro htag
    rcases (hord [] m b rfl (by simp)).1 htag with hgr | ⟨v, hv, -⟩
    · exact hgr
    · cases hv
  cases m with
  | frame f =>
      simp only [Session.handle] at ht
      obtain ⟨-, rfl⟩ := Turn.take.inj ht
      exact h.take_plain hopen hc hord hg (by simp) (by simp) _
        ((handleFrame_socket _ _ _).trans hk) (handleFrame_ofMessage _ _ _) _
  | cursor c =>
      simp only [Session.handle] at ht
      obtain ⟨-, rfl⟩ := Turn.take.inj ht
      exact h.take_plain hopen hc hord hg (by simp) (by simp) _
        ((handleCursor_socket _ _).trans hk) (handleCursor_ofMessage _ _) s.frames
  | bye v =>
      simp only [Session.handle] at ht
      cases ht
  | hello v => exact h.take_hello hk hopen hc hord ht

/-- **The read loop** of a well-behaved client. -/
theorem InStep.drain {clock : ℕ → ℤ} {s : Session} {b : List UInt8}
    {r : Session × List UInt8 × Bool} {k : ℕ} (h : InStep s)
    (hb : WellBehaved s b) (hr : (reader clock).drain k s b = some r) :
    InStep r.1 := by
  apply Reader.drain_inv (R := reader clock)
    (fun t rest => InStep t ∧ WellBehaved t rest) (fun t _ _ => InStep t)
    ?_ ?_ ?_ ⟨h, hb⟩ hr
  · rintro t rest ⟨hI, -⟩ -
    exact hI
  · rintro t rest n u ⟨hI, hw⟩ hl
    rcases look_cases clock t rest with ⟨h', -⟩ | ⟨-, h', -⟩ | ⟨hs, m, q, -, hq, h'⟩
    · exact absurd (h'.symm.trans hl) (by simp)
    · exact absurd (h'.symm.trans hl) (by simp)
    · have ht := h'.symm.trans hl
      obtain ⟨k, hk⟩ := Option.ne_none_iff_exists'.mp hs
      subst hq
      rw [handle_take_pos ht, List.drop_left' rfl]
      exact hI.take hk hw ht
  · rintro t rest n u ⟨hI, hw⟩ hl
    rcases look_cases clock t rest with ⟨h', -⟩ | ⟨-, h', -⟩ | ⟨hs, m, q, -, hq, h'⟩
    · exact absurd (h'.symm.trans hl) (by simp)
    · obtain ⟨-, rfl⟩ := Turn.stop.inj (h'.symm.trans hl)
      exact (InStep.disconnect hI.gated).1
    · obtain ⟨v, rfl, -, rfl⟩ := handle_stop_eq (h'.symm.trans hl)
      refine (InStep.disconnect ?_).1
      exact gatedFrom_append.mpr ⟨hI.gated, trivial, trivial⟩

/-! ## §5  Runs -/

theorem InStep.connect {c : Channel} (h : InStep c.session) :
    InStep (onNewConnection c).session := by
  unfold onNewConnection
  cases hs : c.session.server.socket with
  | some k => exact h
  | none =>
      refine ⟨gatedFrom_append.mpr ⟨h.gated, trivial, trivial⟩, ?_⟩
      intro k hk
      obtain rfl := Option.some.inj hk
      rw [phase_append]
      rfl

/-- A closing socket goes away with the flush, an open one stays. -/
theorem InStep.flush {s : Session} (h : InStep s) : InStep s.flush := by
  unfold Session.flush
  cases hs : s.server.socket with
  | none => exact h
  | some k =>
      simp only
      split_ifs with hc
      · refine ⟨gatedFrom_append.mpr ⟨h.gated, trivial, trivial⟩, ?_⟩
        intro k' hk'
        cases hk'
      · refine ⟨h.gated, fun k' hk' => ?_⟩
        obtain rfl := Option.some.inj hk'
        rw [← h.closing k hs]
        simpa using hc

theorem InStep.hangup {c : Channel} (h : InStep c.session) :
    InStep (onSocketDisconnected c).session := by
  unfold onSocketDisconnected
  cases hs : c.session.server.socket with
  | none => exact h
  | some k =>
      refine ⟨gatedFrom_append.mpr ⟨h.gated, trivial, trivial⟩, ?_⟩
      intro k' hk'
      cases hk'

/-- **Step lemma**: whatever happens, as long as clients behave. -/
theorem InStep.happen {clock : ℕ → ℤ} {c : Channel} {e : Happening}
    (h : InStep c.session) (he : Admitted c e) :
    ∃ c', happen clock c e = some c' ∧ InStep c'.session := by
  cases e with
  | connect => exact ⟨_, rfl, h.connect⟩
  | bytes chunk =>
      obtain ⟨r, hr⟩ := onSocketReadyRead_total clock c.session
        (c.unread ++ chunk)
      refine ⟨⟨r.1, r.2.1⟩, ?_, h.drain he hr⟩
      unfold Qtfb.happen
      simp only [hr]
      rfl
  | flush => exact ⟨_, rfl, h.flush⟩
  | hangup => exact ⟨_, rfl, h.hangup⟩

/-- **The server is gated** in every run with well-behaved clients that
starts without one, and in every state the run passes through. -/
theorem gated_run {clock : ℕ → ℤ} {c₀ : Channel} {es : List Happening}
    (hidle : c₀.session.server.socket = none) (hlog : c₀.session.log = [])
    (hes : EveryStep (happen clock) Admitted c₀ es) :
    ∀ pre, pre <+: es →
      ∃ c, run (happen clock) c₀ pre = some c ∧ Gated c.session.log := by
  rintro pre ⟨rest, rfl⟩
  have h0 : InStep c₀.session := by
    refine ⟨by rw [hlog]; trivial, fun k hk => ?_⟩
    rw [hidle] at hk
    cases hk
  obtain ⟨c, hrun, hI⟩ := run_inv (fun c => InStep c.session)
    (fun c e hI he => hI.happen he) h0 hes.of_append
  exact ⟨c, hrun, hI.gated⟩

/-- A server for a 4×4 grayscale picture, without a client. -/
def idle : Session where
  server :=
    { socket := none
      w := 4, h := 4, stride := 4, bpp := 8, format := 2, shmName := [] }

/-- The streams of a client that behaves. -/
theorem orderly_encodeAll {g : Bool} {ms : List Message}
    (h : ∀ pre m suf, ms = pre ++ m :: suf → (∀ v, .bye v ∉ pre) →
      (m.tag = .Frame ∨ m.tag = .CursorC2S →
        g = true ∨ ∃ v, .hello v ∈ pre ∧ v.clientVersion = VERSION) ∧
      (m.tag ≠ .Bye → ∀ v, .hello v ∈ pre → v.clientVersion = VERSION)) :
    Orderly g (encodeAll ms) := by
  intro pre m rest hb hpre
  have he : encodeAll ms = encodeAll (pre ++ [m]) ++ rest := by
    rw [hb, encodeAll_append, encodeAll_cons, encodeAll_nil, List.append_nil,
      List.append_assoc]
  obtain ⟨suf, hs⟩ := prefix_of_encodeAll he
  exact h pre m suf (by rw [← hs, List.append_assoc]; rfl) hpre

/-- A client that greets, draws once and leaves. -/
def visitor : List Message :=
  [.hello ⟨1, 0, 0, 0⟩, .frame ⟨1, 0, 0, 4, 4, 2⟩, .bye ⟨0⟩]

theorem visitor_orderly : Orderly false (encodeAll visitor) := by
  apply orderly_encodeAll
  intro pre m suf hms hbye
  rcases pre with - | ⟨a, - | ⟨b, - | ⟨d, pre⟩⟩⟩
  all_goals
    simp only [visitor, List.cons_append, List.nil_append, List.cons.injEq]
      at hms
  · obtain ⟨rfl, -⟩ := hms
    exact ⟨by simp [Message.tag], fun _ v hv => by cases hv⟩
  · obtain ⟨rfl, rfl, -⟩ := hms
    refine ⟨fun _ => Or.inr ⟨_, List.mem_cons_self, rfl⟩, fun _ v hv => ?_⟩
    obtain rfl := Message.hello.inj (List.mem_singleton.mp hv)
    rfl
  · obtain ⟨-, -, rfl, -⟩ := hms
    exact ⟨by simp [Message.tag], fun h => absurd rfl h⟩
  · obtain ⟨-, -, rfl, -⟩ := hms
    exact absurd (by simp) (hbye ⟨0⟩)

theorem gated_run_visitor :
    ∃ c, run (happen fun _ => 0) ⟨idle, []⟩
        [Happening.connect, .bytes (encodeAll visitor), .flush] = some c ∧
      Gated c.session.log := by
  have hvisit : EveryStep (happen fun _ => 0) Admitted ⟨idle, []⟩
      [.connect, .bytes (encodeAll visitor), .flush] := by
    refine ⟨trivial, ?_⟩
    intro c hc
    obtain rfl := Option.some.inj hc
    refine ⟨?_, fun _ _ => ⟨trivial, fun _ _ => trivial⟩⟩
    intro k hk
    obtain rfl := Option.some.inj hk
    exact visitor_orderly
  exact gated_run rfl rfl hvisit _ (List.prefix_refl _)

/-- A HELLO of version 2 with a frame right behind it: the HELLO is
rejected, but its reply is still unsent, so the loop goes on and announces
the frame. -/
def stranger : List Happening :=
  [.connect, .bytes (encodeAll [.hello ⟨2, 0, 0, 0⟩, .frame ⟨1, 0, 0, 4, 4, 2⟩])]

theorem stranger_announced :
    ¬ ∃ c, run (happen fun _ => 0) ⟨idle, []⟩ stranger = some c ∧
      Gated c.session.log := by
  rintro ⟨c, hrun, hg⟩
  have hbad : ∀ c ∈ run (happen fun _ => 0) ⟨idle, []⟩ stranger,
      ¬ Gated c.session.log := by
    decide +kernel
  exact hbad c hrun hg

end Rmcast.Qtfb
