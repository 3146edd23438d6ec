import Rmcast.Qtfb.Server

/-!
# Chunking

How the bytes of a connection are cut into deliveries makes no difference to
the server, as long as it accepts the HELLOs. Between deliveries the event
loop may send what the server wrote (`flush`); that decides whether closing
takes effect at once or later, so the outcomes are compared after a last
flush.

Qt turns the socket's read notifier off in `disconnectFromServer`: a closing
socket may still hold a reply to send, but no `readyRead` comes of what
arrives then. The bytes left unread are part of the outcome here, so a
delivery to a closing socket adds to them and does nothing else.
-/

namespace Rmcast.Qtfb

open Framing

/-! ## §1  A connection over time -/

/-- The event loop has sent what was unsent. -/
def Session.flush (s : Session) : Session :=
  match s.server.socket with
  | none => s
  | some k =>
      if k.closing then
        { s with
          server := { s.server with socket := none }
          log := s.log ++ [.emitted .clientDisconnected] }
      else
        { s with server := { s.server with socket := some ⟨false, false⟩ } }

/-- The socket is connected and not closing. -/
def Session.IsOpen (s : Session) : Prop :=
  ∃ unsent, s.server.socket = some ⟨unsent, false⟩

instance (s : Session) : Decidable s.IsOpen :=
  match h : s.server.socket with
  | none => isFalse fun ⟨u, hu⟩ => by rw [h] at hu; cases hu
  | some ⟨u, true⟩ => isFalse fun ⟨v, hv⟩ => by rw [h] at hv; cases hv
  | some ⟨u, false⟩ => isTrue ⟨u, h⟩

/-- The session and the bytes it has not read. -/
structure Channel where
  session : Session
  unread : List UInt8 := []
deriving DecidableEq, Repr

inductive Delivery where
  | bytes (chunk : List UInt8)
  | flush
deriving DecidableEq, Repr

/-- One delivery. `Happening.bytes` of `Rmcast.Qtfb.Gating` reads on a closing
socket too, and so has these runs among its own. -/
def deliver (clock : ℕ → ℤ) (c : Channel) : Delivery → Option Channel
  | .bytes chunk =>
      if c.session.IsOpen then do
        let (s, rest, _) ← onSocketReadyRead clock c.session (c.unread ++ chunk)
        return ⟨s, rest⟩
      else some ⟨c.session, c.unread ++ chunk⟩
  | .flush => some { c with session := c.session.flush }

def deliverAll (clock : ℕ → ℤ) (c : Channel) (es : List Delivery) :
    Option Channel :=
  es.foldlM (deliver clock) c

/-- All bytes of the deliveries. -/
def received (es : List Delivery) : List UInt8 :=
  es.flatMap fun
    | .bytes chunk => chunk
    | .flush => []

/-- The messages in a log. -/
def handledIn (log : List Act) : List Message :=
  log.filterMap fun
    | .handled m => some m
    | _ => none

/-- Every HELLO of the stream carries the accepted version. -/
def AcceptedHellos (b : List UInt8) : Prop :=
  ∀ ms rest v, b = encodeAll ms ++ rest → .hello v ∈ ms →
    v.clientVersion = VERSION

/-- `ms` is the longest run of complete messages at the front of the stream
`b`, up to the first Bye, and `closed` says whether the stream goes on with a
reason to close. -/
structure Parsed (b : List UInt8) (ms : List Message) (rest : List UInt8)
    (closed : Prop) : Prop where
  bytes : b = encodeAll ms ++ rest
  bye_last : ∀ m ∈ ms.dropLast, ∀ v, m ≠ .bye v
  longest : (∃ v, ms.getLast? = some (.bye v)) ∨ ∀ (m : Message) r, rest ≠ m.encode ++ r
  closed_iff : closed ↔ (∃ v, ms.getLast? = some (.bye v)) ∨
    front rest = .badMagic ∨ front rest = .badTag

/-! ## §2  One turn -/

theorem AcceptedHellos.of_append {b c : List UInt8}
    (h : AcceptedHellos (b ++ c)) : AcceptedHellos b := by
  intro ms rest v hb hv
  exact h ms (rest ++ c) v (by rw [hb, List.append_assoc]) hv

theorem AcceptedHellos.tail {m : Message} {b : List UInt8}
    (h : AcceptedHellos (m.encode ++ b)) : AcceptedHellos b := by
  intro ms rest v hb hv
  apply h (m :: ms) rest v
  · rw [encodeAll_cons, List.append_assoc, hb]
  · exact List.mem_cons_of_mem m hv

theorem AcceptedHellos.drop {ms : List Message} {b : List UInt8}
    (h : AcceptedHellos (encodeAll ms ++ b)) : AcceptedHellos b := by
  induction ms with
  | nil => exact h
  | cons m ms ih =>
      rw [encodeAll_cons, List.append_assoc] at h
      exact ih h.tail

theorem AcceptedHellos.head {v : HelloC2S} {b : List UInt8}
    (h : AcceptedHellos ((Message.hello v).encode ++ b)) :
    v.clientVersion = VERSION := by
  apply h [.hello v] b v
  · rw [encodeAll_cons, encodeAll_nil, List.append_nil]
  · exact List.mem_singleton.mpr rfl

theorem handledIn_append (l l' : List Act) :
    handledIn (l ++ l') = handledIn l ++ handledIn l' := by
  unfold handledIn
  rw [List.filterMap_append]

theorem handledIn_record (s : Session) (m : Message) (t : Server)
    (signals : List Signal) :
    handledIn (s.record m t signals).log = handledIn s.log ++ [m] := by
  have h : handledIn (signals.map Act.emitted) = [] := by
    induction signals with
    | nil => rfl
    | cons a as ih => exact ih
  unfold Session.record
  rw [handledIn_append]
  congr 1
  show m :: handledIn (signals.map Act.emitted) = [m]
  rw [h]

theorem handledIn_disconnect (s : Session) :
    handledIn s.disconnect.log = handledIn s.log := by
  unfold Session.disconnect
  cases s.server.socket with
  | none => rfl
  | some k =>
      simp only
      split
      · rw [handledIn_append]
        exact List.append_nil _
      · rw [handledIn_append]
        exact List.append_nil _

theorem handledIn_write (s : Session) (ack : HelloAckS2C) :
    handledIn (s.write ack).log = handledIn s.log := by
  unfold Session.write
  rw [handledIn_append]
  exact List.append_nil _

theorem disconnect_not_isOpen (s : Session) : ¬ s.disconnect.IsOpen := by
  rintro ⟨u, hu⟩
  unfold Session.disconnect at hu
  cases hs : s.server.socket with
  | none =>
      rw [hs] at hu
      simp only [hs] at hu
      cases hu
  | some k =>
      rw [hs] at hu
      simp only at hu
      split at hu
      · simp at hu
      · simp at hu

/-- A turn that takes an accepted message keeps the connection open. -/
theorem handle_take {clock : ℕ → ℤ} {s t : Session} {m : Message} {n : ℕ}
    (hopen : s.IsOpen) (hacc : ∀ v, m = .hello v → v.clientVersion = VERSION)
    (h : s.handle clock m = .take n t) :
    t.IsOpen ∧ handledIn t.log = handledIn s.log ++ [m] ∧ ∀ v, m ≠ .bye v := by
  obtain ⟨u, hu⟩ := hopen
  cases m with
  | hello v =>
      have hv := hacc v rfl
      simp only [Session.handle, handleHello, hv, if_true] at h
      rw [if_neg (by decide)] at h
      obtain ⟨-, rfl⟩ := Turn.take.inj h
      refine ⟨⟨true, ?_⟩, ?_, by simp⟩
      · simp only [Session.write, Session.record, hu, Option.map_some]
      · rw [handledIn_write, handledIn_record]
  | frame f =>
      simp only [Session.handle] at h
      obtain ⟨-, rfl⟩ := Turn.take.inj h
      refine ⟨⟨u, ?_⟩, ?_, by simp⟩
      · simp only [Session.record, handleFrame_socket, hu]
      · exact handledIn_record s (.frame f)
          (handleFrame s.server (clock s.frames) f).1
          (handleFrame s.server (clock s.frames) f).2
  | cursor c =>
      simp only [Session.handle] at h
      obtain ⟨-, rfl⟩ := Turn.take.inj h
      refine ⟨⟨u, ?_⟩, ?_, by simp⟩
      · simp only [Session.record, handleCursor_socket, hu]
      · exact handledIn_record _ _ _ _
  | bye v =>
      simp only [Session.handle] at h
      cases h

/-- What has been read, before the loop ends. -/
structure Reading (s : Session) (b : List UInt8) (t : Session)
    (rest : List UInt8) (ms : List Message) : Prop where
  isOpen : t.IsOpen
  accepted : AcceptedHellos rest
  handled : handledIn t.log = handledIn s.log ++ ms
  bytes : b = encodeAll ms ++ rest
  no_bye : ∀ m ∈ ms, ∀ v, m ≠ .bye v

theorem Reading.take {clock : ℕ → ℤ} {s t u : Session} {b rest : List UInt8}
    {ms : List Message} {n : ℕ} (h : Reading s b t rest ms)
    (hl : t.look clock rest = .take n u) :
    ∃ m, Reading s b u (rest.drop n) (ms ++ [m]) := by
  rcases look_cases clock t rest with ⟨h', -⟩ | ⟨-, h', -⟩ | ⟨-, m, r, -, hb, h'⟩
  · rw [h'] at hl
    cases hl
  · rw [h'] at hl
    cases hl
  · rw [h'] at hl
    have hacc := h.accepted
    rw [hb] at hacc
    obtain ⟨hopen, hlog, hbye⟩ := handle_take h.isOpen
      (by rintro v rfl; exact hacc.head) hl
    have hr : rest.drop n = r := by
      rw [handle_take_pos hl, hb, List.drop_left']
      rfl
    refine ⟨m, hopen, by rw [hr]; exact hacc.tail, ?_, ?_, ?_⟩
    · rw [hlog, h.handled, List.append_assoc]
    · rw [hr, encodeAll_append, List.append_assoc, h.bytes, hb, encodeAll_cons,
        encodeAll_nil, List.append_nil]
    · intro m' hm'
      rcases List.mem_append.mp hm' with hm' | hm'
      · exact h.no_bye m' hm'
      · rw [List.mem_singleton.mp hm']
        exact hbye

theorem Reading.no_last_bye {s t : Session} {b rest : List UInt8}
    {ms : List Message} (h : Reading s b t rest ms) :
    ¬ ∃ v, ms.getLast? = some (.bye v) := by
  rintro ⟨v, hv⟩
  exact h.no_bye _ (List.mem_of_getLast? hv) v rfl

/-- The loop waits: no message is complete. -/
theorem Reading.parsed_wait {clock : ℕ → ℤ} {s t : Session} {b rest : List UInt8}
    {ms : List Message} (h : Reading s b t rest ms) (hl : t.look clock rest = .wait) :
    Parsed b ms rest False := by
  have hshort : front rest = .short := by
    rcases look_cases clock t rest with ⟨-, h' | h'⟩ | ⟨-, h', -⟩ | ⟨-, m, q, -, hb, h'⟩
    · obtain ⟨u, hu⟩ := h.isOpen
      rw [hu] at h'
      cases h'
    · exact h'
    · exact absurd (h'.symm.trans hl) (by simp)
    · have hwait := h'.symm.trans hl
      cases m <;> simp [Session.handle] at hwait
  refine ⟨h.bytes, fun m hm => h.no_bye m (List.dropLast_subset _ hm), Or.inr ?_, ?_⟩
  · rintro m q rfl
    rw [front_encode] at hshort
    cases hshort
  · rw [hshort]
    simp [h.no_last_bye]

/-- A bad header stays unread. -/
theorem Reading.parsed_bad {s t : Session} {b rest : List UInt8} {ms : List Message}
    (h : Reading s b t rest ms) (hf : front rest = .badMagic ∨ front rest = .badTag) :
    Parsed b ms rest True := by
  refine ⟨h.bytes, fun m hm => h.no_bye m (List.dropLast_subset _ hm), Or.inr ?_, ?_⟩
  · rintro m q rfl
    rw [front_encode] at hf
    rcases hf with hf | hf <;> cases hf
  · simp [hf]

/-- A Bye is read, and nothing behind it. -/
theorem Reading.parsed_bye {s t : Session} {b rest : List UInt8} {ms : List Message}
    {v : Bye} (h : Reading s b t ((Message.bye v).encode ++ rest) ms) :
    Parsed b (ms ++ [.bye v]) rest True := by
  have hlast : (ms ++ [Message.bye v]).getLast? = some (.bye v) := by simp
  refine ⟨?_, ?_, Or.inl ⟨v, hlast⟩, ?_⟩
  · rw [encodeAll_append, List.append_assoc, h.bytes, encodeAll_cons, encodeAll_nil,
      List.append_nil]
  · rw [List.dropLast_concat]
    exact h.no_bye
  · simp [hlast]

/-- **What the read loop does** on an open connection whose HELLOs it
accepts. -/
theorem drain_parsed {clock : ℕ → ℤ} {s : Session} {b : List UInt8}
    {r : Session × List UInt8 × Bool} {k : ℕ} (hopen : s.IsOpen)
    (hacc : AcceptedHellos b) (h : (reader clock).drain k s b = some r) :
    (r.2.2 = true ↔ ¬ r.1.IsOpen) ∧
    ∃ ms, handledIn r.1.log = handledIn s.log ++ ms ∧
      Parsed b ms r.2.1 (r.2.2 = true) := by
  apply Reader.drain_inv (R := reader clock)
    (fun t rest => ∃ ms, Reading s b t rest ms)
    (fun t rest stopped => (stopped = true ↔ ¬ t.IsOpen) ∧
      ∃ ms, handledIn t.log = handledIn s.log ++ ms ∧
        Parsed b ms rest (stopped = true)) ?_ ?_ ?_
    ⟨[], hopen, hacc, by simp, rfl, by simp⟩ h
  · rintro t rest ⟨ms, hR⟩ hl
    refine ⟨by simp [hR.isOpen], ms, hR.handled, ?_⟩
    simpa using hR.parsed_wait hl
  · rintro t rest n u ⟨ms, hR⟩ hl
    obtain ⟨m, hR'⟩ := hR.take hl
    exact ⟨_, hR'⟩
  · rintro t rest n u ⟨ms, hR⟩ hl
    rcases look_cases clock t rest with ⟨h', -⟩ | ⟨-, h', hf⟩ | ⟨-, m, q, hf, hb, h'⟩
    · exact absurd (h'.symm.trans hl) (by simp)
    · obtain ⟨rfl, rfl⟩ := Turn.stop.inj (h'.symm.trans hl)
      refine ⟨by simp [disconnect_not_isOpen], ms, ?_, ?_⟩
      · rw [handledIn_disconnect, hR.handled]
      · simpa using hR.parsed_bad hf
    -- only a Bye stops the loop behind a message
    · obtain ⟨v, rfl, rfl, rfl⟩ := handle_stop_eq (h'.symm.trans hl)
      rw [hb] at hR
      refine ⟨by simp [disconnect_not_isOpen], ms ++ [.bye v], ?_, ?_⟩
      · rw [handledIn_disconnect, handledIn_record, hR.handled, List.append_assoc]
      · rw [hb, List.drop_left' rfl]
        simpa using hR.parsed_bye

/-! ## §3  Flushing between deliveries -/

/-- The session with another socket. -/
def Session.withSocket (s : Session) (k : Socket) : Session :=
  { s with server := { s.server with socket := some k } }

theorem Session.IsOpen.eq_withSocket {s : Session} (h : s.IsOpen) :
    ∃ u, s = s.withSocket ⟨u, false⟩ := by
  obtain ⟨u, hu⟩ := h
  refine ⟨u, ?_⟩
  unfold withSocket
  rw [← hu]

theorem flush_withSocket (s : Session) (u : Bool) :
    (s.withSocket ⟨u, false⟩).flush = s.withSocket ⟨false, false⟩ := rfl

theorem withSocket_isOpen (s : Session) (u : Bool) :
    (s.withSocket ⟨u, false⟩).IsOpen := ⟨u, rfl⟩

theorem flush_flush (s : Session) : s.flush.flush = s.flush := by
  unfold Session.flush
  cases hs : s.server.socket with
  | none => simp only [hs]
  | some k =>
      simp only
      split_ifs with h
      · rfl
      · rfl

theorem handledIn_flush (s : Session) :
    handledIn s.flush.log = handledIn s.log := by
  unfold Session.flush
  cases s.server.socket with
  | none => rfl
  | some k =>
      simp only
      split
      · rw [handledIn_append]
        exact List.append_nil _
      · rfl

theorem flush_isOpen {s : Session} : s.flush.IsOpen ↔ s.IsOpen := by
  unfold Session.flush
  cases hs : s.server.socket with
  | none => simp only
  | some k =>
      obtain ⟨u, c⟩ := k
      cases c with
      | true =>
          constructor
          · rintro ⟨v, hv⟩
            cases hv
          · rintro ⟨v, hv⟩
            rw [hs] at hv
            cases hv
      | false => exact iff_of_true ⟨false, rfl⟩ ⟨u, hs⟩

theorem handleFrame_withSocket (s : Server) (k : Option Socket) (now : ℤ)
    (m : Frame) :
    handleFrame { s with socket := k } now m
      = ({ (handleFrame s now m).1 with socket := k },
        (handleFrame s now m).2) := by
  unfold handleFrame emitFrame
  simp only
  split_ifs <;> rfl

/-- Whether something is unsent has no part in what a message does. -/
theorem handle_withSocket (clock : ℕ → ℤ) (s : Session) {m : Message}
    (hacc : ∀ v, m = .hello v → v.clientVersion = VERSION)
    (hbye : ∀ v, m ≠ .bye v) :
    ∃ t : Session, ∀ u, ∃ u', (s.withSocket ⟨u, false⟩).handle clock m
      = .take m.encode.length (t.withSocket ⟨u', false⟩) := by
  cases m with
  | hello v =>
      have hv := hacc v rfl
      refine ⟨(s.record (.hello v) (handleHello s.server v).1
        (handleHello s.server v).2.2).write (handleHello s.server v).2.1,
        fun u => ⟨true, ?_⟩⟩
      simp only [Session.handle]
      rw [if_neg]
      · rfl
      · simp only [handleHello, hv, if_true]
        decide
  | frame f =>
      refine ⟨{ s.record (.frame f) (handleFrame s.server (clock s.frames) f).1
        (handleFrame s.server (clock s.frames) f).2 with
        frames := s.frames + 1 }, fun u => ⟨u, ?_⟩⟩
      simp only [Session.handle, Session.withSocket, handleFrame_withSocket]
      rfl
  | cursor c =>
      exact ⟨s.record (.cursor c) (handleCursor s.server c).1
        (handleCursor s.server c).2, fun u => ⟨u, rfl⟩⟩
  | bye v => exact absurd rfl (hbye v)

theorem disconnect_flush (s : Session) (u : Bool) :
    (s.withSocket ⟨u, false⟩).disconnect.flush
      = { s with
          server := { s.server with socket := none }
          log := s.log ++ [.closed, .emitted .clientDisconnected] } := by
  cases u with
  | true =>
      show Session.mk _ ((s.log ++ [.closed]) ++ _) _ = _
      rw [List.append_assoc]
      rfl
  | false => rfl

theorem look_open {clock : ℕ → ℤ} {s : Session} {b : List UInt8}
    (h : s.IsOpen) : s.look clock b = match front b with
      | .short => .wait
      | .badMagic | .badTag => .stop 0 s.disconnect
      | .message m => s.handle clock m := by
  obtain ⟨u, hu⟩ := h
  unfold Session.look
  rw [hu]
  rfl

/-- Two open sessions that differ in what is unsent. -/
def Alike (s t : Session) (b : List UInt8) : Prop :=
  AcceptedHellos b ∧ ∃ (x : Session) (u v : Bool),
    s = x.withSocket ⟨u, false⟩ ∧ t = x.withSocket ⟨v, false⟩

theorem alike_of_flush {s t : Session} {b : List UInt8} (hs : s.IsOpen)
    (ht : t.IsOpen) (h : s.flush = t.flush) (hacc : AcceptedHellos b) :
    Alike s t b := by
  obtain ⟨u, hu⟩ := hs.eq_withSocket
  obtain ⟨v, hv⟩ := ht.eq_withSocket
  rw [hu, hv, flush_withSocket, flush_withSocket] at h
  refine ⟨hacc, s, u, v, hu, ?_⟩
  calc t = (t.withSocket ⟨false, false⟩).withSocket ⟨v, false⟩ := hv
    _ = (s.withSocket ⟨false, false⟩).withSocket ⟨v, false⟩ := by rw [h]
    _ = s.withSocket ⟨v, false⟩ := rfl

theorem Alike.isOpen {s t : Session} {b : List UInt8} (h : Alike s t b) :
    s.IsOpen ∧ t.IsOpen ∧ s.flush = t.flush := by
  obtain ⟨-, x, u, v, rfl, rfl⟩ := h
  exact ⟨withSocket_isOpen x u, withSocket_isOpen x v, rfl⟩

/-- **Step lemma.** Alike sessions take the same turn. -/
theorem look_alike (clock : ℕ → ℤ) (s t : Session) (b : List UInt8)
    (h : Alike s t b) :
    Reader.Turn.Rel Alike (fun s t _ => s.flush = t.flush) b
      ((reader clock).look s b) ((reader clock).look t b) := by
  obtain ⟨hacc, x, u, v, rfl, rfl⟩ := h
  have hlook : ∀ s, (reader clock).look s b = s.look clock b := fun _ => rfl
  rw [hlook, hlook, look_open (withSocket_isOpen x u),
    look_open (withSocket_isOpen x v)]
  cases hf : front b with
  | short => exact .wait
  | badMagic =>
      exact .stop ((disconnect_flush x u).trans (disconnect_flush x v).symm)
  | badTag =>
      exact .stop ((disconnect_flush x u).trans (disconnect_flush x v).symm)
  | message m =>
      obtain ⟨rest, rfl⟩ := encode_of_front hf
      by_cases hbye : ∃ w, m = .bye w
      · obtain ⟨w, rfl⟩ := hbye
        exact .stop ((disconnect_flush (x.record (.bye w) x.server []) u).trans
          (disconnect_flush (x.record (.bye w) x.server []) v).symm)
      · obtain ⟨y, hy⟩ := handle_withSocket clock x
          (m := m) (by rintro w rfl; exact hacc.head)
          (fun w hw => hbye ⟨w, hw⟩)
        obtain ⟨u', hu'⟩ := hy u
        obtain ⟨v', hv'⟩ := hy v
        simp only [hu', hv']
        refine .take ⟨?_, y, u', v', rfl, rfl⟩
        rw [List.drop_left' rfl]
        exact hacc.tail

/-! ## §4  Any cut of the stream -/

/-- After the bytes `D`: the channel is where one loop over all of `D` ends,
exactly if nothing was flushed (`exact`), else up to a flush. -/
structure Chunked (clock : ℕ → ℤ) (s : Session) (exact : Prop)
    (D : List UInt8) (c : Channel) (r : Session × List UInt8 × Bool) : Prop where
  drained : ∃ k, (reader clock).drain k s D = some r
  unread : c.unread = r.2.1
  flush : c.session.flush = r.1.flush
  stopped : r.2.2 = true ↔ ¬ c.session.IsOpen
  same : exact → c.session = r.1

theorem deliver_open {clock : ℕ → ℤ} {c : Channel} {chunk : List UInt8}
    {r : Session × List UInt8 × Bool} (hopen : c.session.IsOpen)
    (h : onSocketReadyRead clock c.session (c.unread ++ chunk) = some r) :
    deliver clock c (.bytes chunk) = some ⟨r.1, r.2.1⟩ := by
  simp only [deliver, if_pos hopen, h]
  rfl

theorem deliver_closed {clock : ℕ → ℤ} {c : Channel} {chunk : List UInt8}
    (hclosed : ¬ c.session.IsOpen) :
    deliver clock c (.bytes chunk) = some ⟨c.session, c.unread ++ chunk⟩ := by
  simp only [deliver, if_neg hclosed]

theorem Chunked.bytes {clock : ℕ → ℤ} {s : Session} {exact : Prop}
    {D chunk : List UInt8} {c : Channel} {r : Session × List UInt8 × Bool}
    (hs : s.IsOpen) (h : Chunked clock s exact D c r)
    (hacc : AcceptedHellos (D ++ chunk)) :
    ∃ c' r', deliver clock c (.bytes chunk) = some c' ∧
      Chunked clock s exact (D ++ chunk) c' r' := by
  obtain ⟨k, hk⟩ := h.drained
  obtain ⟨t, rest, stopped⟩ := r
  obtain ⟨hstop, ms, -, hP⟩ := drain_parsed hs hacc.of_append hk
  by_cases hopen : c.session.IsOpen
  · -- the loop waited, and goes on with the new bytes
    have hno : stopped = false := by
      have := h.stopped
      simp only [hopen, not_true, iff_false, Bool.not_eq_true] at this
      exact this
    subst hno
    have htopen : t.IsOpen := by
      simpa using hstop
    have hacc' : AcceptedHellos (rest ++ chunk) := by
      rw [hP.bytes, List.append_assoc] at hacc
      exact hacc.drop
    obtain ⟨r', hr'⟩ := onSocketReadyRead_total clock t (rest ++ chunk)
    have hall := Reader.drain_append hk hr'
    obtain ⟨t', ht', hwait, hstop'⟩ := Reader.drain_sim (look_alike clock)
      (alike_of_flush htopen hopen h.flush.symm hacc') hr'
    have hP' := (drain_parsed hopen hacc' ht').1
    have hd : onSocketReadyRead clock c.session (c.unread ++ chunk)
        = some (t', r'.2.1, r'.2.2) := by
      rw [h.unread]
      exact ht'
    refine ⟨⟨t', r'.2.1⟩, r', deliver_open hopen hd, ⟨_, hall⟩, rfl, ?_, hP', ?_⟩
    · cases hb : r'.2.2 with
      | false => exact (hwait hb).isOpen.2.2.symm
      | true => exact (hstop' hb).symm
    · intro he
      have hsame : c.session = t := h.same he
      rw [hsame] at ht'
      exact congrArg Prod.fst (Reader.drain_unique ht' hr')
  · have hyes : stopped = true := h.stopped.mpr hopen
    subst hyes
    refine ⟨_, (t, rest ++ chunk, true), deliver_closed hopen,
      ⟨k, Reader.drain_append_stopped hk⟩, ?_, h.flush, h.stopped, h.same⟩
    simp only [h.unread]

theorem Chunked.deliverAll {clock : ℕ → ℤ} {s : Session} {exact : Prop}
    (hs : s.IsOpen) {es : List Delivery} (hex : exact → .flush ∉ es) :
    ∀ {D : List UInt8} {c : Channel} {r : Session × List UInt8 × Bool},
      Chunked clock s exact D c r → AcceptedHellos (D ++ received es) →
      ∃ c' r', deliverAll clock c es = some c' ∧
        Chunked clock s exact (D ++ received es) c' r' := by
  induction es with
  | nil =>
      intro D c r h _
      exact ⟨c, r, rfl, by rw [received, List.flatMap_nil, List.append_nil]; exact h⟩
  | cons e es ih =>
      intro D c r h hacc
      have hex' : exact → .flush ∉ es := fun he hm =>
        hex he (List.mem_cons_of_mem e hm)
      cases e with
      | bytes chunk =>
          have e1 : D ++ received (.bytes chunk :: es)
              = D ++ chunk ++ received es := by
            rw [List.append_assoc]
            rfl
          rw [e1] at hacc ⊢
          obtain ⟨c', r', hd, h'⟩ := h.bytes hs hacc.of_append
          obtain ⟨c'', r'', hd', h''⟩ := ih hex' h' hacc
          refine ⟨c'', r'', ?_, h''⟩
          unfold Qtfb.deliverAll at hd' ⊢
          rw [List.foldlM_cons, hd]
          exact hd'
      | flush =>
          have hne : ¬ exact := fun he => hex he List.mem_cons_self
          have h' : Chunked clock s exact D
              { c with session := c.session.flush } r :=
            ⟨h.drained, h.unread, by rw [flush_flush]; exact h.flush,
              by rw [flush_isOpen]; exact h.stopped, fun he => absurd he hne⟩
          exact ih hex' h' hacc

theorem Chunked.start (clock : ℕ → ℤ) {s : Session} (hs : s.IsOpen)
    (exact : Prop) : Chunked clock s exact [] ⟨s, []⟩ (s, [], false) := by
  refine ⟨⟨1, ?_⟩, rfl, rfl, by simp [hs], fun _ => rfl⟩
  apply Reader.drain_wait
  have hl : s.look clock [] = .wait := by
    rw [look_open hs, front_nil]
  exact hl

/-- Deliveries from a connection on that has nothing unread. -/
theorem deliverAll_chunked (clock : ℕ → ℤ) {s : Session} (hs : s.IsOpen)
    (es : List Delivery) (hacc : AcceptedHellos (received es)) :
    ∃ c r, deliverAll clock ⟨s, []⟩ es = some c ∧
      Chunked clock s (.flush ∉ es) (received es) c r :=
  Chunked.deliverAll hs id (Chunked.start clock hs _) hacc

/-- **Chunking is irrelevant.** However the stream is cut, and whenever the
event loop flushes in between, no delivery fails to terminate, and after a
last flush the session (with the log of messages, replies, signals and
closings) and the unread bytes are those of a single delivery; without
flushes they are so at once. The messages handled are the longest run of
complete messages before the first reason to close. -/
theorem chunking_irrelevant (clock : ℕ → ℤ) {s : Session} (hs : s.IsOpen)
    (es : List Delivery) (hacc : AcceptedHellos (received es)) :
    ∃ c d, deliverAll clock ⟨s, []⟩ es = some c ∧
      deliver clock ⟨s, []⟩ (.bytes (received es)) = some d ∧
      c.session.flush = d.session.flush ∧ c.unread = d.unread ∧
      (c.session.IsOpen ↔ d.session.IsOpen) ∧ (.flush ∉ es → c = d) ∧
      ∃ ms, handledIn c.session.log = handledIn s.log ++ ms ∧
        Parsed (received es) ms c.unread (¬ c.session.IsOpen) := by
  obtain ⟨c, r, hc, hC⟩ := deliverAll_chunked clock hs es hacc
  obtain ⟨d, r', hd, hD⟩ :=
    (Chunked.start clock hs True).bytes hs hacc
  rw [List.nil_append] at hD
  obtain ⟨k, hk⟩ := hC.drained
  obtain ⟨k', hk'⟩ := hD.drained
  obtain rfl := Reader.drain_unique hk hk'
  obtain ⟨hstop, ms, hms, hP⟩ := drain_parsed hs hacc hk
  have hlog : handledIn c.session.log = handledIn r.1.log := by
    rw [← handledIn_flush, hC.flush, handledIn_flush]
  refine ⟨c, d, hc, hd, hC.flush.trans hD.flush.symm,
    hC.unread.trans hD.unread.symm, ?_, ?_, ms, by rw [hlog, hms], ?_⟩
  · have h2 := hC.stopped.symm.trans hD.stopped
    exact not_iff_not.mp h2
  · intro hno
    have h3 : c.session = d.session := (hC.same hno).trans (hD.same trivial).symm
    have h4 : c.unread = d.unread := hC.unread.trans hD.unread.symm
    cases c
    cases d
    simp only at h3 h4
    rw [h3, h4]
  · rw [hC.unread]
    exact ⟨hP.bytes, hP.bye_last, hP.longest, hC.stopped.symm.trans hP.closed_iff⟩

/-- What begins with no message has no HELLO to accept. -/
theorem acceptedHellos_of_no_message {ms : List Message} {rest : List UInt8}
    (hrest : ∀ m, front rest ≠ .message m)
    (h : ∀ v, .hello v ∈ ms → v.clientVersion = VERSION) :
    AcceptedHellos (encodeAll ms ++ rest) := by
  intro ms' rest' v hb hv
  rcases encodeAll_prefix hb with ⟨l, rfl⟩ | hp
  · rw [encodeAll_append, List.append_assoc] at hb
    have hr := List.append_cancel_left hb
    cases l with
    | nil => exact h v (by simpa using hv)
    | cons m l =>
        rw [encodeAll_cons, List.append_assoc] at hr
        apply absurd _ (hrest m)
        rw [hr, front_encode]
  · exact h v (hp.subset hv)

theorem acceptedHellos_encodeAll {ms : List Message} {rest : List UInt8}
    (hrest : front rest = .short)
    (h : ∀ v, .hello v ∈ ms → v.clientVersion = VERSION) :
    AcceptedHellos (encodeAll ms ++ rest) := by
  apply acceptedHellos_of_no_message _ h
  intro m hm
  rw [hrest] at hm
  cases hm

/-- A HELLO, a frame, and the beginning of another one. -/
def opening : List Message :=
  [.hello ⟨1, 0, 0, 30⟩, .frame ⟨1, 0, 0, 16, 16, 2⟩]

/-- The same in three pieces, the first of which ends within a header. -/
def pieces : List Delivery :=
  [.bytes ((encodeAll opening).take 5),
   .bytes (((encodeAll opening).drop 5).take 30), .flush,
   .bytes ((encodeAll opening).drop 35 ++ [0x31, 0x4B])]

/-- A new connection to a server for a 4×4 grayscale picture. -/
def fresh : Session where
  server :=
    { socket := some ⟨false, false⟩
      w := 4, h := 4, stride := 4, bpp := 8, format := 2, shmName := [] }

theorem chunking_irrelevant_pieces :
    ∃ c d, deliverAll (fun _ => 0) ⟨fresh, []⟩ pieces = some c ∧
      deliver (fun _ => 0) ⟨fresh, []⟩ (.bytes (received pieces)) = some d ∧
      c.session.flush = d.session.flush ∧ c.unread = d.unread ∧
      (c.session.IsOpen ↔ d.session.IsOpen) ∧ (.flush ∉ pieces → c = d) ∧
      ∃ ms, handledIn c.session.log = handledIn fresh.log ++ ms ∧
        Parsed (received pieces) ms c.unread (¬ c.session.IsOpen) := by
  have hb : received pieces = encodeAll opening ++ [0x31, 0x4B] := by
    decide +kernel
  apply chunking_irrelevant _ ⟨false, rfl⟩
  rw [hb]
  apply acceptedHellos_encodeAll (by decide +kernel)
  intro v hv
  simp only [opening, List.mem_cons, Message.hello.injEq, reduceCtorEq,
    List.not_mem_nil, or_false] at hv
  rw [hv]
  rfl

end Rmcast.Qtfb
