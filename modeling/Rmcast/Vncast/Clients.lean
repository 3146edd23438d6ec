import Rmcast.Qtfb.TestClient
import Rmcast.Vncast.Delivery
import Rmcast.Vncast.Handshake

/-!
# Clients that share a server

Any number of vnsee processes, each with its `ClientConnection`, and the one
server they connect to, their steps in any order: `::send` takes some of the
bytes, some of them arrive, the event loop accepts the next connection or sends
a reply, `recv` returns part of it, a process dies. All processes map the same
picture.

The server keeps a second client out for as long as it has one, but it has no
say in who paints: a process paints from the accepted reply on. That no two
processes ever paint (`one_painter`) is therefore a fact about both sides. It
rests on the server never closing a connection that a client still uses, hence
on the stream being read as it was sent.
-/

namespace Rmcast.Vncast

open Word Framing Loop Session Qtfb
open Qtfb.TestClient (acksIn)

/-! ## §1  A process -/

/-- Where a process is. -/
inductive Stage where
  | unborn
  /-- In `send_all`, with what is left, and what comes behind it. -/
  | sendAll (rest : List UInt8) (next : Stage)
  /-- In `recv_all`, with what has come of the reply. -/
  | recvAll (buf : List UInt8)
  /-- Between two operations. -/
  | serving (conn : Connection)
  /-- The process is gone, and its socket closed. -/
  | gone
deriving Repr

/-- `send_all` ends when nothing is left. -/
def Stage.send (rest : List UInt8) (next : Stage) : Stage :=
  if rest = [] then next else .sendAll rest next

/-- The process has the picture mapped, and operations on it under way or to
come. -/
def Stage.Paints : Stage → Prop
  | .serving _ | .sendAll _ (.serving _) => True
  | _ => False

instance : DecidablePred Stage.Paints
  | .serving _ | .sendAll _ (.serving _) => isTrue trivial
  | .unborn | .recvAll _ | .gone | .sendAll _ .unborn | .sendAll _ (.sendAll _ _)
  | .sendAll _ (.recvAll _) | .sendAll _ .gone => isFalse id

/-- The process is in `handshake`. -/
def Stage.Greets : Stage → Prop
  | .recvAll _ | .sendAll _ (.recvAll _) => True
  | _ => False

instance : DecidablePred Stage.Greets
  | .recvAll _ | .sendAll _ (.recvAll _) => isTrue trivial
  | .unborn | .serving _ | .gone | .sendAll _ .unborn | .sendAll _ (.sendAll _ _)
  | .sendAll _ (.serving _) | .sendAll _ .gone => isFalse id

structure Process where
  stage : Stage := .unborn
  /-- Sent and not arrived. -/
  line : List UInt8 := []
  /-- Replies that have not been received. -/
  reply : List UInt8 := []
  /-- The messages given to `::send`, short of cursor positions of which it took
  nothing. No step reads them. -/
  said : List Message := []

/-- `sizeof(HelloAckS2C)`. -/
def ackSize : ℕ := 100

/-- The reply, once its header is right. -/
def helloAck (raw : List UInt8) : Option HelloAckS2C :=
  match readWords (raw.take 36) with
  | [magic, tag, accepted, w, h, stride, bpp, format, nameLen] =>
      if magic ≠ kMagic ∨ tag ≠ 0x02 then none
      else some ⟨accepted, w, h, stride, bpp, format, nameLen, raw.drop 36⟩
  | _ => none

/-- `m_shm_name.c_str()`. -/
def shmName (ack : HelloAckS2C) : List UInt8 :=
  (ack.shmName.take (min ack.shmNameLen.toNat 64)).takeWhile (· ≠ 0)

/-- `handshake` goes on as soon as the reply is complete; `none` of any of its
checks is an exception. -/
def recvd (env : Environ) (file : List UInt8 → Option (List UInt8)) (buf : List UInt8) :
    Stage :=
  if buf.length < ackSize then .recvAll buf
  else match (do
      let ack ← helloAck buf
      let shm ← file (shmName ack)
      handshake env ack shm) with
  | some conn => .serving conn
  | none => .gone

/-! ## §2  The processes and the server -/

structure World where
  proc : ℕ → Process := fun _ => {}
  /-- Connections that wait for `newConnection`. -/
  backlog : List ℕ := []
  /-- Whose connection was accepted last. -/
  peer : Option ℕ := none
  channel : Channel
  /-- Written by the server and not sent. -/
  outbox : List UInt8 := []
  /-- The shared memory. -/
  picture : List UInt8
  /-- The length of the log when the last connection was accepted. No step reads
  it. -/
  mark : ℕ := 0

namespace World

def server (w : World) : Server := w.channel.session.server

def set (w : World) (i : ℕ) (p : Process) : World :=
  { w with proc := Function.update w.proc i p }

/-- The connection is the server's. -/
def Holds (w : World) (i : ℕ) : Prop := w.peer = some i ∧ w.server.socket ≠ none

instance (w : World) (i : ℕ) : Decidable (w.Holds i) :=
  inferInstanceAs (Decidable (_ ∧ _))

/-- The server has not hung up on the process. -/
def Linked (w : World) (i : ℕ) : Prop := i ∈ w.backlog ∨ w.Holds i

instance (w : World) (i : ℕ) : Decidable (w.Linked i) :=
  inferInstanceAs (Decidable (_ ∨ _))

/-- `/dev/shm`, as far as the server's file goes. -/
def devShm (w : World) (name : List UInt8) : Option (List UInt8) :=
  if name = w.server.shmName then some w.picture else none

/-- Something happens to the server; what it writes goes to the outbox. -/
def happen (clock : ℕ → ℤ) (w : World) (h : Happening) : Option World := do
  let c ← Qtfb.happen clock w.channel h
  let acks := acksIn (c.session.log.drop w.channel.session.log.length)
  return { w with
    channel := c
    outbox := w.outbox ++ acks.flatMap HelloAckS2C.encode }

end World

inductive Move where
  /-- The constructor connects, and enters `handshake`. -/
  | launch (i : ℕ)
  /-- The event loop hands the next connection to the server. -/
  | newConnection
  /-- `::send` takes `k` bytes. -/
  | sent (i k : ℕ)
  /-- At most `n` bytes of the server's client arrive. -/
  | arrive (n : ℕ)
  | flush
  /-- `recv` returns at most `n` bytes. -/
  | recv (i n : ℕ)
  /-- vnsee paints into the shadow. -/
  | draw (i : ℕ) (shadow : List UInt8)
  | partialUpdate (i : ℕ) (r : Rect)
  | cursorPos (i : ℕ) (x y w h : ℤ) (visible : Bool) (answer : Option Answer)
  | destroy (i : ℕ)
  /-- The process ends in the middle: killed, or by an exception. -/
  | die (i : ℕ)
  /-- The server is told that its client has gone. -/
  | hangup
deriving DecidableEq

/-- The server takes a connection, or refuses it. -/
def accept (clock : ℕ → ℤ) (w : World) (i : ℕ) : Option World :=
  if w.server.socket = none then do
    let w' ← { w with outbox := [] }.happen clock .connect
    return { w' with peer := some i, mark := w.channel.session.log.length }
  else w.happen clock .connect

def step (clock : ℕ → ℤ) (env : ℕ → Environ) (w : World) : Move → Option World
  | .launch i =>
      match (w.proc i).stage with
      | .unborn =>
          let m := .hello (hello (fpsCap (env i)))
          some { w.set i { w.proc i with
              stage := .send (packed m) (.recvAll []), said := [m] } with
            backlog := w.backlog ++ [i] }
      | _ => none
  | .newConnection =>
      match w.backlog with
      | i :: rest => accept clock { w with backlog := rest } i
      | [] => none
  | .sent i k =>
      match (w.proc i).stage with
      | .sendAll rest next =>
          if w.Linked i ∧ 0 < k then
            some (w.set i { w.proc i with
              stage := .send (rest.drop k) next
              line := (w.proc i).line ++ rest.take k })
          else none
      | _ => none
  | .arrive n =>
      match w.peer with
      | some i =>
          let p := w.proc i
          if w.Holds i then
            (w.set i { p with line := p.line.drop n }).happen clock (.bytes (p.line.take n))
          else none
      | none => none
  | .flush => do
      let w' ← w.happen clock .flush
      match w.peer with
      | some i =>
          let p := w'.proc i
          if w.Holds i then
            return { w'.set i { p with reply := p.reply ++ w'.outbox } with outbox := [] }
          else return w'
      | none => return w'
  | .recv i n =>
      match (w.proc i).stage with
      | .recvAll buf =>
          let chunk := (w.proc i).reply.take (min n (ackSize - buf.length))
          -- `recv` blocks on nothing, and throws where the connection is closed
          if chunk = [] then none
          else some (w.set i { w.proc i with
            stage := recvd (env i) w.devShm (buf ++ chunk)
            reply := (w.proc i).reply.drop chunk.length })
      | _ => none
  | .draw i shadow =>
      match (w.proc i).stage with
      | .serving conn =>
          if shadow.length = conn.shadow.length then
            some (w.set i { w.proc i with stage := .serving { conn with shadow := shadow } })
          else none
      | _ => none
  | .partialUpdate i r =>
      match (w.proc i).stage with
      | .serving conn => do
          let n := conn.shm.length
          let (conn, m) ← sendPartialUpdate { conn with shm := w.picture.take n } r
          return { w.set i { w.proc i with
              stage := .send (packed (.frame m)) (.serving conn)
              said := (w.proc i).said ++ [.frame m] } with
            picture := conn.shm ++ w.picture.drop n }
      | _ => none
  | .cursorPos i x y cw ch visible answer =>
      match (w.proc i).stage with
      | .serving conn =>
          match sendCursorPos conn x y cw ch visible with
          | (conn, none) => some (w.set i { w.proc i with stage := .serving conn })
          | (conn, some m) =>
              let taken := sendDontWait answer (packed (.cursor m))
              if taken = [] then some (w.set i { w.proc i with stage := .serving conn })
              else if w.Linked i then
                some (w.set i { w.proc i with
                  stage := .serving conn
                  line := (w.proc i).line ++ taken
                  said := (w.proc i).said ++ [.cursor m] })
              else none
      | _ => none
  | .destroy i =>
      match (w.proc i).stage with
      | .serving _ =>
          some (w.set i { w.proc i with
            stage := .send (packed (.bye bye)) .gone
            said := (w.proc i).said ++ [.bye bye] })
      | _ => none
  | .die i =>
      match (w.proc i).stage with
      | .unborn => none
      | _ => some (w.set i { w.proc i with stage := .gone })
  | .hangup =>
      match w.peer with
      | some i =>
          match (w.proc i).stage with
          | .gone => w.happen clock .hangup
          | _ => none
      | none => none

/-- A server that has just been started, and processes that have not. -/
def World.start (s : Server) (file : List UInt8) : World :=
  { channel := ⟨{ server := s }, []⟩, picture := file }

/-- Of a cursor position `::send` takes everything or nothing. -/
def TakenWhole (_ : World) : Move → Prop
  | .cursorPos _ _ _ _ _ _ (some (.took k)) => k = 0 ∨ 28 ≤ k
  | _ => True

instance (w : World) : ∀ m, Decidable (TakenWhole w m)
  | .cursorPos _ _ _ _ _ _ (some (.took _)) => inferInstanceAs (Decidable (_ ∨ _))
  | .cursorPos _ _ _ _ _ _ (some .eintr) | .cursorPos _ _ _ _ _ _ none
  | .launch _ | .newConnection | .sent _ _ | .arrive _ | .flush | .recv _ _ | .draw _ _
  | .partialUpdate _ _ | .destroy _ | .die _ | .hangup => inferInstanceAs (Decidable True)

/-! ## §3  What the server makes of a client -/

/-- What a client has said: a HELLO first and only once, a Bye last. -/
structure Proper (ms : List Message) : Prop where
  opens : ∀ m ∈ ms.head?, ∃ v, m = .hello v ∧ v.clientVersion = VERSION
  once : ∀ m ∈ ms.tail, ∀ v, m ≠ .hello v
  last : ∀ m ∈ ms.dropLast, ∀ v, m ≠ .bye v

theorem Proper.nil : Proper [] := ⟨by simp, by simp, by simp⟩

theorem Proper.hello (cap : UInt32) : Proper [.hello (hello cap)] :=
  ⟨by simp [Vncast.hello, kVersion, VERSION], by simp, by simp⟩

/-- One message more, between the HELLO and the Bye. -/
theorem Proper.snoc {ms : List Message} (h : Proper ms) (hne : ms ≠ [])
    (hbye : ∀ v, .bye v ∉ ms) {m : Message} (hm : ∀ v, m ≠ .hello v) : Proper (ms ++ [m]) := by
  obtain ⟨a, ms, rfl⟩ := List.exists_cons_of_ne_nil hne
  refine ⟨h.opens, ?_, ?_⟩
  · intro m' hm'
    rcases List.mem_append.mp hm' with hm' | hm'
    · exact h.once m' hm'
    · rw [List.mem_singleton.mp hm']
      exact hm
  · intro m' hm' v hv
    rw [List.dropLast_concat] at hm'
    exact hbye v (hv ▸ hm')

/-- A message is a HELLO exactly where nothing comes before it. -/
theorem Proper.at {pre suf : List Message} {m : Message} (h : Proper (pre ++ m :: suf)) :
    (pre = [] → ∃ v, m = .hello v ∧ v.clientVersion = VERSION) ∧
    (pre ≠ [] → ∀ v, m ≠ .hello v) ∧ (suf ≠ [] → ∀ v, m ≠ .bye v) := by
  refine ⟨?_, ?_, ?_⟩
  · rintro rfl
    exact h.opens m rfl
  · intro hne
    obtain ⟨a, pre, rfl⟩ := List.exists_cons_of_ne_nil hne
    exact h.once m (by simp)
  · intro hne
    obtain ⟨a, suf, rfl⟩ := List.exists_cons_of_ne_nil hne
    refine h.last m ?_
    rw [List.dropLast_append_of_ne_nil (by simp)]
    simp

/-- The replies to what a client has said. -/
def replies (s : Server) (ms : List Message) : List HelloAckS2C :=
  ms.filterMap fun
    | .hello v => some (handleHello s v).2.1
    | _ => none

theorem replies_append (s : Server) (ms ms' : List Message) :
    replies s (ms ++ ms') = replies s ms ++ replies s ms' := by
  unfold replies
  rw [List.filterMap_append]

/-- The geometry and the name stay what they were at the start. -/
structure Steady (s₀ s : Server) : Prop where
  w : s.w = s₀.w
  h : s.h = s₀.h
  stride : s.stride = s₀.stride
  bpp : s.bpp = s₀.bpp
  format : s.format = s₀.format
  shmName : s.shmName = s₀.shmName

theorem Steady.ack {s₀ s : Server} (h : Steady s₀ s) (v : HelloC2S) :
    (handleHello s v).2.1 = (handleHello s₀ v).2.1 := by
  simp only [handleHello, h.w, h.h, h.stride, h.bpp, h.format, h.shmName]

theorem Steady.hello {s₀ s : Server} (h : Steady s₀ s) (v : HelloC2S) :
    Steady s₀ (handleHello s v).1 := ⟨h.1, h.2, h.3, h.4, h.5, h.6⟩

theorem Steady.frame {s₀ s : Server} (h : Steady s₀ s) (now : ℤ) (f : Frame) :
    Steady s₀ (handleFrame s now f).1 := by
  unfold handleFrame emitFrame
  split_ifs <;> exact ⟨h.1, h.2, h.3, h.4, h.5, h.6⟩

theorem Steady.cursor {s₀ s : Server} (h : Steady s₀ s) (c : CursorC2S) :
    Steady s₀ (handleCursor s c).1 := ⟨h.1, h.2, h.3, h.4, h.5, h.6⟩

theorem Steady.socket {s₀ s : Server} (h : Steady s₀ s) (k : Option Socket) :
    Steady s₀ { s with socket := k } := ⟨h.1, h.2, h.3, h.4, h.5, h.6⟩

/-- The server has handled the messages `ms` since `mark`, and closed only for a
Bye. -/
structure Serves (s₀ : Server) (mark : ℕ) (s : Session) (ms : List Message) : Prop where
  inStep : InStep s
  steady : Steady s₀ s.server
  mark_le : mark ≤ s.log.length
  handled : handledIn (s.log.drop mark) = ms
  replied : acksIn (s.log.drop mark) = replies s₀ ms
  greeted : ms ≠ [] → (phase s.log).greeted = true
  closed : .closed ∈ s.log.drop mark → ∃ v, .bye v ∈ ms

section Server

variable {clock : ℕ → ℤ} {s₀ : Server} {mark : ℕ} {s t : Session} {ms : List Message}

/-- What a message adds to the log. -/
structure Adds (s₀ : Server) (m : Message) (l : List Act) : Prop where
  handled : handledIn l = [m]
  replied : acksIn l = replies s₀ [m]
  closed : .closed ∉ l

theorem Adds.signals {m : Message} (hm : ∀ v, m ≠ .hello v) (signals : List Qtfb.Signal) :
    Adds s₀ m (.handled m :: signals.map .emitted) where
  handled := by simp [handledIn, List.filterMap_map]
  replied := by
    have hreply : replies s₀ [m] = [] := by
      cases m with
      | hello v => exact absurd rfl (hm v)
      | _ => rfl
    rw [hreply]
    simp [acksIn, List.filterMap_map]
  closed := by simp

theorem Adds.reply (v : HelloC2S) (signals : List Qtfb.Signal) :
    Adds s₀ (.hello v) (.handled (.hello v) :: signals.map .emitted ++
      [.wrote (handleHello s₀ v).2.1]) where
  handled := by simp [handledIn, List.filterMap_append, List.filterMap_map]
  replied := by
    simp [acksIn, replies, List.filterMap_append, List.filterMap_map]
  closed := by simp

theorem Serves.snoc {m : Message} {l : List Act} (h : Serves s₀ mark s ms)
    (hlog : t.log = s.log ++ l) (hl : Adds s₀ m l) (hin : InStep t)
    (hsteady : Steady s₀ t.server) (hgreeted : (phase t.log).greeted = true) :
    Serves s₀ mark t (ms ++ [m]) where
  inStep := hin
  steady := hsteady
  mark_le := by
    rw [hlog, List.length_append]
    exact h.mark_le.trans (Nat.le_add_right _ _)
  handled := by
    rw [hlog, List.drop_append_of_le_length h.mark_le, handledIn_append, h.handled, hl.handled]
  replied := by
    rw [hlog, List.drop_append_of_le_length h.mark_le, TestClient.acksIn_append, h.replied,
      hl.replied, replies_append]
  greeted := fun _ => hgreeted
  closed := by
    intro hc
    rw [hlog, List.drop_append_of_le_length h.mark_le] at hc
    rcases List.mem_append.mp hc with hc | hc
    · obtain ⟨v, hv⟩ := h.closed hc
      exact ⟨v, List.mem_append_left _ hv⟩
    · exact absurd hc hl.closed

/-- The phase of an open connection. -/
theorem Serves.phase_open (h : Serves s₀ mark s ms) (hopen : s.IsOpen) :
    (phase s.log).closed = false := by
  obtain ⟨u, hu⟩ := hopen
  rw [← h.inStep.closing _ hu]

theorem orderly_hello (g : Bool) (v : HelloC2S) :
    Orderly g ((Message.hello v).encode ++ []) := by
  have hone : Orderly g (encodeAll [.hello v]) := by
    apply orderly_encodeAll
    intro pre m suf hms hbye
    cases pre with
    | nil =>
        obtain ⟨rfl, -⟩ := List.cons.inj hms
        exact ⟨by simp [Message.tag], fun _ w hw => by cases hw⟩
    | cons a pre =>
        exact absurd (List.cons.inj hms).2.symm (by simp)
  simpa using hone

/-- **Step lemma**: the HELLO. -/
theorem Serves.hello (h : Serves s₀ mark s ms) (hopen : s.IsOpen) {v : HelloC2S}
    (hv : v.clientVersion = VERSION) {n : ℕ} (ht : s.handle clock (.hello v) = .take n t) :
    Serves s₀ mark t (ms ++ [.hello v]) := by
  obtain ⟨u, hu⟩ := hopen
  have hin := (h.inStep.take_hello (b := []) hu rfl (h.phase_open ⟨u, hu⟩)
    (orderly_hello _ v) ht).1
  have hack : (handleHello s.server v).2.1.accepted = 1 := if_pos hv
  simp only [Session.handle] at ht
  rw [hack, if_neg (by decide)] at ht
  obtain ⟨-, rfl⟩ := Turn.take.inj ht
  refine h.snoc (m := .hello v) (l := .handled (.hello v) ::
    (handleHello s.server v).2.2.map .emitted ++ [.wrote (handleHello s₀ v).2.1])
    ?_ (Adds.reply v _) hin ?_ ?_
  · rw [← h.steady.ack v]
    simp [Session.write, Session.record]
  · exact (h.steady.hello v).socket _
  · simp only [Session.write]
    rw [phase_append]
    simp [Phase.next, hack]

/-- **Step lemma**: a frame or a cursor position. -/
theorem Serves.plain (h : Serves s₀ mark s ms) (hopen : s.IsOpen) (hne : ms ≠ [])
    {m : Message} (hm : ∀ v, m ≠ .hello v) {u : Server} (hu : u.socket = s.server.socket)
    (hsteady : Steady s₀ u) {signals : List Qtfb.Signal} (hs : OfMessage signals) (frames : ℕ) :
    Serves s₀ mark { s.record m u signals with frames := frames } (ms ++ [m]) := by
  obtain ⟨hgate, hph⟩ := h.inStep.record (m := m) u hs (h.phase_open hopen)
    (fun _ => h.greeted hne)
  refine h.snoc rfl (Adds.signals hm signals) ⟨hgate, fun k hk => ?_⟩ hsteady ?_
  · simp only [hph]
    exact h.inStep.closing k (hu.symm.trans hk)
  · simp only [hph]
    exact h.greeted hne

/-- **Step lemma**: a message other than a Bye, in its place. -/
theorem Serves.take (h : Serves s₀ mark s ms) (hopen : s.IsOpen) {m : Message}
    {todo : List Message} (hp : Proper (ms ++ m :: todo)) {n : ℕ}
    (ht : s.handle clock m = .take n t) : Serves s₀ mark t (ms ++ [m]) ∧ t.IsOpen := by
  obtain ⟨hfirst, hlater, -⟩ := hp.at
  have hver : ∀ v, m = .hello v → v.clientVersion = VERSION := by
    intro v hv
    by_cases hms : ms = []
    · obtain ⟨v', hv', hver⟩ := hfirst hms
      obtain rfl := Message.hello.inj (hv.symm.trans hv')
      exact hver
    · exact absurd hv (hlater hms v)
  have hne : (∀ v, m ≠ .hello v) → ms ≠ [] := by
    intro hm hms
    obtain ⟨v, hv, -⟩ := hfirst hms
    exact hm v hv
  refine ⟨?_, (handle_take hopen hver ht).1⟩
  cases m with
  | hello v => exact h.hello hopen (hver v rfl) ht
  | frame f =>
      simp only [Session.handle] at ht
      obtain ⟨-, rfl⟩ := Turn.take.inj ht
      exact h.plain hopen (hne (by simp)) (by simp) (handleFrame_socket _ _ _)
        (h.steady.frame _ f) (handleFrame_ofMessage _ _ _) _
  | cursor c =>
      simp only [Session.handle] at ht
      obtain ⟨-, rfl⟩ := Turn.take.inj ht
      exact h.plain hopen (hne (by simp)) (by simp) (handleCursor_socket _ _)
        (h.steady.cursor c) (handleCursor_ofMessage _ _) s.frames
  | bye v =>
      simp only [Session.handle] at ht
      cases ht

theorem disconnect_server (s : Session) :
    ∃ k l, s.disconnect.server = { s.server with socket := k } ∧
      s.disconnect.log = s.log ++ l ∧ handledIn l = [] ∧ acksIn l = [] ∧
      ∀ p : Phase, (l.foldl Phase.next p).greeted = p.greeted := by
  unfold Session.disconnect
  split
  · next hs => exact ⟨none, [], by rw [← hs], (List.append_nil _).symm, rfl, rfl, fun _ => rfl⟩
  · split
    · exact ⟨_, _, rfl, rfl, rfl, rfl, fun _ => rfl⟩
    · exact ⟨_, _, rfl, rfl, rfl, rfl, fun _ => rfl⟩

/-- **Step lemma**: the Bye. -/
theorem Serves.bye (h : Serves s₀ mark s ms) (hne : ms ≠ []) (v : Bye) :
    Serves s₀ mark (s.record (.bye v) s.server []).disconnect (ms ++ [.bye v]) := by
  have hgate : Gated (s.record (.bye v) s.server []).log :=
    gatedFrom_append.mpr ⟨h.inStep.gated, trivial, trivial⟩
  obtain ⟨k, l, hserver, hlog, hhandled, hacks, hphase⟩ :=
    disconnect_server (s.record (.bye v) s.server [])
  have hlog' : (s.record (.bye v) s.server []).disconnect.log
      = s.log ++ ([.handled (.bye v)] ++ l) := by
    rw [hlog]
    simp [Session.record]
  have hdrop := congrArg (List.drop mark) hlog'
  rw [List.drop_append_of_le_length h.mark_le] at hdrop
  refine ⟨(InStep.disconnect hgate).1, ?_, ?_, ?_, ?_, fun _ => ?_, fun _ => ⟨v, by simp⟩⟩
  · rw [hserver]
    exact h.steady.socket k
  · rw [hlog', List.length_append]
    exact h.mark_le.trans (Nat.le_add_right _ _)
  · rw [hdrop, handledIn_append, handledIn_append, h.handled, hhandled]
    rfl
  · rw [hdrop, TestClient.acksIn_append, TestClient.acksIn_append, h.replied, hacks,
      replies_append]
    rfl
  · rw [hlog', phase_append, List.foldl_append, hphase]
    exact h.greeted hne

/-- What the read loop has made of the messages `todo`. -/
structure Served (s₀ : Server) (mark : ℕ) (s : Session) (ms todo : List Message)
    (tail : List UInt8) (t : Session) (rest : List UInt8) (done todo' : List Message) :
    Prop where
  split : todo = done ++ todo'
  bytes : rest ++ tail = encodeAll todo'
  serves : Serves s₀ mark t (ms ++ done)
  log : s.log <+: t.log

theorem handle_log {m : Message} {n : ℕ} (ht : s.handle clock m = .take n t) :
    s.log <+: t.log := by
  cases m with
  | hello v =>
      simp only [Session.handle] at ht
      obtain ⟨-, rfl⟩ := Turn.take.inj ht
      split
      · obtain ⟨k, l, -, hlog, -⟩ := disconnect_server
          ((s.record (.hello v) (handleHello s.server v).1 (handleHello s.server v).2.2).write
            (handleHello s.server v).2.1)
        rw [hlog]
        simp [Session.write, Session.record]
      · simp [Session.write, Session.record]
  | frame f =>
      simp only [Session.handle] at ht
      obtain ⟨-, rfl⟩ := Turn.take.inj ht
      exact List.prefix_append _ _
  | cursor c =>
      simp only [Session.handle] at ht
      obtain ⟨-, rfl⟩ := Turn.take.inj ht
      exact List.prefix_append _ _
  | bye v =>
      simp only [Session.handle] at ht
      cases ht

/-- The front of what is still to be read is a beginning of the next message. -/
theorem front_todo {b tail : List UInt8} {todo : List Message}
    (hb : b ++ tail = encodeAll todo) (hne : front b ≠ .short) :
    ∃ m todo', todo = m :: todo' ∧ front b = .message m ∧
      ∃ rest, b = m.encode ++ rest ∧ rest ++ tail = encodeAll todo' := by
  have hf := front_append tail hne
  rw [hb] at hf
  cases todo with
  | nil => exact absurd (hf.symm.trans front_nil) hne
  | cons m todo' =>
      rw [encodeAll_cons, front_encode] at hf
      obtain ⟨rest, rfl⟩ := encode_of_front hf.symm
      refine ⟨m, todo', rfl, hf.symm, rest, rfl, ?_⟩
      rw [encodeAll_cons, List.append_assoc] at hb
      exact List.append_cancel_left hb

/-- **The read loop**, on a part of what a client has said. -/
theorem Serves.drain (h : Serves s₀ mark s ms) (hopen : s.IsOpen) {todo : List Message}
    (hp : Proper (ms ++ todo)) {b tail : List UInt8} (hb : b ++ tail = encodeAll todo)
    {k : ℕ} {r : Session × List UInt8 × Bool} (hr : (reader clock).drain k s b = some r) :
    ∃ done todo', Served s₀ mark s ms todo tail r.1 r.2.1 done todo' ∧
      front r.2.1 = .short ∧ (r.1.IsOpen ∨ todo' = [] ∧ ∃ v, .bye v ∈ done) := by
  apply Reader.drain_inv (R := reader clock)
    (fun t rest => t.IsOpen ∧ ∃ done todo', Served s₀ mark s ms todo tail t rest done todo')
    (fun t rest _ => ∃ done todo', Served s₀ mark s ms todo tail t rest done todo' ∧
      front rest = .short ∧ (t.IsOpen ∨ todo' = [] ∧ ∃ v, .bye v ∈ done)) ?_ ?_ ?_
    ⟨hopen, [], todo, rfl, hb, (by rw [List.append_nil]; exact h), List.prefix_refl _⟩ hr
  · rintro t rest ⟨ho, done, todo', hS⟩ hl
    refine ⟨done, todo', hS, ?_, Or.inl ho⟩
    by_contra hne
    obtain ⟨m, todo'', -, hf, -⟩ := front_todo hS.bytes hne
    obtain ⟨u, hu⟩ := ho
    have hwait : t.look clock rest = .wait := hl
    simp only [Session.look, hu, hf] at hwait
    cases m <;> simp [Session.handle] at hwait
  · rintro t rest n u ⟨ho, done, todo', hS⟩ hl
    rcases look_cases clock t rest with ⟨h', -⟩ | ⟨-, h', -⟩ | ⟨-, m, q, hf, hq, h'⟩
    · exact absurd (h'.symm.trans hl) (by simp)
    · exact absurd (h'.symm.trans hl) (by simp)
    · have ht := h'.symm.trans hl
      obtain ⟨m', todo'', rfl, hf', rest', rfl, hrest⟩ :=
        front_todo hS.bytes (by rw [hf]; simp)
      obtain rfl := Front.message.inj (hf.symm.trans hf')
      rw [hS.split, ← List.append_assoc] at hp
      obtain ⟨hserves, hopen'⟩ := hS.serves.take ho hp ht
      refine ⟨hopen', done ++ [m], todo'', ?_, ?_, ?_, ?_⟩
      · rw [hS.split, List.append_assoc]
        rfl
      · rw [handle_take_pos ht, List.drop_left' rfl]
        exact hrest
      · rw [← List.append_assoc]
        exact hserves
      · exact hS.log.trans (handle_log ht)
  · rintro t rest n u ⟨ho, done, todo', hS⟩ hl
    rcases look_cases clock t rest with ⟨h', -⟩ | ⟨-, -, hf⟩ | ⟨-, m, q, hf, hq, h'⟩
    · exact absurd (h'.symm.trans hl) (by simp)
    · -- no client sends a header that is bad
      obtain ⟨m, todo'', -, hf', -⟩ := front_todo hS.bytes (by rcases hf with hf | hf <;> simp [hf])
      rw [hf'] at hf
      simp at hf
    · obtain ⟨v, rfl, hn, rfl⟩ := handle_stop_eq (h'.symm.trans hl)
      obtain ⟨m', todo'', rfl, hf', rest', rfl, hrest⟩ :=
        front_todo hS.bytes (by rw [hf]; simp)
      obtain rfl := Front.message.inj (hf.symm.trans hf')
      rw [hS.split, ← List.append_assoc] at hp
      have hlast : todo'' = [] := by
        by_contra hne
        exact hp.at.2.2 hne v rfl
      have hfirst : ms ++ done ≠ [] := by
        intro hnil
        obtain ⟨v', hv', -⟩ := hp.at.1 hnil
        cases hv'
      subst hlast
      obtain ⟨hnil, -⟩ := List.append_eq_nil_iff.mp hrest
      refine ⟨done ++ [.bye v], [], ⟨?_, ?_, ?_, ?_⟩, ?_, Or.inr ⟨rfl, v, by simp⟩⟩
      · rw [hS.split, List.append_nil]
      · rw [hn, List.drop_left' rfl]
        exact hrest
      · rw [← List.append_assoc]
        exact hS.serves.bye hfirst v
      · obtain ⟨k, l, -, hlog, -⟩ := disconnect_server (t.record (.bye v) t.server [])
        rw [hlog]
        exact (hS.log.trans (List.prefix_append _ _)).trans (List.prefix_append _ _)
      · rw [hn, List.drop_left' rfl, hnil]
        rfl

end Server

/-! ## §4  The reply -/

theorem encode_length (s : Server) (v : HelloC2S) :
    (handleHello s v).2.1.encode.length = ackSize := TestClient.ack_length s v

/-- **The reply is read as it was written.** -/
theorem helloAck_encode (ack : HelloAckS2C) : helloAck ack.encode = some ack := by
  have hhead : ack.encode.take 36 = words [MAGIC, Tag.HelloAckS2C.word, ack.accepted, ack.w,
      ack.h, ack.stride, ack.bpp, ack.format, ack.shmNameLen] :=
    List.take_left' (words_length _)
  have hname : ack.encode.drop 36 = ack.shmName := List.drop_left' (words_length _)
  unfold helloAck
  rw [hhead, readWords_words, hname]
  rfl

/-- The name in the reply is the server's, if it has room. -/
theorem shmName_ack {s : Server} (hlen : s.shmName.length ≤ 64) (hnul : 0 ∉ s.shmName)
    (v : HelloC2S) : shmName (handleHello s v).2.1 = s.shmName := by
  have hn : min s.shmName.length 64 = s.shmName.length := min_eq_left hlen
  unfold shmName
  simp only [handleHello, hn]
  rw [UInt32.toNat_ofNat', Nat.mod_eq_of_lt (by omega), hn, List.take_length,
    List.take_left' rfl]
  rw [List.takeWhile_eq_self_iff]
  intro b hb
  simp only [decide_eq_true_eq]
  rintro rfl
  exact hnul hb

/-! ## §5  The invariant -/

/-- A connection whose shm is the picture. -/
structure Mapped (picture : List UInt8) (c : Connection) : Prop where
  announced : Announced c
  length : c.shm.length = picture.length

/-- What the server's client is doing, when the server has handled `ms`, `rest`
is what the client has still to send, and `outbox` what the server has. -/
inductive Doing (s₀ : Server) (w : World) (ms : List Message) (rest : List UInt8)
    (p : Process) : Prop where
  | greeting (cap : UInt32) (buf : List UInt8)
      (stage : p.stage = .send rest (.recvAll buf))
      (said : p.said = [.hello (hello cap)]) (short : buf.length < ackSize)
      (reply : buf ++ p.reply ++ w.outbox = (replies s₀ ms).flatMap HelloAckS2C.encode)
  | painting (c : Connection) (stage : p.stage = .send rest (.serving c))
      (mapped : Mapped w.picture c) (said : p.said ≠ []) (bye : ∀ v, .bye v ∉ p.said)
  | leaving (stage : p.stage = .gone ∨ p.stage = .send rest .gone)

/-- The server's client: it has said `ms`, which is handled, and `todo`, of which
some is unread, some on its way and some still to be sent. -/
structure Guest (s₀ : Server) (w : World) (p : Process) (ms todo : List Message)
    (rest : List UInt8) : Prop where
  said : p.said = ms ++ todo
  proper : Proper p.said
  serves : Serves s₀ w.mark w.channel.session ms
  bytes : w.channel.unread ++ p.line ++ rest = encodeAll todo
  front : front w.channel.unread = .short
  opened : w.channel.session.IsOpen ∨ todo = [] ∧ ∃ v, .bye v ∈ ms
  doing : Doing s₀ w ms rest p

/-- A connection that the server has not accepted yet. -/
inductive Waits (p : Process) (rest : List UInt8) : Prop where
  | greeting (cap : UInt32) (stage : p.stage = .send rest (.recvAll []))
      (said : p.said = [.hello (hello cap)])
  | gone (stage : p.stage = .gone)

/-- How a process stands to the server. -/
inductive Standing (s₀ : Server) (w : World) (i : ℕ) : Prop where
  | unborn (proc : w.proc i = {}) (backlog : i ∉ w.backlog) (peer : w.peer ≠ some i)
  | waiting (rest : List UInt8) (backlog : i ∈ w.backlog) (peer : w.peer ≠ some i)
      (proper : Proper (w.proc i).said) (reply : (w.proc i).reply = [])
      (bytes : (w.proc i).line ++ rest = encodeAll (w.proc i).said)
      (waits : Waits (w.proc i) rest)
  | holds (ms todo : List Message) (rest : List UInt8) (backlog : i ∉ w.backlog)
      (holds : w.Holds i) (client : Guest s₀ w (w.proc i) ms todo rest)
  | dropped (backlog : i ∉ w.backlog) (peer : ¬ w.Holds i)
      (stage : (w.proc i).stage = .gone ∨
        (w.proc i).reply = [] ∧ ∃ rest, (w.proc i).stage = .send rest (.recvAll []))

structure Inv (s₀ : Server) (n : ℕ) (w : World) : Prop where
  steady : Steady s₀ w.server
  picture : w.picture.length = n
  inStep : InStep w.channel.session
  nodup : w.backlog.Nodup
  idle : w.peer = none → w.server.socket = none
  standing : ∀ i, Standing s₀ w i

theorem World.set_self (w : World) (i : ℕ) (p : Process) : (w.set i p).proc i = p := by
  simp [World.set]

theorem World.set_other (w : World) {i j : ℕ} (hne : j ≠ i) (p : Process) :
    (w.set i p).proc j = w.proc j := by
  simp [World.set, hne]

section Send

variable {rest r buf : List UInt8} {next next' : Stage} {c : Connection}

@[simp] theorem send_nil (next : Stage) : Stage.send [] next = next := if_pos rfl

@[simp] theorem send_eq_unborn :
    Stage.send rest next = .unborn ↔ rest = [] ∧ next = .unborn := by
  unfold Stage.send
  split <;> simp [*]

@[simp] theorem send_eq_gone :
    Stage.send rest next = .gone ↔ rest = [] ∧ next = .gone := by
  unfold Stage.send
  split <;> simp [*]

@[simp] theorem send_eq_recvAll :
    Stage.send rest next = .recvAll buf ↔ rest = [] ∧ next = .recvAll buf := by
  unfold Stage.send
  split <;> simp [*]

@[simp] theorem send_eq_serving :
    Stage.send rest next = .serving c ↔ rest = [] ∧ next = .serving c := by
  unfold Stage.send
  split <;> simp [*]

@[simp] theorem send_eq_sendAll : Stage.send rest next = .sendAll r next' ↔
    rest = [] ∧ next = .sendAll r next' ∨ rest ≠ [] ∧ rest = r ∧ next = next' := by
  unfold Stage.send
  split <;> simp [*]

end Send

section Standing

variable {s₀ : Server} {w w' : World} {i j : ℕ}

theorem Guest.frame {p : Process} {ms todo : List Message} {rest : List UInt8}
    (h : Guest s₀ w p ms todo rest) (hchannel : w'.channel = w.channel)
    (houtbox : w'.outbox = w.outbox) (hmark : w'.mark = w.mark)
    (hpicture : w'.picture.length = w.picture.length) : Guest s₀ w' p ms todo rest := by
  refine ⟨h.said, h.proper, ?_, ?_, ?_, ?_, ?_⟩
  · rw [hmark, hchannel]
    exact h.serves
  · rw [hchannel]
    exact h.bytes
  · rw [hchannel]
    exact h.front
  · rw [hchannel]
    exact h.opened
  · have hdoing := h.doing
    cases hdoing with
    | greeting cap buf stage said short reply =>
        exact .greeting cap buf stage said short (by rwa [houtbox])
    | painting c stage mapped said bye =>
        exact .painting c stage ⟨mapped.announced, mapped.length.trans hpicture.symm⟩ said bye
    | leaving stage => exact .leaving stage

/-- What a process does leaves the others as they are. -/
theorem Standing.frame (h : Standing s₀ w j) (hproc : w'.proc j = w.proc j)
    (hbacklog : j ∈ w'.backlog ↔ j ∈ w.backlog) (hpeer : w'.peer = w.peer)
    (hchannel : w'.channel = w.channel) (houtbox : w'.outbox = w.outbox)
    (hmark : w'.mark = w.mark) (hpicture : w'.picture.length = w.picture.length) :
    Standing s₀ w' j := by
  have hholds : w'.Holds j ↔ w.Holds j := by
    unfold World.Holds World.server
    rw [hpeer, hchannel]
  cases h with
  | unborn proc backlog peer =>
      exact .unborn (hproc.trans proc) (by rwa [hbacklog]) (by rwa [hpeer])
  | waiting rest backlog peer proper reply bytes waits =>
      rw [← hproc] at proper reply bytes waits
      exact .waiting rest (hbacklog.mpr backlog) (by rwa [hpeer]) proper reply bytes waits
  | holds ms todo rest backlog holds client =>
      rw [← hproc] at client
      exact .holds ms todo rest (by rwa [hbacklog]) (hholds.mpr holds)
        (client.frame hchannel houtbox hmark hpicture)
  | dropped backlog peer stage =>
      rw [← hproc] at stage
      exact .dropped (by rwa [hbacklog]) (by rwa [hholds]) stage

theorem Standing.set_other (h : Standing s₀ w j) (hne : j ≠ i) (p : Process) :
    Standing s₀ (w.set i p) j :=
  h.frame (w.set_other hne p) Iff.rfl rfl rfl rfl rfl rfl

/-- The server and its client leave the other processes as they are. -/
theorem Standing.elsewhere (h : Standing s₀ w j) (hproc : w'.proc j = w.proc j)
    (hbacklog : j ∈ w'.backlog ↔ j ∈ w.backlog) (hpeer : ¬ w.Holds j)
    (hpeer' : w'.peer ≠ some j) : Standing s₀ w' j := by
  cases h with
  | unborn proc backlog peer =>
      exact .unborn (hproc.trans proc) (by rwa [hbacklog]) hpeer'
  | waiting rest backlog peer proper reply bytes waits =>
      rw [← hproc] at proper reply bytes waits
      exact .waiting rest (hbacklog.mpr backlog) hpeer' proper reply bytes waits
  | holds ms todo rest backlog holds client => exact absurd holds hpeer
  | dropped backlog peer stage =>
      rw [← hproc] at stage
      exact .dropped (by rwa [hbacklog]) (fun hh => hpeer' hh.1) stage

theorem Inv.set {n : ℕ} (h : Inv s₀ n w) {p : Process}
    (hi : Standing s₀ (w.set i p) i) : Inv s₀ n (w.set i p) where
  steady := h.steady
  picture := h.picture
  inStep := h.inStep
  nodup := h.nodup
  idle := h.idle
  standing j := by
    by_cases hj : j = i
    · rw [hj]
      exact hi
    · exact (h.standing j).set_other hj p

/-- Only the server's client has the picture mapped. -/
theorem Standing.serving {c : Connection} (h : Standing s₀ w i)
    (hs : (w.proc i).stage = .serving c) :
    ∃ ms todo, i ∉ w.backlog ∧ w.Holds i ∧ Guest s₀ w (w.proc i) ms todo [] ∧
      Mapped w.picture c ∧ (w.proc i).said ≠ [] ∧ (∀ v, .bye v ∉ (w.proc i).said) ∧
      w.channel.session.IsOpen := by
  cases h with
  | unborn proc backlog peer => simp [proc] at hs
  | waiting rest backlog peer proper reply bytes waits =>
      cases waits with
      | greeting cap stage said => simp [stage] at hs
      | gone stage => simp [stage] at hs
  | dropped backlog peer stage =>
      rcases stage with stage | ⟨-, rest, stage⟩
      · simp [stage] at hs
      · simp [stage] at hs
  | holds ms todo rest backlog holds client =>
      have hdoing := client.doing
      cases hdoing with
      | greeting cap buf stage said short reply => simp [stage] at hs
      | leaving stage => rcases stage with stage | stage <;> simp [stage] at hs
      | painting c' stage mapped said bye =>
          simp only [stage, send_eq_serving, Stage.serving.injEq] at hs
          obtain ⟨rfl, rfl⟩ := hs
          refine ⟨ms, todo, backlog, holds, client, mapped, said, bye, ?_⟩
          rcases client.opened with ho | ⟨-, v, hv⟩
          · exact ho
          · refine absurd ?_ (bye v)
            rw [client.said]
            exact List.mem_append_left _ hv

/-! ## §6  The steps of a process -/

theorem Inv.launch {n : ℕ} (h : Inv s₀ n w) (hs : (w.proc i).stage = .unborn) {cap : UInt32} :
    Inv s₀ n { w.set i { w.proc i with
        stage := .send (packed (.hello (hello cap))) (.recvAll [])
        said := [.hello (hello cap)] } with
      backlog := w.backlog ++ [i] } := by
  obtain ⟨proc, backlog, peer⟩ : w.proc i = {} ∧ i ∉ w.backlog ∧ w.peer ≠ some i := by
    cases h.standing i with
    | unborn proc backlog peer => exact ⟨proc, backlog, peer⟩
    | waiting rest backlog peer proper reply bytes waits =>
        cases waits with
        | greeting cap stage said => simp [stage] at hs
        | gone stage => simp [stage] at hs
    | dropped backlog peer stage =>
        rcases stage with stage | ⟨-, rest, stage⟩ <;> simp [stage] at hs
    | holds ms todo rest backlog holds client =>
        have hdoing := client.doing
        cases hdoing with
        | greeting cap buf stage said short reply => simp [stage] at hs
        | painting c stage mapped said bye => simp [stage] at hs
        | leaving stage => rcases stage with stage | stage <;> simp [stage] at hs
  refine ⟨h.steady, h.picture, h.inStep, ?_, h.idle, fun j => ?_⟩
  · exact h.nodup.append (List.nodup_singleton i) (by simpa using backlog)
  by_cases hj : j = i
  · subst hj
    refine .waiting (packed (.hello (hello cap))) (by simp) peer ?_ ?_ ?_ (.greeting cap ?_ ?_)
    all_goals simp only [World.set, Function.update_self]
    · exact Proper.hello cap
    · rw [proc]
    · rw [proc, packed_eq_encode, encodeAll_cons, encodeAll_nil, List.append_nil]
      exact List.nil_append _
  · exact (h.standing j).frame (w.set_other hj _) (by simp [hj]) rfl rfl rfl rfl rfl

/-- `::send` takes a part of what is left. -/
theorem Inv.sent {n k : ℕ} {rest : List UInt8} {next : Stage} (h : Inv s₀ n w)
    (hs : (w.proc i).stage = .sendAll rest next) (hlinked : w.Linked i) :
    Inv s₀ n (w.set i { w.proc i with
      stage := .send (rest.drop k) next
      line := (w.proc i).line ++ rest.take k }) := by
  apply h.set
  have hbytes : ∀ b line : List UInt8, b ++ (line ++ rest.take k) ++ rest.drop k
      = b ++ line ++ rest := by
    intro b line
    rw [List.append_assoc, List.append_assoc, List.append_assoc, List.take_append_drop]
  cases h.standing i with
  | unborn proc backlog peer => simp [proc] at hs
  | waiting rest' backlog peer proper reply bytes waits =>
      cases waits with
      | gone stage => simp [stage] at hs
      | greeting cap stage said =>
          simp only [stage, send_eq_sendAll, reduceCtorEq, and_false, false_or] at hs
          obtain ⟨hne, rfl, rfl⟩ := hs
          refine .waiting (rest'.drop k) backlog peer ?_ ?_ ?_ (.greeting cap ?_ ?_)
          all_goals rw [World.set_self]
          · exact proper
          · exact reply
          · simpa using (hbytes [] _).trans bytes
          · exact said
  | dropped backlog peer stage =>
      rcases hlinked with hl | hl
      · exact absurd hl backlog
      · exact absurd hl peer
  | holds ms todo rest' backlog holds client =>
      have hcase : rest' = rest ∧ Doing s₀ (w.set i { w.proc i with
          stage := .send (rest.drop k) next
          line := (w.proc i).line ++ rest.take k }) ms (rest.drop k) { w.proc i with
          stage := .send (rest.drop k) next
          line := (w.proc i).line ++ rest.take k } := by
        have hdoing := client.doing
        cases hdoing with
        | greeting cap buf stage said short reply =>
            simp only [stage, send_eq_sendAll, reduceCtorEq, and_false, false_or] at hs
            obtain ⟨hne, rfl, rfl⟩ := hs
            exact ⟨rfl, .greeting cap buf rfl said short reply⟩
        | painting c stage mapped said bye =>
            simp only [stage, send_eq_sendAll, reduceCtorEq, and_false, false_or] at hs
            obtain ⟨hne, rfl, rfl⟩ := hs
            exact ⟨rfl, .painting c rfl mapped said bye⟩
        | leaving stage =>
            rcases stage with stage | stage
            · simp [stage] at hs
            · simp only [stage, send_eq_sendAll, reduceCtorEq, and_false, false_or] at hs
              obtain ⟨hne, rfl, rfl⟩ := hs
              exact ⟨rfl, .leaving (Or.inr rfl)⟩
      obtain ⟨rfl, hdoing⟩ := hcase
      refine .holds ms todo (rest'.drop k) backlog holds ?_
      rw [World.set_self]
      exact ⟨client.said, client.proper, client.serves, (hbytes _ _).trans client.bytes,
        client.front, client.opened, hdoing⟩

/-- What the server has to be like for its clients to come through the
handshake. -/
structure Ready (s₀ : Server) (n : ℕ) : Prop where
  started : ∀ file : List UInt8, file.length = n → Started s₀ file
  fits : (handleHello s₀ (hello 0)).2.1.Fits
  name_le : s₀.shmName.length ≤ 64
  name : 0 ∉ s₀.shmName

theorem recvd_short {env : Environ} {file : List UInt8 → Option (List UInt8)}
    {buf : List UInt8} (h : buf.length < ackSize) : recvd env file buf = .recvAll buf :=
  if_pos h

/-- A complete reply leads to a mapped picture. -/
theorem recvd_reply {n : ℕ} (hR : Ready s₀ n) (h : Inv s₀ n w) (env : Environ) (cap : UInt32) :
    ∃ c, recvd env w.devShm (handleHello s₀ (hello cap)).2.1.encode = .serving c ∧
      Mapped w.picture c := by
  have hlen : ¬ (handleHello s₀ (hello cap)).2.1.encode.length < ackSize := by
    rw [encode_length]
    exact lt_irrefl _
  have hshm : w.devShm (shmName (handleHello s₀ (hello cap)).2.1) = some w.picture := by
    unfold World.devShm
    rw [shmName_ack hR.name_le hR.name, h.steady.shmName, if_pos rfl]
  have hfits : (handleHello s₀ (hello cap)).2.1.Fits := hR.fits
  have hS := hR.started w.picture h.picture
  have hsize : ((handleHello s₀ (hello cap)).2.1.stride *
      (handleHello s₀ (hello cap)).2.1.h).toNat = w.picture.length := by
    rw [UInt32.toNat_mul, Nat.mod_eq_of_lt hfits.size]
    exact (hS.length_eq hfits.size).symm
  have hmap : openShm w.picture ((handleHello s₀ (hello cap)).2.1.stride *
      (handleHello s₀ (hello cap)).2.1.h) = some w.picture := by
    unfold openShm
    rw [hsize, List.take_length, if_neg]
    intro hzero
    have hpos := hS.length_pos
    rw [← hsize, hzero] at hpos
    exact absurd hpos (by decide)
  have hacc : (handleHello s₀ (hello cap)).2.1.accepted ≠ 0 := by
    show (if kVersion = VERSION then (1 : UInt32) else 0) ≠ 0
    decide
  unfold recvd
  rw [if_neg hlen, helloAck_encode]
  simp only [Option.bind_eq_bind, Option.bind_some, hshm]
  cases hc : handshake env (handleHello s₀ (hello cap)).2.1 w.picture with
  | none => simp [handshake, hacc, hmap] at hc
  | some c =>
      refine ⟨c, rfl, announced_of_handshake hS hfits hc, ?_⟩
      obtain ⟨-, -, -, -, hcut, -⟩ := handshake_eq hc
      rw [hcut, hsize, List.take_length]

/-- `recv` returns a part of the reply. -/
theorem Inv.recv {n k : ℕ} {buf : List UInt8} (hR : Ready s₀ n) (h : Inv s₀ n w)
    (hs : (w.proc i).stage = .recvAll buf) (env : Environ) {chunk : List UInt8}
    (hchunk : chunk = (w.proc i).reply.take (min k (ackSize - buf.length))) (hne : chunk ≠ []) :
    Inv s₀ n (w.set i { w.proc i with
      stage := recvd env w.devShm (buf ++ chunk)
      reply := (w.proc i).reply.drop chunk.length }) := by
  have hreply : (w.proc i).reply ≠ [] := by
    intro hnil
    rw [hnil, List.take_nil] at hchunk
    exact hne hchunk
  obtain ⟨left, hleft⟩ : chunk <+: (w.proc i).reply := by
    rw [hchunk]
    exact List.take_prefix _ _
  have hdrop : (w.proc i).reply.drop chunk.length = left := by
    rw [← hleft, List.drop_left' rfl]
  have hlen : chunk.length ≤ ackSize - buf.length := by
    rw [hchunk, List.length_take]
    exact (min_le_left _ _).trans (min_le_right _ _)
  rw [hdrop]
  apply h.set
  cases h.standing i with
  | unborn proc backlog peer => simp [proc] at hs
  | waiting rest' backlog peer proper reply bytes waits => exact absurd reply hreply
  | dropped backlog peer stage =>
      rcases stage with stage | ⟨reply, -⟩
      · simp [stage] at hs
      · exact absurd reply hreply
  | holds ms todo rest backlog holds client =>
      refine .holds ms todo rest backlog holds ?_
      rw [World.set_self]
      refine ⟨client.said, client.proper, client.serves, client.bytes, client.front,
        client.opened, ?_⟩
      have hdoing := client.doing
      cases hdoing with
      | painting c stage mapped said bye => simp [stage] at hs
      | leaving stage => rcases stage with stage | stage <;> simp [stage] at hs
      | greeting cap buf' stage said short reply =>
          simp only [stage, send_eq_recvAll, Stage.recvAll.injEq] at hs
          obtain ⟨rfl, rfl⟩ := hs
          -- there is a reply, so the HELLO has been handled
          have hms : ms = [.hello (hello cap)] := by
            have hsaid := client.said
            rw [said] at hsaid
            cases ms with
            | nil =>
                rw [← hleft] at reply
                simp [replies, hne] at reply
            | cons m ms =>
                obtain ⟨rfl, htail⟩ := List.cons.inj hsaid
                rw [(List.append_eq_nil_iff.mp htail.symm).1]
          subst hms
          have hall : (buf' ++ chunk) ++ (left ++ w.outbox)
              = (handleHello s₀ (hello cap)).2.1.encode := by
            rw [← hleft] at reply
            simpa [replies] using reply
          have hreplies : (replies s₀ [.hello (hello cap)]).flatMap HelloAckS2C.encode
              = (handleHello s₀ (hello cap)).2.1.encode := by
            simp [replies]
          by_cases hshort : (buf' ++ chunk).length < ackSize
          · refine .greeting cap (buf' ++ chunk) ?_ said hshort ?_
            · exact (recvd_short hshort).trans (send_nil _).symm
            · exact ((List.append_assoc _ _ _).trans hall).trans hreplies.symm
          · have hfull : (buf' ++ chunk).length = ackSize := by
              rw [List.length_append] at hshort ⊢
              omega
            have hwhole : buf' ++ chunk = (handleHello s₀ (hello cap)).2.1.encode :=
              (List.append_inj (hall.trans (List.append_nil _).symm)
                (hfull.trans (encode_length _ _).symm)).1
            rw [hwhole]
            obtain ⟨c, hc, hmapped⟩ := recvd_reply hR h env cap
            refine .painting c ?_ hmapped (by simp [said]) (by simp [said])
            exact hc.trans (send_nil _).symm

/-- The process may say something more. -/
theorem Guest.say {ms todo : List Message} {p q : Process} {m : Message}
    {rest : List UInt8} (h : Guest s₀ w p ms todo []) (hopen : w.channel.session.IsOpen)
    (hne : p.said ≠ []) (hbye : ∀ v, .bye v ∉ p.said) (hm : ∀ v, m ≠ .hello v)
    (hsaid : q.said = p.said ++ [m]) (hbytes : q.line ++ rest = p.line ++ packed m)
    (hdoing : Doing s₀ w ms rest q) : Guest s₀ w q ms (todo ++ [m]) rest where
  said := by
    rw [hsaid, h.said, List.append_assoc]
  proper := by
    rw [hsaid]
    exact h.proper.snoc hne hbye hm
  serves := h.serves
  bytes := by
    have hb := h.bytes
    rw [List.append_nil] at hb
    rw [List.append_assoc, hbytes, ← List.append_assoc, hb, packed_eq_encode, encodeAll_append,
      encodeAll_cons, encodeAll_nil, List.append_nil]
  front := h.front
  opened := Or.inl hopen
  doing := hdoing

theorem Inv.draw {n : ℕ} {c : Connection} {shadow : List UInt8} (h : Inv s₀ n w)
    (hs : (w.proc i).stage = .serving c) (hlen : shadow.length = c.shadow.length) :
    Inv s₀ n (w.set i { w.proc i with stage := .serving { c with shadow := shadow } }) := by
  obtain ⟨ms, todo, hb, hholds, hG, hM, hne, hbye, -⟩ := (h.standing i).serving hs
  refine h.set (.holds ms todo [] hb hholds ?_)
  rw [World.set_self]
  refine ⟨hG.said, hG.proper, hG.serves, hG.bytes, hG.front, hG.opened, ?_⟩
  refine .painting { c with shadow := shadow } (by simp) ⟨?_, hM.length⟩ hne hbye
  exact announced_with hM.announced hlen rfl

/-- A cursor position that is taken, or not worth sending. -/
theorem Inv.cursor {n : ℕ} {c : Connection} (h : Inv s₀ n w)
    (hs : (w.proc i).stage = .serving c) (x y cw ch : ℤ) (visible : Bool) :
    Inv s₀ n (w.set i { w.proc i with
        stage := .serving (sendCursorPos c x y cw ch visible).1 }) ∧
    ∀ m, Inv s₀ n (w.set i { w.proc i with
        stage := .serving (sendCursorPos c x y cw ch visible).1
        line := (w.proc i).line ++ packed (.cursor m)
        said := (w.proc i).said ++ [.cursor m] }) := by
  obtain ⟨ms, todo, hb, hholds, hG, hM, hne, hbye, hopen⟩ := (h.standing i).serving hs
  have hM' : Mapped w.picture (sendCursorPos c x y cw ch visible).1 := by
    refine ⟨hM.announced.sendCursorPos x y cw ch visible, ?_⟩
    unfold sendCursorPos
    split
    · exact hM.length
    · exact hM.length
  constructor
  · refine h.set (.holds ms todo [] hb hholds ?_)
    rw [World.set_self]
    exact ⟨hG.said, hG.proper, hG.serves, hG.bytes, hG.front, hG.opened,
      .painting _ (by simp) hM' hne hbye⟩
  · intro m
    refine h.set (.holds ms (todo ++ [.cursor m]) [] hb hholds ?_)
    rw [World.set_self]
    refine Guest.say (m := .cursor m) (hG.frame rfl rfl rfl rfl) hopen hne hbye (by simp) rfl
      (by simp) (.painting _ (by simp) hM' (by simp) ?_)
    intro v hv
    rcases List.mem_append.mp hv with hv | hv
    · exact hbye v hv
    · cases List.mem_singleton.mp hv

/-- The blit stays inside the shadow and the picture. -/
theorem Mapped.update {picture : List UInt8} {c : Connection} (h : Mapped picture c) (r : Rect) :
    ∃ c' m, sendPartialUpdate { c with shm := picture.take c.shm.length } r = some (c', m) ∧
      (c'.shm ++ picture.drop c.shm.length).length = picture.length ∧
      Mapped (c'.shm ++ picture.drop c.shm.length) c' := by
  have htake : picture.take c.shm.length = picture := by
    rw [h.length, List.take_length]
  have hA : Announced { c with shm := picture } :=
    announced_with h.announced rfl h.length.symm
  rw [htake, h.length, List.drop_length]
  obtain ⟨shm, m, hsend, hP⟩ := sendPartialUpdate_spec hA r
  refine ⟨_, m, hsend, ?_, hA.updated hP, ?_⟩
  · simpa using hP.length
  · simp

theorem Inv.update {n : ℕ} {c : Connection} (h : Inv s₀ n w)
    (hs : (w.proc i).stage = .serving c) (r : Rect) :
    ∃ c' m, sendPartialUpdate { c with shm := w.picture.take c.shm.length } r = some (c', m) ∧
      Inv s₀ n { w.set i { w.proc i with
          stage := .send (packed (.frame m)) (.serving c')
          said := (w.proc i).said ++ [.frame m] } with
        picture := c'.shm ++ w.picture.drop c.shm.length } := by
  obtain ⟨ms, todo, hb, hholds, hG, hM, hne, hbye, hopen⟩ := (h.standing i).serving hs
  obtain ⟨c', m, hsend, hlen, hM'⟩ := hM.update r
  refine ⟨c', m, hsend, h.steady, hlen.trans h.picture, h.inStep, h.nodup, h.idle, fun j => ?_⟩
  by_cases hj : j = i
  · subst hj
    refine .holds ms (todo ++ [.frame m]) (packed (.frame m)) hb hholds ?_
    simp only [World.set, Function.update_self]
    refine Guest.say (m := .frame m) (hG.frame rfl rfl rfl hlen) hopen hne hbye (by simp) rfl rfl
      (.painting c' rfl hM' (by simp) ?_)
    intro v hv
    rcases List.mem_append.mp hv with hv | hv
    · exact hbye v hv
    · cases List.mem_singleton.mp hv
  · exact (h.standing j).frame (w.set_other hj _) Iff.rfl rfl rfl rfl rfl hlen

theorem Inv.destroy {n : ℕ} {c : Connection} (h : Inv s₀ n w)
    (hs : (w.proc i).stage = .serving c) :
    Inv s₀ n (w.set i { w.proc i with
      stage := .send (packed (.bye bye)) .gone
      said := (w.proc i).said ++ [.bye bye] }) := by
  obtain ⟨ms, todo, hb, hholds, hG, hM, hne, hbye, hopen⟩ := (h.standing i).serving hs
  refine h.set (.holds ms (todo ++ [.bye bye]) (packed (.bye bye)) hb hholds ?_)
  rw [World.set_self]
  exact Guest.say (m := .bye bye) (hG.frame rfl rfl rfl rfl) hopen hne hbye (by simp) rfl rfl
    (.leaving (Or.inr rfl))

/-- A process that dies leaves behind what it has sent. -/
theorem Inv.die {n : ℕ} (h : Inv s₀ n w) (hs : (w.proc i).stage ≠ .unborn) :
    Inv s₀ n (w.set i { w.proc i with stage := .gone }) := by
  apply h.set
  cases h.standing i with
  | unborn proc backlog peer => exact absurd (by rw [proc]) hs
  | waiting rest backlog peer proper reply bytes waits =>
      refine .waiting rest backlog peer ?_ ?_ ?_ (.gone ?_)
      all_goals rw [World.set_self]
      · exact proper
      · exact reply
      · exact bytes
  | dropped backlog peer stage =>
      refine .dropped backlog peer (Or.inl ?_)
      rw [World.set_self]
  | holds ms todo rest backlog holds client =>
      refine .holds ms todo rest backlog holds ?_
      rw [World.set_self]
      exact ⟨client.said, client.proper, client.serves, client.bytes, client.front,
        client.opened, .leaving (Or.inl rfl)⟩

/-! ## §7  The steps of the server -/

theorem Standing.of_holds (h : Standing s₀ w i) (hh : w.Holds i) :
    ∃ ms todo rest, i ∉ w.backlog ∧ Guest s₀ w (w.proc i) ms todo rest := by
  cases h with
  | unborn proc backlog peer => exact absurd hh.1 peer
  | waiting rest backlog peer proper reply bytes waits => exact absurd hh.1 peer
  | holds ms todo rest backlog holds client => exact ⟨ms, todo, rest, backlog, client⟩
  | dropped backlog peer stage => exact absurd hh peer

/-- The server has hung up only on a client that has gone. -/
theorem Guest.gone {p : Process} {ms todo : List Message} {rest : List UInt8}
    (h : Guest s₀ w p ms todo rest) (hclosed : ¬ w.channel.session.IsOpen) :
    p.stage = .gone ∧ todo = [] ∧ w.channel.unread = [] ∧ p.line = [] := by
  obtain ⟨rfl, v, hv⟩ := h.opened.resolve_left hclosed
  have hbytes := h.bytes
  simp only [encodeAll_nil, List.append_eq_nil_iff] at hbytes
  obtain ⟨⟨hunread, hline⟩, rfl⟩ := hbytes
  refine ⟨?_, rfl, hunread, hline⟩
  have hsaid : .bye v ∈ p.said := by
    rw [h.said]
    exact List.mem_append_left _ hv
  have hdoing := h.doing
  cases hdoing with
  | greeting cap buf stage said short reply =>
      rw [said] at hsaid
      cases List.mem_singleton.mp hsaid
  | painting c stage mapped said bye => exact absurd hsaid (bye v)
  | leaving stage =>
      rcases stage with stage | stage
      · exact stage
      · simpa [Stage.send] using stage

theorem Guest.standing {ms todo : List Message} {rest : List UInt8} (hb : i ∉ w.backlog)
    (hpeer : w.peer = some i) (h : Guest s₀ w (w.proc i) ms todo rest) : Standing s₀ w i := by
  by_cases hsocket : w.server.socket = none
  · refine .dropped hb (fun hh => hh.2 hsocket) (Or.inl (h.gone ?_).1)
    rintro ⟨u, hu⟩
    exact absurd (hu.symm.trans hsocket) (by simp)
  · exact .holds ms todo rest hb ⟨hpeer, hsocket⟩ h

theorem acksIn_behind {s t : Session} {mark : ℕ} {ms done : List Message}
    (hs : Serves s₀ mark s ms) (ht : Serves s₀ mark t (ms ++ done)) (hlog : s.log <+: t.log) :
    acksIn (t.log.drop s.log.length) = replies s₀ done := by
  obtain ⟨l, hl⟩ := hlog
  have hreplied := ht.replied
  rw [← hl, List.drop_append_of_le_length hs.mark_le, TestClient.acksIn_append, hs.replied,
    replies_append] at hreplied
  rw [← hl, List.drop_left' rfl]
  exact List.append_cancel_left hreplied

/-- What the read loop makes of the bytes that have arrived. -/
theorem Guest.arrive {p : Process} {ms todo : List Message} {rest : List UInt8} {k n : ℕ}
    {clock : ℕ → ℤ} {r : Session × List UInt8 × Bool} (h : Guest s₀ w p ms todo rest)
    (hr : (reader clock).drain k w.channel.session (w.channel.unread ++ p.line.take n) = some r) :
    ∃ ms' todo', Guest s₀ { w with
        channel := ⟨r.1, r.2.1⟩
        outbox := w.outbox ++ (acksIn (r.1.log.drop w.channel.session.log.length)).flatMap
          HelloAckS2C.encode }
      { p with line := p.line.drop n } ms' todo' rest ∧ Steady s₀ r.1.server ∧ InStep r.1 := by
  by_cases hopen : w.channel.session.IsOpen
  · have hb : (w.channel.unread ++ p.line.take n) ++ (p.line.drop n ++ rest)
        = encodeAll todo := by
      rw [List.append_assoc, ← List.append_assoc (p.line.take n), List.take_append_drop,
        ← List.append_assoc]
      exact h.bytes
    obtain ⟨done, todo', hS, hfront, hend⟩ :=
      h.serves.drain hopen (by rw [← h.said]; exact h.proper) hb hr
    refine ⟨ms ++ done, todo', ⟨?_, h.proper, hS.serves, ?_, hfront, ?_, ?_⟩,
      hS.serves.steady, hS.serves.inStep⟩
    · rw [h.said, hS.split, List.append_assoc]
    · rw [List.append_assoc]
      exact hS.bytes
    · rcases hend with ho | ⟨hnil, v, hv⟩
      · exact Or.inl ho
      · exact Or.inr ⟨hnil, v, List.mem_append_right _ hv⟩
    · have hdoing := h.doing
      cases hdoing with
      | greeting cap buf stage said short reply =>
          refine .greeting cap buf stage said short ?_
          simp only
          rw [acksIn_behind h.serves hS.serves hS.log, replies_append, List.flatMap_append,
            ← reply, List.append_assoc]
          simp
      | painting c stage mapped said bye => exact .painting c stage mapped said bye
      | leaving stage => exact .leaving stage
  -- nothing comes behind a Bye
  · obtain ⟨hstage, -, hunread, hline⟩ := h.gone hopen
    rw [hunread, hline, List.take_nil, List.append_nil] at hr
    have hwait : (reader clock).look w.channel.session [] = .wait := by
      show w.channel.session.look clock [] = .wait
      unfold Session.look
      split
      · rfl
      · rw [front_nil]
    obtain rfl := Reader.drain_unique (Reader.drain_wait (k := 0) hwait) hr
    refine ⟨ms, todo, ⟨h.said, h.proper, h.serves, ?_, front_nil, h.opened,
      .leaving (Or.inl hstage)⟩, h.serves.steady, h.serves.inStep⟩
    have hbytes := h.bytes
    rw [hunread, hline] at hbytes
    simpa [hline] using hbytes

theorem Inv.arrive {N : ℕ} (h : Inv s₀ N w) (hi : w.Holds i) (clock : ℕ → ℤ) (n : ℕ) :
    ∃ w', (w.set i { w.proc i with line := (w.proc i).line.drop n }).happen clock
        (.bytes ((w.proc i).line.take n)) = some w' ∧ Inv s₀ N w' ∧ w'.peer = some i ∧
      w'.proc i = { w.proc i with line := (w.proc i).line.drop n } ∧
      ∃ ms todo rest, Guest s₀ w' (w'.proc i) ms todo rest := by
  obtain ⟨ms, todo, rest, hb, hG⟩ := (h.standing i).of_holds hi
  obtain ⟨r, hr⟩ := onSocketReadyRead_total clock w.channel.session
    (w.channel.unread ++ (w.proc i).line.take n)
  obtain ⟨ms', todo', hG', hsteady, hin⟩ := hG.arrive hr
  have hread : onSocketReadyRead clock (w.set i { w.proc i with
      line := (w.proc i).line.drop n }).channel.session ((w.set i { w.proc i with
      line := (w.proc i).line.drop n }).channel.unread ++ (w.proc i).line.take n) = some r := hr
  refine ⟨{ w.set i { w.proc i with line := (w.proc i).line.drop n } with
      channel := ⟨r.1, r.2.1⟩
      outbox := w.outbox ++ (acksIn (r.1.log.drop w.channel.session.log.length)).flatMap
        HelloAckS2C.encode }, ?_, ?_, hi.1, w.set_self i _, ms', todo', rest, ?_⟩
  · simp only [World.happen, Qtfb.happen, hread]
    rfl
  rotate_left
  · simp only [World.set, Function.update_self]
    exact hG'.frame rfl rfl rfl rfl
  refine ⟨hsteady, h.picture, hin, h.nodup, fun hnone => ?_, fun j => ?_⟩
  · exact absurd (hi.1.symm.trans hnone) (by simp)
  by_cases hj : j = i
  · subst hj
    refine Guest.standing hb hi.1 (?_ : Guest s₀ _ _ ms' todo' rest)
    simp only [World.set, Function.update_self]
    exact hG'.frame rfl rfl rfl rfl
  · refine (h.standing j).elsewhere (w.set_other hj _) Iff.rfl ?_ ?_
    · exact fun hh => hj (Option.some.inj (hh.1.symm.trans hi.1))
    · exact fun hh => hj (Option.some.inj (hh.symm.trans hi.1))

theorem flush_none {s : Session} (h : s.server.socket = none) : s.flush = s := by
  unfold Session.flush
  rw [h]

theorem flush_open {s : Session} (h : s.IsOpen) :
    s.flush = { s with server := { s.server with socket := some ⟨false, false⟩ } } := by
  obtain ⟨u, hu⟩ := h
  unfold Session.flush
  rw [hu]
  rfl

/-- A socket that is closing is gone behind the flush. -/
theorem flush_closing {s : Session} (h : ¬ s.IsOpen) :
    s.flush.server.socket = none ∧ Steady s.server s.flush.server := by
  unfold Session.flush
  split
  · next hs => exact ⟨hs, ⟨rfl, rfl, rfl, rfl, rfl, rfl⟩⟩
  · next k hs =>
      split
      · exact ⟨rfl, ⟨rfl, rfl, rfl, rfl, rfl, rfl⟩⟩
      · next hc =>
          refine absurd ⟨k.unsent, ?_⟩ h
          rw [hs]
          simp only [Bool.not_eq_true] at hc
          rw [← hc]

theorem Steady.trans {s₁ s₂ : Server} (h : Steady s₀ s₁) (h' : Steady s₁ s₂) : Steady s₀ s₂ :=
  ⟨h'.w.trans h.w, h'.h.trans h.h, h'.stride.trans h.stride, h'.bpp.trans h.bpp,
    h'.format.trans h.format, h'.shmName.trans h.shmName⟩

theorem Serves.flush {mark : ℕ} {s : Session} {ms : List Message}
    (h : Serves s₀ mark s ms) (hopen : s.IsOpen) : Serves s₀ mark s.flush ms := by
  have hin := h.inStep.flush
  rw [flush_open hopen] at hin ⊢
  exact ⟨hin, h.steady.socket _, h.mark_le, h.handled, h.replied, h.greeted, h.closed⟩

/-- The log of a flush holds no reply. -/
theorem flush_acks (s : Session) : acksIn (s.flush.log.drop s.log.length) = [] := by
  unfold Session.flush
  split
  · simp [acksIn]
  · split
    · simp [acksIn]
    · simp [acksIn]

/-- What has been written reaches the client. -/
theorem Guest.flush {p : Process} {ms todo : List Message} {rest : List UInt8} {c : Channel}
    (h : Guest s₀ w p ms todo rest) (hopen : w.channel.session.IsOpen)
    (hc : c = { w.channel with session := w.channel.session.flush }) :
    Guest s₀ { w with channel := c, outbox := [] } { p with reply := p.reply ++ w.outbox }
      ms todo rest := by
  subst hc
  refine ⟨h.said, h.proper, h.serves.flush hopen, h.bytes, h.front,
    Or.inl (flush_isOpen.mpr hopen), ?_⟩
  have hdoing := h.doing
  cases hdoing with
  | greeting cap buf stage said short reply =>
      refine .greeting cap buf stage said short ?_
      rw [List.append_nil, ← List.append_assoc]
      exact reply
  | painting c stage mapped said bye => exact .painting c stage mapped said bye
  | leaving stage => exact .leaving stage

theorem happen_flush (clock : ℕ → ℤ) (w : World) : w.happen clock .flush = some { w with
    channel := { w.channel with session := w.channel.session.flush } } := by
  simp [World.happen, Qtfb.happen, flush_acks]

/-- The reply goes to the server's client. -/
theorem Inv.flush_holds {N : ℕ} (h : Inv s₀ N w) (hi : w.Holds i) :
    Inv s₀ N { w.set i { w.proc i with reply := (w.proc i).reply ++ w.outbox } with
      channel := { w.channel with session := w.channel.session.flush }
      outbox := [] } := by
  obtain ⟨ms, todo, rest, hb, hG⟩ := (h.standing i).of_holds hi
  have hsteady : Steady s₀ w.channel.session.flush.server := by
    by_cases hopen : w.channel.session.IsOpen
    · exact (hG.serves.flush hopen).steady
    · exact hG.serves.steady.trans (flush_closing hopen).2
  refine ⟨hsteady, h.picture, h.inStep.flush, h.nodup, fun hnone => ?_, fun j => ?_⟩
  · exact absurd (hi.1.symm.trans hnone) (by simp)
  by_cases hj : j = i
  · subst hj
    by_cases hopen : w.channel.session.IsOpen
    · refine Guest.standing hb hi.1 (?_ : Guest s₀ _ _ ms todo rest)
      simp only [World.set, Function.update_self]
      exact (hG.flush hopen rfl).frame rfl rfl rfl rfl
    · refine .dropped hb (fun hh => hh.2 (flush_closing hopen).1) (Or.inl ?_)
      simp only [World.set, Function.update_self]
      exact (hG.gone hopen).1
  · refine (h.standing j).elsewhere (w.set_other hj _) Iff.rfl ?_ ?_
    · exact fun hh => hj (Option.some.inj (hh.1.symm.trans hi.1))
    · exact fun hh => hj (Option.some.inj (hh.symm.trans hi.1))

theorem step_arrive (hi : w.Holds i) (clock : ℕ → ℤ) (env : ℕ → Environ) (n : ℕ) :
    step clock env w (.arrive n) = (w.set i { w.proc i with
      line := (w.proc i).line.drop n }).happen clock (.bytes ((w.proc i).line.take n)) := by
  simp only [step, hi.1]
  rw [if_pos hi]

theorem step_flush (hi : w.Holds i) (clock : ℕ → ℤ) (env : ℕ → Environ) :
    step clock env w .flush = some { w.set i { w.proc i with
        reply := (w.proc i).reply ++ w.outbox } with
      channel := { w.channel with session := w.channel.session.flush }
      outbox := [] } := by
  simp only [step, happen_flush, Option.bind_eq_bind, Option.bind_some]
  split
  · next j hj =>
      obtain rfl := Option.some.inj (hi.1.symm.trans hj)
      rw [if_pos hi]
      rfl
  · next hj => exact absurd (hi.1.symm.trans hj) (by simp)

theorem Inv.flush {N : ℕ} (h : Inv s₀ N w) (clock : ℕ → ℤ) (env : ℕ → Environ) :
    ∃ w', step clock env w .flush = some w' ∧ Inv s₀ N w' := by
  by_cases hs : w.server.socket = none
  · have hsame : w.happen clock .flush = some w := by
      rw [happen_flush, flush_none hs]
    refine ⟨w, ?_, h⟩
    simp only [step, hsame, Option.bind_eq_bind, Option.bind_some]
    split
    · rw [if_neg fun hh => hh.2 hs]
      rfl
    · rfl
  · obtain ⟨i, hpeer⟩ := Option.ne_none_iff_exists'.mp fun hn => hs (h.idle hn)
    exact ⟨_, step_flush ⟨hpeer, hs⟩ clock env, h.flush_holds ⟨hpeer, hs⟩⟩

theorem Inv.hangup {N : ℕ} (h : Inv s₀ N w) (clock : ℕ → ℤ) (hpeer : w.peer = some i)
    (hs : (w.proc i).stage = .gone) :
    ∃ w', w.happen clock .hangup = some w' ∧ Inv s₀ N w' := by
  refine ⟨_, rfl, ?_⟩
  have hserver : (onSocketDisconnected w.channel).session.server.socket = none ∧
      Steady w.server (onSocketDisconnected w.channel).session.server := by
    unfold Qtfb.onSocketDisconnected
    split
    · next hn => exact ⟨hn, ⟨rfl, rfl, rfl, rfl, rfl, rfl⟩⟩
    · exact ⟨rfl, ⟨rfl, rfl, rfl, rfl, rfl, rfl⟩⟩
  refine ⟨h.steady.trans hserver.2, h.picture, h.inStep.hangup, h.nodup, fun _ => hserver.1,
    fun j => ?_⟩
  by_cases hj : w.peer = some j
  · obtain rfl := Option.some.inj (hpeer.symm.trans hj)
    have hb : i ∉ w.backlog := by
      cases h.standing i with
      | unborn proc backlog peer => exact backlog
      | waiting rest backlog peer proper reply bytes waits => exact absurd hpeer peer
      | holds ms todo rest backlog holds client => exact backlog
      | dropped backlog peer stage => exact backlog
    exact .dropped hb (fun hh => hh.2 hserver.1) (Or.inl hs)
  · exact (h.standing j).elsewhere rfl Iff.rfl (fun hh => hj hh.1) hj

/-- The server takes a connection. -/
theorem Waits.guest {p : Process} {rest : List UInt8} (hsteady : Steady s₀ w.server)
    (hin : InStep w.channel.session) (hsocket : w.server.socket = none) (hp : Proper p.said)
    (hreply : p.reply = []) (hbytes : p.line ++ rest = encodeAll p.said) (h : Waits p rest) :
    Guest s₀ { w with
        channel := onNewConnection w.channel
        outbox := []
        mark := w.channel.session.log.length } p [] p.said rest := by
  have hlog : (onNewConnection w.channel).session.log
      = w.channel.session.log ++ [.emitted .clientConnected] := by
    unfold World.server at hsocket
    simp [onNewConnection, hsocket]
  have hserver : (onNewConnection w.channel).session.server
      = { w.server with socket := some ⟨false, false⟩ } := by
    unfold World.server at hsocket ⊢
    simp [onNewConnection, hsocket]
  have hunread : (onNewConnection w.channel).unread = [] := by
    unfold World.server at hsocket
    simp [onNewConnection, hsocket]
  refine ⟨rfl, hp, ⟨hin.connect, ?_, ?_, ?_, ?_, fun hne => absurd rfl hne, ?_⟩, ?_, ?_,
    Or.inl ⟨false, by rw [hserver]⟩, ?_⟩
  · rw [hserver]
    exact hsteady.socket _
  · simp [hlog]
  · simp [hlog, handledIn]
  · simp [hlog, acksIn, replies]
  · simp [hlog]
  · simpa [hunread] using hbytes
  · rw [hunread]
    rfl
  · cases h with
    | greeting cap stage said =>
        exact .greeting cap [] stage said (by decide) (by simp [hreply, replies])
    | gone stage => exact .leaving (Or.inl stage)

theorem accept_none (clock : ℕ → ℤ) (hs : w.server.socket = none) :
    accept clock w i = some { w with
      channel := onNewConnection w.channel
      outbox := []
      peer := some i
      mark := w.channel.session.log.length } := by
  have hacks : acksIn ((onNewConnection w.channel).session.log.drop
      w.channel.session.log.length) = [] := by
    unfold World.server at hs
    simp [onNewConnection, hs, acksIn]
  unfold accept
  rw [if_pos hs]
  simp [World.happen, Qtfb.happen, hacks]

/-- The server refuses a connection. -/
theorem accept_some (clock : ℕ → ℤ) (hs : w.server.socket ≠ none) :
    accept clock w i = some w := by
  obtain ⟨k, hk⟩ := Option.ne_none_iff_exists'.mp hs
  have hsame : onNewConnection w.channel = w.channel := by
    unfold World.server at hk
    simp [onNewConnection, hk]
  unfold accept
  rw [if_neg hs]
  simp [World.happen, Qtfb.happen, hsame, acksIn]

theorem Inv.newConnection {N : ℕ} {rest : List ℕ} (h : Inv s₀ N w) (clock : ℕ → ℤ)
    (hb : w.backlog = i :: rest) :
    ∃ w', accept clock { w with backlog := rest } i = some w' ∧ Inv s₀ N w' := by
  obtain ⟨hi, hrest⟩ := List.nodup_cons.mp (hb ▸ h.nodup)
  have hmem : ∀ j, j ≠ i → (j ∈ rest ↔ j ∈ w.backlog) := by
    intro j hj
    simp [hb, hj]
  have hfirst : i ∈ w.backlog := by simp [hb]
  obtain ⟨left, peer, proper, reply, bytes, waits⟩ : ∃ left, w.peer ≠ some i ∧
      Proper (w.proc i).said ∧ (w.proc i).reply = [] ∧
      (w.proc i).line ++ left = encodeAll (w.proc i).said ∧ Waits (w.proc i) left := by
    cases h.standing i with
    | unborn proc backlog peer => exact absurd hfirst backlog
    | waiting left backlog peer proper reply bytes waits =>
        exact ⟨left, peer, proper, reply, bytes, waits⟩
    | holds ms todo rest backlog holds client => exact absurd hfirst backlog
    | dropped backlog peer stage => exact absurd hfirst backlog
  by_cases hs : w.server.socket = none
  · refine ⟨_, accept_none (w := { w with backlog := rest }) clock hs, ?_⟩
    have hG := waits.guest h.steady h.inStep hs proper reply bytes
    refine ⟨hG.serves.steady, h.picture, hG.serves.inStep, hrest,
      fun hnone => absurd hnone (by simp), fun j => ?_⟩
    by_cases hj : j = i
    · subst hj
      exact Guest.standing hi rfl (hG.frame rfl rfl rfl rfl)
    · exact (h.standing j).elsewhere rfl (hmem j hj) (fun hh => hh.2 hs)
        fun hh => hj (Option.some.inj hh).symm
  · refine ⟨_, accept_some (w := { w with backlog := rest }) clock hs, ?_⟩
    refine ⟨h.steady, h.picture, h.inStep, hrest, h.idle, fun j => ?_⟩
    by_cases hj : j = i
    · subst hj
      refine .dropped hi (fun hh => peer hh.1) ?_
      cases waits with
      | greeting cap stage said => exact Or.inr ⟨reply, left, stage⟩
      | gone stage => exact Or.inl stage
    · exact (h.standing j).frame rfl (hmem j hj) rfl rfl rfl rfl rfl

end Standing

/-! ## §8  Runs -/

section Runs

variable {s₀ : Server} {n : ℕ} {w w' : World} {clock : ℕ → ℤ} {env : ℕ → Environ}

/-- A cursor position of which something is taken is taken whole. -/
theorem cursor_taken {i : ℕ} {x y cw ch : ℤ} {visible : Bool} {answer : Option Answer}
    {m : CursorC2S} (hm : TakenWhole w (.cursorPos i x y cw ch visible answer))
    (hne : sendDontWait answer (packed (.cursor m)) ≠ []) :
    sendDontWait answer (packed (.cursor m)) = packed (.cursor m) := by
  cases answer with
  | none => exact absurd rfl hne
  | some a =>
      cases a with
      | eintr => exact absurd rfl hne
      | took k =>
          have hlen : (packed (.cursor m)).length ≤ 28 := words_length _ |>.le
          rcases hm with rfl | hk
          · exact absurd rfl hne
          · exact List.take_of_length_le (hlen.trans hk)

/-- **Step lemma.** -/
theorem Inv.step {m : Move} (hR : Ready s₀ n) (h : Inv s₀ n w) (hm : TakenWhole w m)
    (hstep : step clock env w m = some w') : Inv s₀ n w' := by
  cases m with
  | launch i =>
      simp only [Vncast.step] at hstep
      split at hstep
      · next hs =>
          obtain rfl := Option.some.inj hstep
          exact h.launch hs
      · cases hstep
  | newConnection =>
      simp only [Vncast.step] at hstep
      split at hstep
      · next i rest hb =>
          obtain ⟨u, hu, hI⟩ := h.newConnection clock hb
          obtain rfl := Option.some.inj (hu.symm.trans hstep)
          exact hI
      · cases hstep
  | sent i k =>
      simp only [Vncast.step] at hstep
      split at hstep
      · next rest next hs =>
          split at hstep
          · next hl =>
              obtain rfl := Option.some.inj hstep
              exact h.sent hs hl.1
          · cases hstep
      · cases hstep
  | arrive k =>
      simp only [Vncast.step] at hstep
      split at hstep
      · next i hi =>
          split at hstep
          · next hh =>
              obtain ⟨u, hu, hI, -⟩ := h.arrive hh clock k
              obtain rfl := Option.some.inj (hu.symm.trans hstep)
              exact hI
          · cases hstep
      · cases hstep
  | flush =>
      obtain ⟨u, hu, hI⟩ := h.flush clock env
      obtain rfl := Option.some.inj (hu.symm.trans hstep)
      exact hI
  | recv i k =>
      simp only [Vncast.step] at hstep
      split at hstep
      · next buf hs =>
          split at hstep
          · cases hstep
          · next hne =>
              obtain rfl := Option.some.inj hstep
              exact h.recv hR hs (env i) rfl hne
      · cases hstep
  | draw i shadow =>
      simp only [Vncast.step] at hstep
      split at hstep
      · next c hs =>
          split at hstep
          · next hlen =>
              obtain rfl := Option.some.inj hstep
              exact h.draw hs hlen
          · cases hstep
      · cases hstep
  | partialUpdate i r =>
      simp only [Vncast.step] at hstep
      split at hstep
      · next c hs =>
          obtain ⟨c', m, hsend, hI⟩ := h.update hs r
          simp only [hsend, Option.bind_eq_bind, Option.bind_some] at hstep
          obtain rfl := Option.some.inj hstep
          exact hI
      · cases hstep
  | cursorPos i x y cw ch visible answer =>
      simp only [Vncast.step] at hstep
      split at hstep
      · next c hs =>
          obtain ⟨hI, hI'⟩ := h.cursor hs x y cw ch visible
          split at hstep
          · next c' hc =>
              obtain rfl := Option.some.inj hstep
              rw [hc] at hI
              exact hI
          · next c' m hc =>
              rw [hc] at hI hI'
              split at hstep
              · obtain rfl := Option.some.inj hstep
                exact hI
              · next hne =>
                  split at hstep
                  · obtain rfl := Option.some.inj hstep
                    have hwhole := cursor_taken hm hne
                    rw [hwhole]
                    exact hI' m
                  · cases hstep
      · cases hstep
  | destroy i =>
      simp only [Vncast.step] at hstep
      split at hstep
      · next c hs =>
          obtain rfl := Option.some.inj hstep
          exact h.destroy hs
      · cases hstep
  | die i =>
      simp only [Vncast.step] at hstep
      split at hstep
      · cases hstep
      · next hs =>
          obtain rfl := Option.some.inj hstep
          exact h.die hs
  | hangup =>
      simp only [Vncast.step] at hstep
      split at hstep
      · next i hi =>
          split at hstep
          · next hs =>
              obtain ⟨u, hu, hI⟩ := h.hangup clock hi hs
              obtain rfl := Option.some.inj (hu.symm.trans hstep)
              exact hI
          · cases hstep
      · cases hstep

theorem Inv.start {s : Server} {file : List UInt8} (hs : s.socket = none) :
    Inv s file.length (World.start s file) where
  steady := ⟨rfl, rfl, rfl, rfl, rfl, rfl⟩
  picture := rfl
  inStep := ⟨trivial, fun k hk => by
    rw [show (World.start s file).channel.session.server.socket = s.socket from rfl, hs] at hk
    cases hk⟩
  nodup := List.nodup_nil
  idle := fun _ => hs
  standing i := .unborn rfl List.not_mem_nil (by simp [World.start])

/-- **Run lemma.** -/
theorem inv_run {s : Server} {file : List UInt8} {moves : List Move}
    (hR : Ready s file.length) (hs : s.socket = none)
    (hwhole : EveryStep (step clock env) TakenWhole (World.start s file) moves)
    (hrun : run (step clock env) (World.start s file) moves = some w) :
    Inv s file.length w :=
  run_keeps (Inv s file.length) (fun _ _ _ hI hm hstep => hI.step hR hm hstep)
    (Inv.start hs) hwhole hrun

theorem Inv.paints {i : ℕ} (h : Inv s₀ n w) (hp : (w.proc i).stage.Paints) :
    w.peer = some i ∧ w.channel.session.IsOpen := by
  cases h.standing i with
  | unborn proc backlog peer =>
      rw [proc] at hp
      exact hp.elim
  | waiting rest backlog peer proper reply bytes waits =>
      cases waits with
      | greeting cap stage said =>
          rw [stage] at hp
          unfold Stage.send at hp
          split at hp <;> exact hp.elim
      | gone stage =>
          rw [stage] at hp
          exact hp.elim
  | dropped backlog peer stage =>
      rcases stage with stage | ⟨-, rest, stage⟩
      · rw [stage] at hp
        exact hp.elim
      · rw [stage] at hp
        unfold Stage.send at hp
        split at hp <;> exact hp.elim
  | holds ms todo rest backlog holds client =>
      refine ⟨holds.1, ?_⟩
      by_contra hclosed
      rw [(client.gone hclosed).1] at hp
      exact hp.elim

end Runs

theorem start_fields {sys : System} {info : DeviceInfo} {gray : Bool} {name file : List UInt8}
    {s : Server} (h : Qtfb.start sys info gray name = some (s, file)) :
    s.shmName = name ∧ s.socket = none := by
  unfold Qtfb.start at h
  obtain ⟨shm, -, h⟩ := Option.bind_eq_some_iff.mp h
  split at h
  · obtain ⟨rfl, -⟩ := Prod.mk.inj (Option.some.inj h)
    exact ⟨rfl, rfl⟩
  · cases h

theorem ready_of_start {sys : System} {info : DeviceInfo} {gray : Bool}
    {name file : List UInt8} {s : Server} (hmaps : ∀ n, sys.maps n → 0 < n ∧ n < 2 ^ 63)
    (hname : name.length ≤ 64 ∧ 0 ∉ name)
    (hstart : Qtfb.start sys info gray name = some (s, file))
    (hfits : (handleHello s (hello 0)).2.1.Fits) : Ready s file.length := by
  obtain ⟨hshm, -⟩ := start_fields hstart
  have hS := started_of_start hmaps hstart
  refine ⟨fun file' hlen => ?_, hfits, by rw [hshm]; exact hname.1, by rw [hshm]; exact hname.2⟩
  exact ⟨hS.stride_int, hS.h_int, hS.format, hlen.trans hS.length,
    by rw [hlen]; exact hS.length_pos,
    by rw [hlen]; exact hS.length_lt⟩

section Main

variable {sys : System} {info : DeviceInfo} {gray : Bool} {name file : List UInt8} {s : Server}
  {w : World} {moves : List Move}

/-- **At most one process paints**: from the accepted reply to the Bye its
connection is the server's, which keeps it open. And whatever rectangle it is
given, its blit stays inside its shadow and the shared picture. -/
theorem one_painter (hmaps : ∀ n, sys.maps n → 0 < n ∧ n < 2 ^ 63)
    (hname : name.length ≤ 64 ∧ 0 ∉ name)
    (hstart : Qtfb.start sys info gray name = some (s, file))
    (hfits : (handleHello s (hello 0)).2.1.Fits) (clock : ℕ → ℤ) (env : ℕ → Environ)
    (hwhole : EveryStep (step clock env) TakenWhole (World.start s file) moves)
    (hrun : run (step clock env) (World.start s file) moves = some w) :
    (∀ i, (w.proc i).stage.Paints → w.peer = some i ∧ w.channel.session.IsOpen) ∧
    (∀ i j, (w.proc i).stage.Paints → (w.proc j).stage.Paints → i = j) ∧
    ∀ i c r, (w.proc i).stage = .serving c →
      ∃ w', step clock env w (.partialUpdate i r) = some w' := by
  have hI := inv_run (ready_of_start hmaps hname hstart hfits) (start_fields hstart).2 hwhole hrun
  refine ⟨fun i hi => hI.paints hi, fun i j hi hj => ?_, fun i c r hc => ?_⟩
  · exact Option.some.inj ((hI.paints hi).1.symm.trans (hI.paints hj).1)
  · obtain ⟨c', m, hsend, -⟩ := hI.update hc r
    exact ⟨_, by simp only [step, hc, hsend]; rfl⟩

/-- What the server has made of its client, short of the pixels. -/
structure ReadAsSent (w : World) (i : ℕ) : Prop where
  /-- What has been handled was said, in this order and with these fields. -/
  handled : handledIn (w.channel.session.log.drop w.mark) <+: (w.proc i).said
  /-- Nothing is left out once all of it has arrived. -/
  all : (w.proc i).line = [] → (w.proc i).stage ≠ .gone →
    (∀ rest next, (w.proc i).stage ≠ .sendAll rest next) →
    handledIn (w.channel.session.log.drop w.mark) = (w.proc i).said
  front : front w.channel.unread = .short
  /-- The server hangs up for a Bye only. -/
  closed : .closed ∈ w.channel.session.log.drop w.mark →
    ∃ v, .bye v ∈ handledIn (w.channel.session.log.drop w.mark)

theorem todo_nil {b : List UInt8} {todo : List Message} (hb : b = encodeAll todo)
    (hfront : Qtfb.front b = .short) : todo = [] := by
  cases todo with
  | nil => rfl
  | cons m todo =>
      rw [hb, encodeAll_cons, front_encode] at hfront
      cases hfront

theorem Guest.rest_nil {s₀ : Server} {p : Process} {ms todo : List Message} {rest : List UInt8}
    (h : Guest s₀ w p ms todo rest) (hgone : p.stage ≠ .gone)
    (hsend : ∀ rest next, p.stage ≠ .sendAll rest next) : rest = [] := by
  have hnot : ∀ next, p.stage = .send rest next → rest = [] := by
    intro next hs
    by_contra hne
    exact hsend rest next (hs.trans (if_neg hne))
  have hdoing := h.doing
  cases hdoing with
  | greeting cap buf stage said short reply => exact hnot _ stage
  | painting c stage mapped said bye => exact hnot _ stage
  | leaving stage =>
      rcases stage with stage | stage
      · exact absurd stage hgone
      · exact hnot _ stage

theorem Guest.readAsSent {s₀ : Server} {i : ℕ} {ms todo : List Message} {rest : List UInt8}
    (h : Guest s₀ w (w.proc i) ms todo rest) : ReadAsSent w i where
  handled := by
    rw [h.serves.handled, h.said]
    exact List.prefix_append _ _
  all := by
    intro hline hgone hsend
    have hbytes := h.bytes
    rw [hline, h.rest_nil hgone hsend, List.append_nil, List.append_nil] at hbytes
    rw [h.serves.handled, h.said, todo_nil hbytes h.front, List.append_nil]
  front := h.front
  closed := by
    rw [h.serves.handled]
    exact h.serves.closed

/-- **The server reads what its client has said**: in order, unchanged and, once
it has arrived, completely. It never comes across a header it has to close for,
and its log is gated. -/
theorem read_as_sent (hmaps : ∀ n, sys.maps n → 0 < n ∧ n < 2 ^ 63)
    (hname : name.length ≤ 64 ∧ 0 ∉ name)
    (hstart : Qtfb.start sys info gray name = some (s, file))
    (hfits : (handleHello s (hello 0)).2.1.Fits) (clock : ℕ → ℤ) (env : ℕ → Environ)
    (hwhole : EveryStep (step clock env) TakenWhole (World.start s file) moves)
    (hrun : run (step clock env) (World.start s file) moves = some w) :
    Gated w.channel.session.log ∧ ∀ i, w.Holds i → ReadAsSent w i := by
  have hI := inv_run (ready_of_start hmaps hname hstart hfits) (start_fields hstart).2 hwhole hrun
  refine ⟨hI.inStep.gated, fun i hi => ?_⟩
  obtain ⟨ms, todo, rest, -, hG⟩ := (hI.standing i).of_holds hi
  exact hG.readAsSent

/-- Moves that bring what is under way between the process and the server to
where it goes. -/
def Move.Delivers (i : ℕ) : Move → Prop
  | .sent j _ | .recv j _ => j = i
  | .arrive _ | .flush => True
  | _ => False

/-- The last part of the handshake: everything has been sent. -/
theorem Inv.greeted {s₀ : Server} {n i : ℕ} {buf : List UInt8} (hR : Ready s₀ n)
    (h : Inv s₀ n w) (hi : w.Holds i)
    (hs : (w.proc i).stage = .recvAll buf) (clock : ℕ → ℤ) (env : ℕ → Environ) :
    ∃ w' c, run (Vncast.step clock env) w
        [Move.arrive (w.proc i).line.length, Move.flush, Move.recv i ackSize] = some w' ∧
      (w'.proc i).stage = .serving c := by
  obtain ⟨w₁, hw₁, hI₁, hpeer₁, hproc₁, ms, todo, rest, hG⟩ :=
    h.arrive hi clock (w.proc i).line.length
  have hs₁ : (w₁.proc i).stage = .recvAll buf := by rw [hproc₁, hs]
  have hline₁ : (w₁.proc i).line = [] := by
    rw [hproc₁]
    exact List.drop_length
  have hopen₁ : w₁.channel.session.IsOpen := by
    by_contra hclosed
    exact absurd (hs₁.symm.trans (hG.gone hclosed).1) (by simp)
  have hholds₁ : w₁.Holds i := by
    obtain ⟨u, hu⟩ := hopen₁
    exact ⟨hpeer₁, fun hnone => absurd (hu.symm.trans hnone) (by simp)⟩
  -- the HELLO has been read, and its reply is under way
  have hrest := hG.rest_nil (by simp [hs₁]) (by simp [hs₁])
  have hbytes := hG.bytes
  rw [hline₁, hrest, List.append_nil, List.append_nil] at hbytes
  have htodo := todo_nil hbytes hG.front
  obtain ⟨cap, hshort, hreply⟩ : ∃ cap, buf.length < ackSize ∧
      buf ++ ((w₁.proc i).reply ++ w₁.outbox) = (handleHello s₀ (hello cap)).2.1.encode := by
    have hdoing := hG.doing
    cases hdoing with
    | painting c stage mapped said bye => simp [stage] at hs₁
    | leaving stage => rcases stage with stage | stage <;> simp [stage] at hs₁
    | greeting cap buf' stage said short reply =>
        simp only [stage, send_eq_recvAll, Stage.recvAll.injEq] at hs₁
        obtain ⟨-, rfl⟩ := hs₁
        have hms := hG.said
        rw [said, htodo, List.append_nil] at hms
        refine ⟨cap, short, ?_⟩
        rw [← List.append_assoc, reply, ← hms]
        simp [replies]
  have hI₂ := hI₁.flush_holds hholds₁
  obtain ⟨c, hc, -⟩ := recvd_reply hR hI₂ (env i) cap
  have hlen : buf.length + ((w₁.proc i).reply ++ w₁.outbox).length = ackSize := by
    rw [← List.length_append, hreply, encode_length]
  have htake : ((w₁.proc i).reply ++ w₁.outbox).take (min ackSize (ackSize - buf.length))
      = (w₁.proc i).reply ++ w₁.outbox := by
    apply List.take_of_length_le
    omega
  have hne : (w₁.proc i).reply ++ w₁.outbox ≠ [] := by
    intro hnil
    rw [hnil] at hlen
    simp only [List.length_nil] at hlen
    omega
  rw [run_cons, step_arrive hi, hw₁, Option.bind_some, run_cons, step_flush hholds₁,
    Option.bind_some, run_cons]
  generalize hw₂ : ({ w₁.set i { w₁.proc i with
      reply := (w₁.proc i).reply ++ w₁.outbox } with
    channel := { w₁.channel with session := w₁.channel.session.flush }
    outbox := [] } : World) = w₂ at hI₂ hc ⊢
  have hproc₂ : w₂.proc i = { w₁.proc i with reply := (w₁.proc i).reply ++ w₁.outbox } := by
    rw [← hw₂]
    exact World.set_self w₁ i _
  have hs₂ : (w₂.proc i).stage = .recvAll buf := by rw [hproc₂, hs₁]
  have hreply₂ : (w₂.proc i).reply = (w₁.proc i).reply ++ w₁.outbox := by rw [hproc₂]
  have hrecv : Vncast.step clock env w₂ (.recv i ackSize) = some (w₂.set i { w₂.proc i with
      stage := .serving c
      reply := (w₂.proc i).reply.drop ((w₁.proc i).reply ++ w₁.outbox).length }) := by
    simp only [Vncast.step, hs₂]
    rw [hreply₂, htake, if_neg hne, hreply, hc]
  rw [hrecv]
  exact ⟨_, c, rfl, by rw [World.set_self]⟩

theorem Stage.Greets.cases {stage : Stage} (h : stage.Greets) :
    (∃ buf, stage = .recvAll buf) ∨ ∃ rest buf, stage = .sendAll rest (.recvAll buf) := by
  cases stage with
  | recvAll buf => exact Or.inl ⟨buf, rfl⟩
  | sendAll rest next =>
      cases next with
      | recvAll buf => exact Or.inr ⟨rest, buf, rfl⟩
      | unborn | sendAll _ _ | serving _ | gone => exact h.elim
  | unborn | serving _ | gone => exact h.elim

/-- **The handshake comes through**: whenever the server's client has not got
its reply, delivering what is under way between the two of them brings it to
the mapped picture, without any other process. -/
theorem handshake_completes (hmaps : ∀ n, sys.maps n → 0 < n ∧ n < 2 ^ 63)
    (hname : name.length ≤ 64 ∧ 0 ∉ name)
    (hstart : Qtfb.start sys info gray name = some (s, file))
    (hfits : (handleHello s (hello 0)).2.1.Fits) (clock : ℕ → ℤ) (env : ℕ → Environ)
    (hwhole : EveryStep (step clock env) TakenWhole (World.start s file) moves)
    (hrun : run (step clock env) (World.start s file) moves = some w) {i : ℕ}
    (hi : w.Holds i) (hs : (w.proc i).stage.Greets) :
    ∃ more w' c, (∀ m ∈ more, m.Delivers i) ∧ run (step clock env) w more = some w' ∧
      (w'.proc i).stage = .serving c := by
  have hR := ready_of_start hmaps hname hstart hfits
  have hI := inv_run hR (start_fields hstart).2 hwhole hrun
  rcases hs.cases with ⟨buf, hbuf⟩ | ⟨rest, buf, hsend⟩
  · obtain ⟨w', c, hrun', hc⟩ := hI.greeted hR hi hbuf clock env
    exact ⟨_, w', c, by simp [Move.Delivers], hrun', hc⟩
  -- the rest of the HELLO first
  · have hI' := hI.sent (k := rest.length + 1) hsend (Or.inr hi)
    have hstep : step clock env w (.sent i (rest.length + 1)) = some (w.set i { w.proc i with
        stage := .send (rest.drop (rest.length + 1)) (.recvAll buf)
        line := (w.proc i).line ++ rest.take (rest.length + 1) }) := by
      simp only [step, hsend]
      rw [if_pos ⟨Or.inr hi, Nat.succ_pos _⟩]
    have hnone : rest.drop (rest.length + 1) = [] := List.drop_of_length_le (Nat.le_succ _)
    obtain ⟨w', c, hrun', hc⟩ := hI'.greeted hR hi
      (by rw [World.set_self, hnone, send_nil]) clock env
    refine ⟨.sent i (rest.length + 1) :: _, w', c, ?_, by rw [run_cons, hstep]; exact hrun', hc⟩
    simp [Move.Delivers]

end Main

/-! ## §9  Two processes -/

/-- A picture of 3×2 pixels in RGBA, without padding. -/
def canvas : Server :=
  { socket := none, w := 3, h := 2, stride := 12, bpp := 32, format := 1, shmName := [47, 118] }

def white : List UInt8 := List.replicate 24 0xFF

/-- The second process is refused while the first one paints. -/
def duel : List Move :=
  [.launch 0, .newConnection, .sent 0 10, .launch 1, .arrive 7, .sent 0 14, .sent 1 24,
   .newConnection, .arrive 100, .flush, .recv 0 60, .recv 0 60,
   .draw 0 [1, 2, 3, 4, 5, 6, 7, 8, 9, 10, 11, 12], .partialUpdate 0 ⟨1, 0, 9, 1⟩, .sent 0 20,
   .sent 0 12, .cursorPos 0 1 1 24 24 true (some (.took 28)), .arrive 40]

theorem canvas_start : Qtfb.start ⟨fun n => n = 24, true⟩ ⟨3, 2, 12, 32, by decide⟩ false [47, 118]
    = some (canvas, white) := by
  rfl

theorem canvas_maps : ∀ n, (fun n => decide (n = 24)) n → 0 < n ∧ n < 2 ^ 63 := by
  intro n hn
  rw [of_decide_eq_true hn]
  decide

theorem canvas_fits : (handleHello canvas (hello 0)).2.1.Fits := by
  refine ⟨?_, by decide⟩
  intro k hk
  obtain rfl : 4 = k := Option.some.inj hk
  decide

theorem duel_whole : EveryStep (step (fun _ => 0) fun _ _ => none) TakenWhole
    (World.start canvas white) duel := by
  decide +kernel

theorem duel_runs : ∃ w, run (step (fun _ => 0) fun _ _ => none) (World.start canvas white) duel
    = some w ∧ (w.proc 0).stage.Paints ∧ w.Holds 0 := by
  have hsome : (run (step (fun _ => 0) fun _ _ => none) (World.start canvas white) duel).isSome ∧
      ∀ w ∈ run (step (fun _ => 0) fun _ _ => none) (World.start canvas white) duel,
        (w.proc 0).stage.Paints ∧ w.Holds 0 := by
    decide +kernel
  obtain ⟨w, hw⟩ := Option.isSome_iff_exists.mp hsome.1
  exact ⟨w, hw, hsome.2 w hw⟩

/-- The process that was refused does not paint. -/
theorem one_painter_duel : ∃ w, run (step (fun _ => 0) fun _ _ => none)
    (World.start canvas white) duel = some w ∧ (w.proc 0).stage.Paints ∧
      ∀ i, (w.proc i).stage.Paints → i = 0 := by
  obtain ⟨w, hw, hpaints, -⟩ := duel_runs
  refine ⟨w, hw, hpaints, fun i hi => ?_⟩
  exact (one_painter canvas_maps (by decide) canvas_start canvas_fits (fun _ => 0)
    (fun _ _ => none) duel_whole hw).2.1 i 0 hi hpaints

/-- In the middle of its HELLO. -/
theorem handshake_completes_duel : ∃ w, run (step (fun _ => 0) fun _ _ => none)
    (World.start canvas white) (duel.take 3) = some w ∧
    ∃ more w' c, (∀ m ∈ more, m.Delivers 0) ∧
      run (step (fun _ => 0) fun _ _ => none) w more = some w' ∧
      (w'.proc 0).stage = .serving c := by
  have hsome : (run (step (fun _ => 0) fun _ _ => none) (World.start canvas white)
        (duel.take 3)).isSome ∧
      ∀ w ∈ run (step (fun _ => 0) fun _ _ => none) (World.start canvas white) (duel.take 3),
        w.Holds 0 ∧ (w.proc 0).stage.Greets := by
    decide +kernel
  have hwhole : EveryStep (step (fun _ => 0) fun _ _ => none) TakenWhole
      (World.start canvas white) (duel.take 3) := by
    decide +kernel
  obtain ⟨w, hw⟩ := Option.isSome_iff_exists.mp hsome.1
  obtain ⟨hholds, hgreets⟩ := hsome.2 w hw
  exact ⟨w, hw, handshake_completes canvas_maps (by decide) canvas_start canvas_fits (fun _ => 0)
    (fun _ _ => none) hwhole hw hholds hgreets⟩

theorem read_as_sent_duel : ∃ w, run (step (fun _ => 0) fun _ _ => none)
    (World.start canvas white) duel = some w ∧ Gated w.channel.session.log ∧ ReadAsSent w 0 := by
  obtain ⟨w, hw, -, hholds⟩ := duel_runs
  obtain ⟨hgated, hread⟩ := read_as_sent canvas_maps (by decide) canvas_start canvas_fits
    (fun _ => 0) (fun _ _ => none) duel_whole hw
  exact ⟨w, hw, hgated, hread 0 hholds⟩

end Rmcast.Vncast
