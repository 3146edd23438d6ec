import Mathlib.Data.List.DropRight
import Rmcast.Lib.Loop
import Rmcast.Qtfb.FpsCap
import Rmcast.Qtfb.Gating

/-!
# The test client

`scripts/qtfb-test-client.py` packs its messages by format strings of its own.
Its HELLO ends before `requestedFps` and its FRAME before `mode`, so the server
waits for a HELLO that never ends while the script waits for the ack
(`Waiting`), and a stream sent without waiting loses its second magic to the
HELLO and is cut off there (`deliverAll_script`).
-/

namespace Rmcast.Qtfb.TestClient

open Framing Loop Word

/-! ## §1  The messages of the script -/

def MAGIC : UInt32 := 0x56434B31

def TAG_HELLO_C2S : UInt32 := 0x01

def TAG_HELLO_ACK : UInt32 := 0x02

def TAG_FRAME : UInt32 := 0x03

def TAG_BYE : UInt32 := 0xFF

/-- A field of a `struct` format. -/
inductive Field where
  | I
  /-- `ns`. -/
  | s (n : ℕ)

def Field.size : Field → ℕ
  | .I => 4
  | .s n => n

/-- `struct.calcsize`, in the standard sizes that `<` asks for. -/
def calcsize (fmt : List Field) : ℕ := (fmt.map Field.size).sum

/-- `"<II IIIIIII 64s"`. -/
def FMT_HELLO_ACK : List Field :=
  [.I, .I, .I, .I, .I, .I, .I, .I, .I, .s 64]

/-- The packed HELLO, `"<II III"`. -/
def helloC2S : List UInt8 := words [MAGIC, TAG_HELLO_C2S, 1, 0, 0]

/-- A packed FRAME, `"<II IIIII"`. -/
def frame (seq : UInt32) : List UInt8 :=
  words [MAGIC, TAG_FRAME, seq, 0, 0, 0, 0]

/-- The packed BYE, `"<II I"`. -/
def bye : List UInt8 := words [MAGIC, TAG_BYE, 0]

/-- What a whole run sends. -/
def script (seqs : List UInt32) : List UInt8 :=
  helloC2S ++ seqs.flatMap frame ++ bye

/-- What `hello` returns. -/
structure Greeting where
  w : UInt32
  h : UInt32
  stride : UInt32
  bpp : UInt32
  fmt : UInt32
  /-- Latin-1 bytes. -/
  shmName : List UInt8
deriving DecidableEq

/-- What `hello` makes of the ack; `none` is a `RuntimeError`. -/
def hello (raw : List UInt8) : Option Greeting :=
  match readWords (raw.take 36) with
  | [magic, tag, accepted, w, h, stride, bpp, fmt, nameLen] =>
      if magic ≠ MAGIC ∨ tag ≠ TAG_HELLO_ACK then none
      else if accepted = 0 then none
      else
        let name := raw.drop 36
        some ⟨w, h, stride, bpp, fmt, (name.take nameLen.toNat).rdropWhile (· = 0)⟩
  | _ => none

/-! ## §2  What the server should make of them -/

/-- The acks in a log. -/
def acksIn (log : List Act) : List HelloAckS2C :=
  log.filterMap fun
    | .wrote ack => some ack
    | _ => none

/-- The message is the FRAME of the script with this `seq`. -/
def IsFrame (seq : UInt32) : Message → Prop
  | .frame f => f.seq = seq ∧ f.x = 0 ∧ f.y = 0 ∧ f.w = 0 ∧ f.h = 0
  | _ => False

/-- The server has read a run as the script meant it. -/
structure Understood (c : Channel) (seqs : List UInt32) : Prop where
  messages : ∃ v ms w, handledIn c.session.log = .hello v :: ms ++ [.bye w] ∧
    List.Forall₂ IsFrame seqs ms
  ack : ∃ a, acksIn c.session.log = [a] ∧ a.encode.length = calcsize FMT_HELLO_ACK
  magic : front c.unread ≠ .badMagic

/-! ## §3  The script and the server -/

/-- Where `main` is. -/
inductive Stage where
  | connected
  /-- In `recvall`, with what has come of the ack. -/
  | recvall (buf : List UInt8)
  | map_shm (greeting : Greeting)
  /-- Before the frame `seq`. -/
  | loop (seq : ℕ)
  | exited
deriving DecidableEq

structure System where
  stage : Stage
  /-- Sent by the script and not yet arrived. -/
  inFlight : List UInt8
  channel : Channel

inductive Move where
  | hello
  /-- At most `n` bytes arrive at the server. -/
  | arrive (n : ℕ)
  | flush
  /-- `recv` returns at most `n` bytes. -/
  | recv (n : ℕ)
  | map_shm
  | frame
  /-- An exception, of which an interrupt is one. -/
  | raise
  /-- The server is told that the script has gone. -/
  | hangup
deriving DecidableEq

/-- `hello` goes on as soon as the ack is complete. -/
def recvd (buf : List UInt8) : Stage :=
  if buf.length < calcsize FMT_HELLO_ACK then .recvall buf
  else match hello buf with
  | none => .exited
  | some greeting => .map_shm greeting

/-- What the script may have received. -/
def replies (c : Channel) : List UInt8 :=
  (acksIn c.session.log).flatMap HelloAckS2C.encode

def step (clock : ℕ → ℤ) (σ : System) : Move → Option System
  | .hello =>
      match σ.stage with
      | .connected =>
          some { σ with stage := .recvall [], inFlight := σ.inFlight ++ helloC2S }
      | _ => none
  | .arrive n => do
      let c ← deliver clock σ.channel (.bytes (σ.inFlight.take n))
      return { σ with channel := c, inFlight := σ.inFlight.drop n }
  | .flush => do
      let c ← deliver clock σ.channel .flush
      return { σ with channel := c }
  | .recv n =>
      match σ.stage with
      | .recvall buf =>
          let chunk := ((replies σ.channel).drop buf.length).take
            (min n (calcsize FMT_HELLO_ACK - buf.length))
          -- `recv` blocks on nothing
          if chunk = [] then none else some { σ with stage := recvd (buf ++ chunk) }
      | _ => none
  | .map_shm =>
      match σ.stage with
      | .map_shm _ => some { σ with stage := .loop 0 }
      | _ => none
  | .frame =>
      match σ.stage with
      | .loop seq =>
          if seq < 2 ^ 32 then
            some { σ with
              stage := .loop (seq + 1)
              inFlight := σ.inFlight ++ frame (.ofNat seq) }
          else none
      | _ => none
  | .raise =>
      match σ.stage with
      | .exited => none
      -- the `finally` of the frame loop
      | .loop _ => some { σ with stage := .exited, inFlight := σ.inFlight ++ bye }
      | _ => some { σ with stage := .exited }
  | .hangup =>
      match σ.stage with
      | .exited => some { σ with channel := onSocketDisconnected σ.channel }
      | _ => none

/-- The channel of a client that has just connected. -/
def accepted (server : Server) : Channel :=
  onNewConnection ⟨{ server := { server with socket := none } }, []⟩

def start (server : Server) : System := ⟨.connected, [], accepted server⟩

/-! ## §4  What the server reads -/

theorem acksIn_append (l l' : List Act) :
    acksIn (l ++ l') = acksIn l ++ acksIn l' := by
  unfold acksIn
  rw [List.filterMap_append]

theorem acksIn_flush (s : Session) : acksIn s.flush.log = acksIn s.log := by
  unfold Session.flush
  cases s.server.socket with
  | none => rfl
  | some k =>
      simp only
      split
      · rw [acksIn_append]
        exact List.append_nil _
      · rfl

theorem onSocketDisconnected_spec (c : Channel) :
    (onSocketDisconnected c).unread = c.unread ∧
      handledIn (onSocketDisconnected c).session.log = handledIn c.session.log ∧
      acksIn (onSocketDisconnected c).session.log = acksIn c.session.log := by
  unfold onSocketDisconnected
  cases c.session.server.socket with
  | none => exact ⟨rfl, rfl, rfl⟩
  | some k =>
      refine ⟨rfl, ?_, ?_⟩
      · exact (handledIn_append _ _).trans (List.append_nil _)
      · exact (acksIn_append _ _).trans (List.append_nil _)

theorem accepted_isOpen (server : Server) : (accepted server).session.IsOpen :=
  ⟨false, rfl⟩

/-- The client waits for as many bytes as the server writes. -/
theorem ack_length (s : Server) (m : HelloC2S) :
    (handleHello s m).2.1.encode.length = calcsize FMT_HELLO_ACK := by
  have hname : (s.shmName.take (min s.shmName.length 64) ++
      List.replicate (64 - min s.shmName.length 64) (0 : UInt8)).length = 64 := by
    rw [List.length_append, List.length_take, List.length_replicate]
    omega
  unfold HelloAckS2C.encode
  rw [List.length_append]
  simp only [handleHello, hname]
  rfl

/-- What the HELLO lacks is taken from behind it. -/
theorem helloC2S_append (w : UInt32) :
    helloC2S ++ le32 w = (Message.hello ⟨1, 0, 0, w⟩).encode := rfl

theorem front_helloC2S {b : List UInt8} (h : b <+: helloC2S) :
    front b = .short := by
  obtain ⟨c, hc⟩ := h
  apply front_incomplete (c := c ++ le32 0) (m := .hello ⟨1, 0, 0, 0⟩)
  · rw [← List.append_assoc, hc, helloC2S_append]
  · intro hnil
    cases (List.append_eq_nil_iff.mp hnil).2

theorem deliver_short {clock : ℕ → ℤ} {c : Channel} {chunk : List UInt8}
    (h : front (c.unread ++ chunk) = .short) :
    deliver clock c (.bytes chunk) = some ⟨c.session, c.unread ++ chunk⟩ := by
  by_cases hopen : c.session.IsOpen
  · apply deliver_open (r := (c.session, c.unread ++ chunk, false)) hopen
    apply Reader.drain_wait
    have hl : c.session.look clock (c.unread ++ chunk) = .wait := by
      rw [look_open hopen, h]
    exact hl
  · exact deliver_closed hopen

/-! ## §5  Both wait -/

/-- The script has got no further than its HELLO, and the server has not
read it. -/
structure Waiting (moves : List Move) (σ : System) : Prop where
  sent : σ.channel.unread ++ σ.inFlight <+: helloC2S
  unsent : σ.stage = .connected → σ.channel.unread ++ σ.inFlight = []
  stage : σ.stage = .connected ∨ σ.stage = .recvall [] ∨
    σ.stage = .exited ∧ .raise ∈ moves
  handled : handledIn σ.channel.session.log = []
  acks : acksIn σ.channel.session.log = []

theorem Waiting.start (server : Server) : Waiting [] (start server) :=
  ⟨List.nil_prefix, fun _ => rfl, Or.inl rfl, rfl, rfl⟩

section Moves

variable {clock : ℕ → ℤ} {moves : List Move} {σ τ : System} {m : Move}

theorem Waiting.stays (h : Waiting moves σ) (m : Move) :
    σ.stage = .connected ∨ σ.stage = .recvall [] ∨
      σ.stage = .exited ∧ .raise ∈ moves ++ [m] := by
  rcases h.stage with hs | hs | ⟨hs, hm⟩
  · exact Or.inl hs
  · exact Or.inr (Or.inl hs)
  · exact Or.inr (Or.inr ⟨hs, List.mem_append_left _ hm⟩)

theorem Waiting.hello (h : Waiting moves σ) (hstep : step clock σ .hello = some τ) :
    Waiting (moves ++ [m]) τ := by
  simp only [TestClient.step] at hstep
  split at hstep
  · rename_i hs
    obtain rfl := Option.some.inj hstep
    refine ⟨?_, fun he => ?_, Or.inr (Or.inl rfl), h.handled, h.acks⟩
    · simp only
      rw [← List.append_assoc, h.unsent hs]
      exact List.prefix_refl _
    · cases he
  · cases hstep

/-- What arrives is still no HELLO. -/
theorem Waiting.arrive (h : Waiting moves σ) {n : ℕ}
    (hstep : step clock σ (.arrive n) = some τ) : Waiting (moves ++ [m]) τ := by
  have hb : σ.channel.unread ++ σ.inFlight.take n ++ σ.inFlight.drop n
      = σ.channel.unread ++ σ.inFlight := by
    rw [List.append_assoc, List.take_append_drop]
  have hshort : front (σ.channel.unread ++ σ.inFlight.take n) = .short := by
    apply front_helloC2S
    refine List.IsPrefix.trans ?_ h.sent
    exact ⟨_, hb⟩
  simp only [TestClient.step, deliver_short hshort] at hstep
  obtain rfl := Option.some.inj hstep
  refine ⟨?_, fun hs => ?_, h.stays m, h.handled, h.acks⟩
  · exact hb ▸ h.sent
  · exact hb.trans (h.unsent hs)

theorem Waiting.flush (h : Waiting moves σ) (hstep : step clock σ .flush = some τ) :
    Waiting (moves ++ [m]) τ := by
  simp only [TestClient.step, deliver] at hstep
  obtain rfl := Option.some.inj hstep
  refine ⟨h.sent, h.unsent, h.stays m, ?_, ?_⟩
  · exact (handledIn_flush _).trans h.handled
  · exact (acksIn_flush _).trans h.acks

/-- There is nothing to receive. -/
theorem Waiting.blocked (h : Waiting moves σ) (n : ℕ) : step clock σ (.recv n) = none := by
  have hnone : replies σ.channel = [] := by
    unfold replies
    rw [h.acks]
    rfl
  simp only [TestClient.step]
  split
  · rw [hnone]
    simp only [List.drop_nil, List.take_nil, if_true]
  · rfl

theorem Waiting.raise (h : Waiting moves σ) (hstep : step clock σ .raise = some τ) :
    Waiting (moves ++ [.raise]) τ := by
  have hexit : τ = { σ with stage := .exited } := by
    simp only [TestClient.step] at hstep
    rcases h.stage with hs | hs | ⟨hs, -⟩
    all_goals
      rw [hs] at hstep
      cases hstep
    · rfl
    · rfl
  rw [hexit]
  refine ⟨h.sent, fun he => ?_, Or.inr (Or.inr ⟨rfl, ?_⟩), h.handled, h.acks⟩
  · cases he
  · exact List.mem_append_right _ (List.mem_singleton.mpr rfl)

theorem Waiting.hangup (h : Waiting moves σ) (hstep : step clock σ .hangup = some τ) :
    Waiting (moves ++ [m]) τ := by
  simp only [TestClient.step] at hstep
  split at hstep
  · rename_i hs
    obtain rfl := Option.some.inj hstep
    obtain ⟨hunread, hhandled, hacks⟩ := onSocketDisconnected_spec σ.channel
    refine ⟨?_, fun he => ?_, h.stays m, ?_, ?_⟩
    · exact hunread ▸ h.sent
    · rw [hs] at he
      cases he
    · exact hhandled.trans h.handled
    · exact hacks.trans h.acks
  · cases hstep

/-- **Step lemma.** -/
theorem Waiting.step (h : Waiting moves σ) (hstep : step clock σ m = some τ) :
    Waiting (moves ++ [m]) τ := by
  cases m with
  | hello => exact h.hello hstep
  | arrive n => exact h.arrive hstep
  | flush => exact h.flush hstep
  | recv n =>
      rw [h.blocked] at hstep
      cases hstep
  | raise => exact h.raise hstep
  | hangup => exact h.hangup hstep
  | map_shm | frame =>
      -- the script is not there
      simp only [TestClient.step] at hstep
      rcases h.stage with hs | hs | ⟨hs, -⟩
      all_goals
        rw [hs] at hstep
        cases hstep

end Moves

/-- **Run lemma.** -/
theorem waiting_run {clock : ℕ → ℤ} {server : Server} {moves : List Move}
    {σ : System} (h : run (step clock) (start server) moves = some σ) :
    Waiting moves σ := by
  induction moves using List.reverseRecOn generalizing σ with
  | nil =>
      obtain rfl := Option.some.inj h
      exact Waiting.start server
  | append_singleton moves m ih =>
      rw [run_snoc] at h
      obtain ⟨τ, hτ, hstep⟩ := Option.bind_eq_some_iff.mp h
      exact (ih hτ).step hstep

/-! ## §6  A stream that does not wait -/

/-- What is left when the HELLO has taken the word it lacks. -/
def behind (seqs : List UInt32) : List UInt8 :=
  (seqs.flatMap frame ++ bye).drop 4

theorem script_eq (seqs : List UInt32) :
    script seqs = encodeAll [.hello ⟨1, 0, 0, MAGIC⟩] ++ behind seqs := by
  have hmagic : ∀ seqs, seqs.flatMap frame ++ bye = le32 MAGIC ++ behind seqs := by
    intro seqs
    cases seqs with
    | nil => rfl
    | cons seq seqs => rfl
  unfold script
  rw [List.append_assoc, hmagic, ← List.append_assoc, helloC2S_append,
    encodeAll_cons, encodeAll_nil, List.append_nil]

theorem front_behind (seqs : List UInt32) : front (behind seqs) = .badMagic := by
  cases seqs with
  | nil => rfl
  | cons seq seqs =>
      have hw : behind (seq :: seqs) = words [TAG_FRAME, seq] ++
          (words [0, 0, 0, 0] ++ (seqs.flatMap frame ++ bye)) := rfl
      have hlen : headerSize ≤ (behind (seq :: seqs)).length := by
        rw [hw, List.length_append]
        exact Nat.le_add_right 8 _
      have hhead : readWords ((behind (seq :: seqs)).take headerSize)
          = [TAG_FRAME, seq] := by
        rw [hw]
        exact readWords_words [TAG_FRAME, seq]
      rw [front_of_header hlen hhead]
      rfl

/-- **A run without waiting**: the server takes one HELLO, with the second
magic as its fps cap, and closes on what is left. -/
theorem deliverAll_script (clock : ℕ → ℤ) (server : Server) (seqs : List UInt32)
    {es : List Delivery} (hes : received es = script seqs) :
    ∃ c, deliverAll clock (accepted server) es = some c ∧
      handledIn c.session.log = [.hello ⟨1, 0, 0, MAGIC⟩] ∧
      c.unread = behind seqs ∧ ¬ c.session.IsOpen := by
  have hs := accepted_isOpen server
  have hacc : AcceptedHellos (received es) := by
    rw [hes, script_eq]
    apply acceptedHellos_of_no_message
    · intro m hm
      rw [front_behind] at hm
      cases hm
    · intro v hv
      obtain rfl := Message.hello.inj (List.mem_singleton.mp hv)
      rfl
  obtain ⟨c, r, hc, hC⟩ := deliverAll_chunked clock hs es hacc
  obtain ⟨k, hk⟩ := hC.drained
  have hlook : (reader clock).look
      ((accepted server).session.greet ⟨1, 0, 0, MAGIC⟩) (behind seqs)
      = .stop 0 ((accepted server).session.greet ⟨1, 0, 0, MAGIC⟩).disconnect := by
    have hopen := greet_isOpen ⟨1, 0, 0, MAGIC⟩ hs
    refine (look_open hopen).trans ?_
    rw [front_behind]
  have hdrain : (reader clock).drain 2 (accepted server).session (received es)
      = some (((accepted server).session.greet ⟨1, 0, 0, MAGIC⟩).disconnect,
        behind seqs, true) := by
    rw [hes, script_eq, encodeAll_cons, encodeAll_nil, List.append_nil,
      Reader.drain_take (look_greet hs rfl _), List.drop_left' rfl]
    exact Reader.drain_stop hlook
  obtain rfl := Reader.drain_unique hk hdrain
  refine ⟨c, hc, ?_, hC.unread, hC.stopped.mp rfl⟩
  rw [← handledIn_flush, hC.flush, handledIn_flush, handledIn_disconnect]
  rfl

/-! ## §7  No run is understood -/

/-- **The script and the server do not speak the same format.** Whatever its
frames, and however it is delivered, the stream of a run is not read as the
script meant it; and in no run of the two together is a message read or the
script's wait for the ack over. -/
theorem never_understood (clock : ℕ → ℤ) (server : Server) :
    (∀ seqs es, received es = script seqs →
      ∃ c, deliverAll clock (accepted server) es = some c ∧ ¬ Understood c seqs) ∧
    ∀ moves σ, run (step clock) (start server) moves = some σ →
      handledIn σ.channel.session.log = [] ∧ acksIn σ.channel.session.log = [] ∧
      (σ.stage = .connected ∨ σ.stage = .recvall [] ∨
        σ.stage = .exited ∧ .raise ∈ moves) := by
  constructor
  · intro seqs es hes
    obtain ⟨c, hc, -, hunread, -⟩ := deliverAll_script clock server seqs hes
    refine ⟨c, hc, fun h => h.magic ?_⟩
    rw [hunread, front_behind]
  · intro moves σ hrun
    have h := waiting_run hrun
    exact ⟨h.handled, h.acks, h.stage⟩

/-- A HELLO that arrives in two pieces. -/
def twoPieces : List Move := [.hello, .arrive 12, .flush, .arrive 8]

theorem never_understood_two_pieces :
    (∃ c, deliverAll (fun _ => 0) (accepted fresh.server)
        [.bytes (script [0, 1])] = some c ∧ ¬ Understood c [0, 1]) ∧
      ∃ σ, run (step fun _ => 0) (start fresh.server) twoPieces = some σ ∧
        handledIn σ.channel.session.log = [] ∧ σ.stage = .recvall [] := by
  have h := never_understood (fun _ => 0) fresh.server
  constructor
  · exact h.1 [0, 1] _ (List.append_nil _)
  · have hsome : (run (step fun _ => 0) (start fresh.server) twoPieces).isSome ∧
        ∀ σ ∈ run (step fun _ => 0) (start fresh.server) twoPieces,
          σ.stage = .recvall [] := by
      decide +kernel
    obtain ⟨σ, hσ⟩ := Option.isSome_iff_exists.mp hsome.1
    exact ⟨σ, hσ, (h.2 twoPieces σ hσ).1, hsome.2 σ hσ⟩

/-- One frame and the BYE: the server reads a HELLO that asks for a cap of
1447250737 fps and nothing else. Of the HELLO alone it reads nothing. -/
theorem one_frame_lost :
    (¬ ∃ c, deliverAll (fun _ => 0) (accepted fresh.server)
        [.bytes (script [0])] = some c ∧ Understood c [0]) ∧
      deliver (fun _ => 0) (accepted fresh.server) (.bytes helloC2S)
        = some { accepted fresh.server with unread := helloC2S } := by
  constructor
  · rintro ⟨c, hc, h⟩
    have hread : ∀ c ∈ deliverAll (fun _ => 0) (accepted fresh.server)
        [.bytes (script [0])],
        handledIn c.session.log = [.hello ⟨1, 0, 0, 1447250737⟩] := by
      decide +kernel
    obtain ⟨v, ms, w, hms, -⟩ := h.messages
    rw [hread c hc] at hms
    have hlen := congrArg List.length hms
    simp at hlen
  · decide +kernel

end Rmcast.Qtfb.TestClient
