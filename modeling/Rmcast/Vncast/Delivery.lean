import Rmcast.Qtfb.Chunking
import Rmcast.Vncast.Client

/-!
# Message delivery

What the server reads of what a `ClientConnection` writes. `::send` may take
any part of the bytes it is given; `send_all` goes on with the rest, while
`send_cursor_pos` gives a position to `::send` once and forgets it. As long as
each cursor position is taken whole or not at all, the server reads the
messages of the client's calls in program order, short of some cursor
positions, and never sees a header it has to close for.
-/

namespace Rmcast.Vncast

open Qtfb Loop Framing

/-! ## §1  Writing to the socket -/

/-- What `::send` answers: the number of bytes taken, or `EINTR`. -/
inductive Answer where
  | took (k : ℕ)
  | eintr
deriving DecidableEq, Repr

/-- `send_all` under the answers of its calls of `::send`: the bytes taken,
and whether the loop has ended. -/
def sendAll : List Answer → List UInt8 → List UInt8 × Bool
  | _, [] => ([], true)
  | [], _ :: _ => ([], false)
  | .eintr :: answers, b :: buf => sendAll answers (b :: buf)
  | .took k :: answers, b :: buf =>
      let (taken, ended) := sendAll answers ((b :: buf).drop k)
      ((b :: buf).take k ++ taken, ended)

/-- A single `::send` with `MSG_DONTWAIT`; `none` is `EAGAIN`. -/
def sendDontWait : Option Answer → List UInt8 → List UInt8
  | some (.took k), buf => buf.take k
  | some .eintr, _ | none, _ => []

/-- `send_all` has written everything when it ends, and a proper part
before. -/
theorem sendAll_spec (answers : List Answer) (buf : List UInt8) :
    ∃ rest, buf = (sendAll answers buf).1 ++ rest ∧
      ((sendAll answers buf).2 = true ↔ rest = []) := by
  induction answers generalizing buf with
  | nil =>
      cases buf with
      | nil => exact ⟨[], rfl, by simp [sendAll]⟩
      | cons b buf => exact ⟨b :: buf, rfl, by simp [sendAll]⟩
  | cons a answers ih =>
      cases buf with
      | nil => exact ⟨[], by simp [sendAll], by simp [sendAll]⟩
      | cons b buf =>
          cases a with
          | eintr => exact ih (b :: buf)
          | took k =>
              obtain ⟨rest, hbuf, hended⟩ := ih ((b :: buf).drop k)
              refine ⟨rest, ?_, hended⟩
              show b :: buf = ((b :: buf).take k ++ _) ++ rest
              rw [List.append_assoc, ← hbuf, List.take_append_drop]

/-! ## §2  The client's calls -/

/-- A `ClientConnection` with what it has written. -/
structure Client where
  conn : Connection
  wire : List UInt8 := []
  /-- The messages of the calls that have returned. -/
  program : List Message := []
  /-- Nothing more is written: a `send_all` has not returned, or the
  connection is destroyed. -/
  finished : Bool := false
deriving Repr

/-- `send_all` of a message. -/
def Client.send (c : Client) (m : Message) (answers : List Answer) : Client :=
  let (taken, ended) := sendAll answers (packed m)
  { c with
    wire := c.wire ++ taken
    program := if ended then c.program ++ [m] else c.program
    finished := !ended }

/-- The operations, each with the answers of `::send` under it. -/
inductive Call where
  | partialUpdate (r : Rect) (answers : List Answer)
  | completeUpdate (answers : List Answer)
  | cursorPos (x y w h : ℤ) (visible : Bool) (answer : Option Answer)
  | destroy (answers : List Answer)
deriving DecidableEq, Repr

/-- The constructor's `handshake`. The reply fills `conn`; that the client
waits for it is left out. -/
def connect (conn : Connection) (fpsCap : UInt32) (answers : List Answer) :
    Client :=
  Client.send { conn := conn } (.hello (hello fpsCap)) answers

def perform (c : Client) (call : Call) : Option Client :=
  if c.finished then some c
  else match call with
  | .partialUpdate r answers => do
      let (conn, m) ← sendPartialUpdate c.conn r
      return Client.send { c with conn := conn } (.frame m) answers
  | .completeUpdate answers => do
      let (conn, m) ← sendCompleteUpdate c.conn
      return Client.send { c with conn := conn } (.frame m) answers
  -- the call returns whatever `::send` has answered
  | .cursorPos x y w h visible answer =>
      match sendCursorPos c.conn x y w h visible with
      | (conn, none) => some { c with conn := conn }
      | (conn, some m) =>
          some
            { c with
              conn := conn
              wire := c.wire ++ sendDontWait answer (packed (.cursor m))
              program := c.program ++ [.cursor m] }
  | .destroy answers => some { c.send (.bye bye) answers with finished := true }

/-- A cursor position is taken whole or not at all. -/
def Whole (c : Client) : Call → Prop
  | .cursorPos x y w h visible (some (.took k)) =>
      c.finished = false → ∀ m ∈ (sendCursorPos c.conn x y w h visible).2,
        k = 0 ∨ (packed (.cursor m)).length ≤ k
  | _ => True

/-! ## §3  What is on the wire -/

/-- `got` is `program` short of some cursor positions. -/
def Kept (program got : List Message) : Prop :=
  got.Sublist program ∧
    got.filter (·.tag ≠ .CursorC2S) = program.filter (·.tag ≠ .CursorC2S)

/-- The wire carries the messages `got` of the program, then an incomplete
one. -/
structure Wired (wire : List UInt8) (program got : List Message)
    (part : List UInt8) : Prop where
  bytes : wire = encodeAll got ++ part
  part_short : front part = .short
  kept : Kept program got
  bye_last : ∀ m ∈ got.dropLast, ∀ v, m ≠ .bye v
  hellos : ∀ v, .hello v ∈ got → v.clientVersion = VERSION

/-- Between two calls nothing is incomplete, and no Bye has been sent. -/
structure Sound (c : Client) : Prop where
  conn : Announced c.conn
  wired : ∃ got part, Wired c.wire c.program got part ∧
    (c.finished = false → part = [] ∧ ∀ v, .bye v ∉ got)

theorem Kept.snoc {program got : List Message} (h : Kept program got)
    (m : Message) : Kept (program ++ [m]) (got ++ [m]) := by
  refine ⟨h.1.append (List.Sublist.refl _), ?_⟩
  rw [List.filter_append, List.filter_append, h.2]

theorem Kept.drop_cursor {program got : List Message} (h : Kept program got)
    (m : CursorC2S) : Kept (program ++ [.cursor m]) got := by
  refine ⟨h.1.trans (List.sublist_append_left _ _), ?_⟩
  rw [List.filter_append, h.2]
  exact (List.append_nil _).symm

/-- A proper part of a message is incomplete. -/
theorem front_part {m : Message} {taken rest : List UInt8}
    (h : m.encode = taken ++ rest) (hrest : rest ≠ []) :
    front taken = .short := by
  by_contra hne
  have hf : front taken = .message m := by
    rw [← front_append rest hne, ← h, ← List.append_nil m.encode, front_encode]
  obtain ⟨q, hq⟩ := encode_of_front hf
  have hlen := congrArg List.length h
  have hpos := List.length_pos_iff.mpr hrest
  rw [hq, List.length_append, List.length_append] at hlen
  omega

/-- One message more, whole. -/
theorem Wired.snoc {wire : List UInt8} {program got : List Message}
    (h : Wired wire program got []) (hbye : ∀ v, .bye v ∉ got) {m : Message}
    (hm : ∀ v, m = .hello v → v.clientVersion = VERSION) :
    Wired (wire ++ packed m) (program ++ [m]) (got ++ [m]) [] where
  bytes := by
    rw [h.bytes, packed_eq_encode, encodeAll_append, encodeAll_cons,
      encodeAll_nil]
    simp only [List.append_nil]
  part_short := front_nil
  kept := h.kept.snoc m
  bye_last := by
    rw [List.dropLast_concat]
    rintro m' hm' v rfl
    exact hbye v hm'
  hellos := by
    intro v hv
    rcases List.mem_append.mp hv with hv | hv
    · exact h.hellos v hv
    · exact hm v (List.mem_singleton.mp hv).symm

/-- `send_all` of a message between two calls. -/
theorem Wired.send {c : Client} {got : List Message}
    (h : Wired c.wire c.program got []) (hbye : ∀ v, .bye v ∉ got) {m : Message}
    (hm : ∀ v, m = .hello v → v.clientVersion = VERSION)
    (answers : List Answer) :
    ∃ got' part, Wired (c.send m answers).wire (c.send m answers).program
        got' part ∧
      ((c.send m answers).finished = false → part = [] ∧ got' = got ++ [m]) := by
  obtain ⟨rest, hbuf, hended⟩ := sendAll_spec answers (packed m)
  unfold Client.send
  cases he : (sendAll answers (packed m)).2 with
  | true =>
      obtain rfl := hended.mp he
      rw [List.append_nil] at hbuf
      refine ⟨got ++ [m], [], ?_, fun _ => ⟨rfl, rfl⟩⟩
      simp only [he, if_true, ← hbuf]
      exact h.snoc hbye hm
  | false =>
      refine ⟨got, (sendAll answers (packed m)).1, ⟨?_, ?_, ?_, h.bye_last,
        h.hellos⟩, fun hover => by simp [he] at hover⟩
      · rw [h.bytes, List.append_nil]
      · rw [packed_eq_encode] at hbuf ⊢
        apply front_part hbuf
        intro hnil
        rw [hended.mpr hnil] at he
        cases he
      · simp only [he]
        exact h.kept

/-! ## §4  Runs of calls -/

theorem sound_connect {conn : Connection} (hA : Announced conn)
    (fpsCap : UInt32) (answers : List Answer) :
    Sound (connect conn fpsCap answers) := by
  have h0 : Wired [] [] [] [] :=
    ⟨rfl, front_nil, ⟨List.Sublist.refl _, rfl⟩, by simp, by simp⟩
  obtain ⟨got, part, hw, hover⟩ := Wired.send (c := { conn := conn }) h0
    (by simp) (m := .hello (hello fpsCap)) (fun v hv => by
      obtain rfl := Message.hello.inj hv
      rfl) answers
  refine ⟨hA, got, part, hw, fun ho => ?_⟩
  obtain ⟨rfl, rfl⟩ := hover ho
  exact ⟨rfl, by simp⟩

/-- An update, on a client that may still write. -/
theorem Sound.update {c : Client} (h : Sound c) (hopen : c.finished = false)
    (r : Rect) (answers : List Answer) :
    ∃ conn m, sendPartialUpdate c.conn r = some (conn, m) ∧
      Sound (Client.send { c with conn := conn } (.frame m) answers) := by
  obtain ⟨got, part, hw, hidle⟩ := h.wired
  obtain ⟨rfl, hbye⟩ := hidle hopen
  obtain ⟨shm, m, hsend, hP⟩ := sendPartialUpdate_spec h.conn r
  refine ⟨_, m, hsend, h.conn.updated hP, ?_⟩
  obtain ⟨got', part, hw', hidle'⟩ :=
    hw.send hbye (m := .frame m) (by simp) answers
  refine ⟨got', part, hw', fun ho => ?_⟩
  obtain ⟨hp, rfl⟩ := hidle' ho
  refine ⟨hp, fun v hv => ?_⟩
  rcases List.mem_append.mp hv with hv | hv
  · exact hbye v hv
  · cases List.mem_singleton.mp hv

/-- A cursor position that is taken whole or not at all. -/
theorem Wired.cursor {wire : List UInt8} {program got : List Message}
    (h : Wired wire program got []) (hbye : ∀ v, .bye v ∉ got) (m : CursorC2S)
    {answer : Option Answer} (hwhole : ∀ k, answer = some (.took k) →
      k = 0 ∨ (packed (.cursor m)).length ≤ k) :
    ∃ got', Wired (wire ++ sendDontWait answer (packed (.cursor m)))
        (program ++ [.cursor m]) got' [] ∧ ∀ v, .bye v ∉ got' := by
  have hdrop : Wired (wire ++ []) (program ++ [.cursor m]) got [] :=
    ⟨by rw [List.append_nil, h.bytes], h.part_short, h.kept.drop_cursor m,
      h.bye_last, h.hellos⟩
  match answer, hwhole with
  | none, _ => exact ⟨got, hdrop, hbye⟩
  | some .eintr, _ => exact ⟨got, hdrop, hbye⟩
  | some (.took k), hwhole =>
      rcases hwhole k rfl with rfl | hk
      · exact ⟨got, hdrop, hbye⟩
      · refine ⟨got ++ [.cursor m], ?_, ?_⟩
        · show Wired (wire ++ (packed _).take k) _ _ _
          rw [List.take_of_length_le hk]
          exact h.snoc hbye (by simp)
        · intro v hv
          rcases List.mem_append.mp hv with hv | hv
          · exact hbye v hv
          · cases List.mem_singleton.mp hv

/-- **Step lemma**: a call that loses no part of a cursor position. -/
theorem Sound.perform {c : Client} {call : Call} (h : Sound c)
    (hwhole : Whole c call) : ∃ c', perform c call = some c' ∧ Sound c' := by
  unfold Vncast.perform
  by_cases hopen : c.finished = true
  · exact ⟨c, if_pos hopen, h⟩
  rw [if_neg hopen]
  rw [Bool.not_eq_true] at hopen
  cases call with
  | partialUpdate r answers =>
      obtain ⟨conn, m, hsend, hS⟩ := h.update hopen r answers
      exact ⟨_, by simp only [hsend]; rfl, hS⟩
  | completeUpdate answers =>
      obtain ⟨conn, m, hsend, hS⟩ :=
        h.update hopen ⟨0, 0, c.conn.width, c.conn.height⟩ answers
      exact ⟨_, by simp only [sendCompleteUpdate, hsend]; rfl, hS⟩
  | cursorPos x y w h' visible answer =>
      have hA := h.conn.sendCursorPos x y w h' visible
      obtain ⟨got, part, hw, hidle⟩ := h.wired
      obtain ⟨rfl, hbye⟩ := hidle hopen
      generalize hsend : sendCursorPos c.conn x y w h' visible = r at hA
      obtain ⟨conn, _ | m⟩ := r
      · exact ⟨{ c with conn := conn }, by simp only [hsend], hA, got, [], hw,
          fun _ => ⟨rfl, hbye⟩⟩
      · have htaken : ∀ k, answer = some (.took k) →
            k = 0 ∨ (packed (.cursor m)).length ≤ k := by
          rintro k rfl
          exact hwhole hopen m (by rw [hsend]; rfl)
        obtain ⟨got', hw', hbye'⟩ := hw.cursor hbye m htaken
        exact ⟨
          { c with
            conn := conn
            wire := c.wire ++ sendDontWait answer (packed (.cursor m))
            program := c.program ++ [.cursor m] },
          by simp only [hsend], hA, got', [], hw', fun _ => ⟨rfl, hbye'⟩⟩
  | destroy answers =>
      obtain ⟨got, part, hw, hidle⟩ := h.wired
      obtain ⟨rfl, hbye⟩ := hidle hopen
      obtain ⟨got', part, hw', -⟩ := hw.send hbye (m := .bye bye) (by simp) answers
      exact ⟨_, rfl, h.conn, got', part, hw', fun ho => by cases ho⟩

/-! ## §5  What the server reads -/

/-- After the deliveries `es` the server has handled messages of `got` from
the first on, all of them once the wire is empty; what it has not read is
incomplete, and only a Bye has made it close. -/
def Intact (clock : ℕ → ℤ) (s : Session) (got : List Message)
    (wire : List UInt8) (es : List Delivery) : Prop :=
  ∃ c ms, deliverAll clock ⟨s, []⟩ es = some c ∧
    handledIn c.session.log = handledIn s.log ++ ms ∧ ms <+: got ∧
    (received es = wire → ms = got) ∧ front c.unread = .short ∧
    (c.session.IsOpen ∨ ∃ v, .bye v ∈ ms)

/-- What is parsed from a part of the wire is a beginning of what was sent:
the rest of the wire does not begin with a message. -/
theorem Wired.parsed_prefix {wire : List UInt8} {program got : List Message}
    {part : List UInt8} (h : Wired wire program got part) {ms : List Message}
    {rest : List UInt8} (he : encodeAll ms ++ rest = encodeAll got ++ part) :
    ms <+: got := by
  rcases encodeAll_prefix he with hp | ⟨l, rfl⟩
  · exact hp
  · rw [encodeAll_append, List.append_assoc] at he
    have hpart := List.append_cancel_left he
    cases l with
    | nil => rw [List.append_nil]
    | cons m l =>
        have hf := h.part_short
        rw [← hpart, encodeAll_cons, List.append_assoc, front_encode] at hf
        cases hf

/-- The messages parsed from a part of the wire. -/
theorem Wired.parsed {wire : List UInt8} {program got : List Message}
    {part : List UInt8} (h : Wired wire program got part) {b tail : List UInt8}
    (hb : b ++ tail = wire) {ms : List Message} {rest : List UInt8}
    {closed : Prop} (hP : Parsed b ms rest closed) :
    ms <+: got ∧ front rest = .short ∧ (tail = [] → ms = got) := by
  have he : encodeAll ms ++ (rest ++ tail) = encodeAll got ++ part := by
    rw [← h.bytes, ← hb, hP.bytes, List.append_assoc]
  have hpre := h.parsed_prefix he
  refine ⟨hpre, ?_⟩
  obtain ⟨l, rfl⟩ := hpre
  rw [encodeAll_append, List.append_assoc] at he
  have hrest := List.append_cancel_left he
  cases l with
  | nil =>
      refine ⟨?_, fun _ => (List.append_nil ms).symm⟩
      by_contra hne
      apply hne
      rw [← front_append tail hne, hrest]
      exact h.part_short
  -- something is left to parse, so the part ends inside the next message
  | cons m l =>
      rw [encodeAll_cons, List.append_assoc] at hrest
      have hshort : front rest = .short := by
        by_contra hne
        have hf : front rest = .message m := by
          rw [← front_append tail hne, hrest, front_encode]
        rcases hP.longest with ⟨v, hv⟩ | hno
        · refine h.bye_last (.bye v) ?_ v rfl
          rw [List.dropLast_append_of_ne_nil (List.cons_ne_nil m l)]
          exact List.mem_append_left _ (List.mem_of_getLast? hv)
        · obtain ⟨q, hq⟩ := encode_of_front hf
          exact hno m q hq
      refine ⟨hshort, fun htail => ?_⟩
      rw [htail, List.append_nil] at hrest
      rw [hrest, front_encode] at hshort
      cases hshort

/-- **Messages arrive intact.** -/
theorem messages_intact {conn : Connection} (hA : Announced conn)
    (fpsCap : UInt32) (answers : List Answer) {calls : List Call}
    (hcalls : EveryStep perform Whole (connect conn fpsCap answers) calls)
    (clock : ℕ → ℤ) {s : Session} (hs : s.IsOpen) :
    ∀ pre, pre <+: calls →
      ∃ c got, run perform (connect conn fpsCap answers) pre = some c ∧
        Kept c.program got ∧
        ∀ es, received es <+: c.wire → Intact clock s got c.wire es := by
  rintro pre ⟨suf, rfl⟩
  obtain ⟨c, hrun, hS⟩ := run_inv Sound (fun c call => Sound.perform)
    (sound_connect hA fpsCap answers) hcalls.of_append
  obtain ⟨got, part, hw, -⟩ := hS.wired
  refine ⟨c, got, hrun, hw.kept, ?_⟩
  rintro es ⟨tail, htail⟩
  have hacc : AcceptedHellos (received es) := by
    refine AcceptedHellos.of_append (c := tail) ?_
    rw [htail, hw.bytes]
    exact acceptedHellos_encodeAll hw.part_short hw.hellos
  obtain ⟨d, r, hd, hC⟩ := deliverAll_chunked clock hs es hacc
  obtain ⟨k, hk⟩ := hC.drained
  obtain ⟨-, ms, hms, hP⟩ := drain_parsed hs hacc hk
  obtain ⟨hpre, hshort, hall⟩ := hw.parsed htail hP
  rw [← hC.unread] at hshort
  refine ⟨d, ms, hd, ?_, hpre, ?_, hshort, ?_⟩
  · rw [← handledIn_flush, hC.flush, handledIn_flush, hms]
  · intro he
    apply hall
    rw [he] at htail
    exact List.append_right_eq_self.mp htail
  · by_cases ho : d.session.IsOpen
    · exact Or.inl ho
    · right
      rcases hP.closed_iff.mp (hC.stopped.mpr ho) with ⟨v, hv⟩ | hbad
      · exact ⟨v, List.mem_of_getLast? hv⟩
      · rw [← hC.unread, hshort] at hbad
        simp at hbad

/-- A 1×1 grayscale picture. -/
def tiny : Connection where
  w := 1
  h := 1
  stride := 1
  bpp := 8
  format := 2
  shm := [0]
  shadow := [0, 0]
  forceGrayscale := false

theorem tiny_announced : Announced tiny where
  w_lt := by decide
  h_lt := by decide
  shadow_length := rfl
  shm_length := rfl
  format := ⟨1, toGrayscale8, rfl, by decide⟩

/-- A session with short counts under `send_all`, a cursor position dropped
and another one sent. -/
def lucky : List Call :=
  [.cursorPos 1 1 24 24 true none, .completeUpdate [.took 5, .eintr, .took 40],
   .cursorPos 2 1 24 24 true (some (.took 28)), .destroy [.took 12]]

theorem lucky_whole : EveryStep perform Whole (connect tiny 0 [.took 24]) lucky := by
  refine ⟨trivial, fun _ _ => ⟨trivial, fun _ _ => ⟨?_, fun _ _ => ⟨trivial, ?_⟩⟩⟩⟩
  · intro _ m _
    exact Or.inr (le_refl 28)
  · exact fun _ _ => trivial

theorem messages_intact_lucky :
    ∃ c got, run perform (connect tiny 0 [.took 24]) lucky = some c ∧
      Kept c.program got ∧ ∀ es, received es <+: c.wire →
        Intact (fun _ => 0) fresh got c.wire es :=
  messages_intact tiny_announced 0 [.took 24] lucky_whole _ ⟨false, rfl⟩ _
    (List.prefix_refl _)

/-- A cursor position cut short, then a frame. -/
def unlucky : List Call :=
  [.cursorPos 1 1 24 24 true (some (.took 12)), .completeUpdate [.took 32]]

/-- The server reads the beginning of the frame as the rest of the cursor
position, and closes for the magic of what follows. -/
theorem cursor_cut_short :
    ¬ ∃ c got, run perform (connect tiny 0 [.took 24]) unlucky = some c ∧
      Kept c.program got ∧ ∀ es, received es <+: c.wire →
        Intact (fun _ => 0) fresh got c.wire es := by
  rintro ⟨c, got, hrun, hkept, hintact⟩
  have hprog : ∀ c ∈ run perform (connect tiny 0 [.took 24]) unlucky,
      ∀ m ∈ c.program, m.tag ≠ .Bye := by
    decide +kernel
  have hclosed : ∀ c ∈ run perform (connect tiny 0 [.took 24]) unlucky,
      ∀ d ∈ deliverAll (fun _ => 0) ⟨fresh, []⟩ [.bytes c.wire],
        ¬ d.session.IsOpen := by
    decide +kernel
  have hes : received [.bytes c.wire] <+: c.wire := by
    rw [received, List.flatMap_singleton]
  obtain ⟨d, ms, hd, -, hms, -, -, ho⟩ := hintact [.bytes c.wire] hes
  rcases ho with ho | ⟨v, hv⟩
  · exact hclosed c hrun d hd ho
  · exact hprog c hrun (.bye v) (hkept.1.mem (hms.mem hv)) rfl

end Rmcast.Vncast
