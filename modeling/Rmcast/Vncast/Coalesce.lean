import Rmcast.Vncast.Delivery

/-!
# Coalesced cursor positions

`send_cursor_pos` remembers a position before it gives it to `::send`, and does
not look at the answer. What it leaves out is therefore what it has tried to
send last, and not what the server has got last: the two are the same where the
last attempt was accepted (`cursor_coalesces`).
-/

namespace Rmcast.Vncast

open Loop Qtfb Word

/-! ## §1  A sequence of calls -/

/-- A call of `send_cursor_pos`, and whether a message would be accepted: as a
whole, or not at all (`EAGAIN`). -/
structure CursorCall where
  x : ℤ
  y : ℤ
  w : ℤ
  h : ℤ
  visible : Bool
  accepted : Bool
deriving DecidableEq, Repr

namespace CursorCall

/-- The message of the call. -/
def message (k : CursorCall) : CursorC2S where
  x := ofInt k.x
  y := ofInt k.y
  w := ofInt k.w
  h := ofInt k.h
  visible := if k.visible then 1 else 0

/-- The call under the answer of `::send`. -/
def call (k : CursorCall) : Call :=
  .cursorPos k.x k.y k.w k.h k.visible
    (if k.accepted then some (.took (packed (.cursor k.message)).length) else none)

end CursorCall

/-- The client, and the calls that have got to `::send`. -/
structure Sender where
  conn : Connection
  tried : List CursorCall := []

namespace Sender

/-- The call returns at once: its arguments are the cached ones. -/
def Suppresses (s : Sender) (k : CursorCall) : Prop :=
  k.x = s.conn.cursorX ∧ k.y = s.conn.cursorY ∧ ofInt k.w = s.conn.cursorW ∧
    ofInt k.h = s.conn.cursorH ∧ k.visible = s.conn.cursorVisible

instance (s : Sender) (k : CursorCall) : Decidable (s.Suppresses k) :=
  inferInstanceAs (Decidable (_ ∧ _ ∧ _ ∧ _ ∧ _))

def step (s : Sender) (k : CursorCall) : Sender :=
  ⟨(sendCursorPos s.conn k.x k.y k.w k.h k.visible).1,
    if s.Suppresses k then s.tried else s.tried ++ [k]⟩

/-- The messages that were accepted for delivery. -/
def delivered (s : Sender) : List CursorC2S :=
  (s.tried.filter (·.accepted)).map CursorCall.message

end Sender

/-- A connection after the handshake: no position is cached. -/
def Connection.fresh (c : Connection) : Connection :=
  { c with cursorX := -1, cursorY := -1, cursorW := 0, cursorH := 0, cursorVisible := false }

/-- A connection after the handshake and the calls `ks`. -/
def sent (c : Connection) (ks : List CursorCall) : Sender :=
  ks.foldl Sender.step ⟨c.fresh, []⟩

/-- The server shows the cursor where the call says. -/
def ShownAt (s : Server) (k : CursorCall) : Prop :=
  s.cursorX = int32 k.x ∧ s.cursorY = int32 k.y ∧ s.cursorW = int32 k.w ∧
    s.cursorH = int32 k.h ∧ s.cursorVisible = k.visible

/-- The server after it has read the messages. -/
def readCursors (s : Server) (ms : List CursorC2S) : Server :=
  ms.foldl (fun s m => (handleCursor s m).1) s

/-- The last message accepted is that of the call `k`, so that the server is up
to date once it has read what was accepted. -/
def UpToDate (s : Sender) (k : CursorCall) : Prop :=
  s.delivered.getLast? = some k.message ∧
    ∀ server : Server, ShownAt (readCursors server s.delivered) k

/-! ## §2  The cache -/

/-- The cached state is the position of the call `k`. -/
def Caches (c : Connection) (k : CursorCall) : Prop :=
  c.cursorX = k.x ∧ c.cursorY = k.y ∧ c.cursorW = ofInt k.w ∧ c.cursorH = ofInt k.h ∧
    c.cursorVisible = k.visible

/-- **The invariant**: the cache holds the position that was tried last. -/
def Sender.Inv (s : Sender) : Prop :=
  match s.tried.getLast? with
  | none => Caches s.conn ⟨-1, -1, 0, 0, false, false⟩
  | some k => Caches s.conn k

theorem sendCursorPos_suppressed {s : Sender} {k : CursorCall} (h : s.Suppresses k) :
    sendCursorPos s.conn k.x k.y k.w k.h k.visible = (s.conn, none) :=
  if_pos h

theorem sendCursorPos_tried {s : Sender} {k : CursorCall} (h : ¬ s.Suppresses k) :
    ∃ c, sendCursorPos s.conn k.x k.y k.w k.h k.visible = (c, some k.message) ∧
      Caches c k :=
  ⟨_, if_neg h, rfl, rfl, rfl, rfl, rfl⟩

theorem Sender.step_suppressed {s : Sender} {k : CursorCall} (h : s.Suppresses k) :
    s.step k = s := by
  unfold Sender.step
  rw [sendCursorPos_suppressed h, if_pos h]

theorem Sender.step_tried {s : Sender} {k : CursorCall} (h : ¬ s.Suppresses k) :
    (s.step k).tried = s.tried ++ [k] ∧ Caches (s.step k).conn k := by
  obtain ⟨c, hc, hcache⟩ := sendCursorPos_tried h
  unfold Sender.step
  rw [hc, if_neg h]
  exact ⟨rfl, hcache⟩

theorem Sender.Inv.step {s : Sender} (h : s.Inv) (k : CursorCall) : (s.step k).Inv := by
  by_cases hk : s.Suppresses k
  · rw [Sender.step_suppressed hk]
    exact h
  · obtain ⟨htried, hcache⟩ := Sender.step_tried hk
    unfold Sender.Inv
    rw [htried, List.getLast?_concat]
    exact hcache

theorem inv_sent (c : Connection) (ks : List CursorCall) : (sent c ks).Inv := by
  induction ks using List.reverseRecOn with
  | nil => exact ⟨rfl, rfl, rfl, rfl, rfl⟩
  | append_singleton ks k ih =>
      unfold sent
      rw [List.foldl_append]
      exact ih.step k

/-- What is left out has been tried last. -/
theorem message_eq_of_suppressed {s : Sender} {k k' : CursorCall} (h : s.Suppresses k)
    (hcache : Caches s.conn k') : k.message = k'.message := by
  obtain ⟨hx, hy, hw, hh, hv⟩ := h
  obtain ⟨hx', hy', hw', hh', hv'⟩ := hcache
  unfold CursorCall.message
  rw [hx.trans hx', hy.trans hy', hw.trans hw', hh.trans hh', hv.trans hv']

/-! ## §3  What the server has -/

theorem visible_message (k : CursorCall) : decide (k.message.visible ≠ 0) = k.visible := by
  unfold CursorCall.message
  cases k.visible with
  | true => rfl
  | false => rfl

/-- The server goes by the last message. -/
theorem shownAt_reads {ms : List CursorC2S} {k : CursorCall}
    (h : ms.getLast? = some k.message) (server : Server) : ShownAt (readCursors server ms) k := by
  obtain ⟨pre, rfl⟩ := List.getLast?_eq_some_iff.mp h
  unfold readCursors
  rw [List.foldl_append]
  exact ⟨toInt_ofInt k.x, toInt_ofInt k.y, toInt_ofInt k.w, toInt_ofInt k.h,
    visible_message k⟩

theorem upToDate_of_last {s : Sender} {k : CursorCall}
    (h : s.delivered.getLast? = some k.message) : UpToDate s k :=
  ⟨h, shownAt_reads h⟩

theorem delivered_snoc {s : Sender} {pre : List CursorCall} {k : CursorCall}
    (h : s.tried = pre ++ [k]) (hk : k.accepted) :
    s.delivered.getLast? = some k.message := by
  unfold Sender.delivered
  rw [h, List.filter_append, List.filter_singleton, hk, cond_true, List.map_append,
    List.map_singleton, List.getLast?_concat]

/-! ## §4  The calls on the wire -/

theorem sendDontWait_whole (buf : List UInt8) :
    sendDontWait (some (.took buf.length)) buf = buf :=
  List.take_length

/-- One call writes its message or nothing. -/
theorem perform_call {s : Sender} {d : Client} (k : CursorCall) (hopen : d.finished = false)
    (hconn : d.conn = s.conn) :
    ∃ d', perform d k.call = some d' ∧ d'.finished = false ∧ d'.conn = (s.step k).conn ∧
      d'.wire = d.wire ++ if s.Suppresses k ∨ k.accepted = false then [] else
        packed (.cursor k.message) := by
  by_cases hk : s.Suppresses k
  · refine ⟨⟨s.conn, d.wire, d.program, false⟩, ?_, rfl, ?_, ?_⟩
    · have hsup := sendCursorPos_suppressed hk
      simp only [perform, CursorCall.call, hopen, hconn, hsup, Bool.false_eq_true, if_false]
    · rw [Sender.step_suppressed hk]
    · rw [if_pos (Or.inl hk), List.append_nil]
  · obtain ⟨c, hc, -⟩ := sendCursorPos_tried hk
    have hstep : (s.step k).conn = c := congrArg Prod.fst hc
    refine ⟨⟨c, d.wire ++ sendDontWait (if k.accepted then
      some (.took (packed (.cursor k.message)).length) else none) (packed (.cursor k.message)),
      d.program ++ [.cursor k.message], false⟩, ?_, rfl, hstep.symm, ?_⟩
    · simp only [perform, CursorCall.call, hopen, hconn, hc, Bool.false_eq_true, if_false]
    · show d.wire ++ sendDontWait (if k.accepted then _ else none) _ = _
      congr 1
      cases hacc : k.accepted with
      | true => rw [if_pos rfl, if_neg (by simp [hk]), sendDontWait_whole]
      | false =>
          rw [if_neg (by decide), if_pos (Or.inr rfl)]
          rfl

theorem delivered_step (s : Sender) (k : CursorCall) :
    encodeAll ((s.step k).delivered.map .cursor) = encodeAll (s.delivered.map .cursor) ++
      if s.Suppresses k ∨ k.accepted = false then [] else packed (.cursor k.message) := by
  by_cases hk : s.Suppresses k
  · rw [Sender.step_suppressed hk, if_pos (Or.inl hk), List.append_nil]
  · unfold Sender.delivered
    rw [(Sender.step_tried hk).1, List.filter_append, List.map_append, List.map_append,
      encodeAll_append]
    congr 1
    cases hacc : k.accepted with
    | true =>
        rw [if_neg (by simp [hk]), packed_eq_encode, List.filter_singleton, hacc, cond_true,
          List.map_singleton, List.map_singleton, encodeAll_cons, encodeAll_nil,
          List.append_nil]
    | false =>
        rw [if_pos (Or.inr rfl), List.filter_singleton, hacc, cond_false]
        rfl

/-- The wire carries what was accepted. -/
theorem perform_calls (c : Connection) (ks : List CursorCall) :
    ∃ d, run perform { conn := c.fresh } (ks.map CursorCall.call) = some d ∧
      d.finished = false ∧ d.conn = (sent c ks).conn ∧
      d.wire = encodeAll ((sent c ks).delivered.map .cursor) := by
  induction ks using List.reverseRecOn with
  | nil => exact ⟨_, rfl, rfl, rfl, rfl⟩
  | append_singleton ks k ih =>
      obtain ⟨d, hd, hopen, hconn, hwire⟩ := ih
      obtain ⟨d', hd', hopen', hconn', hwire'⟩ := perform_call k hopen hconn
      have hsent : sent c (ks ++ [k]) = (sent c ks).step k := by
        unfold sent
        rw [List.foldl_append]
        rfl
      refine ⟨d', ?_, hopen', ?_, ?_⟩
      · rw [List.map_append, List.map_singleton, run_snoc, hd]
        exact hd'
      · rw [hsent]
        exact hconn'
      · rw [hsent, delivered_step, ← hwire]
        exact hwire'

/-! ## §5  What coalescing suppresses -/

/-- **A call that returns without sending** repeats what was tried last; the
server has it if that attempt was accepted. A call that does send is not sent
again when it is repeated, whatever became of it; if its message was accepted,
the server is up to date, and the repetition suppresses nothing it lacks. -/
theorem cursor_coalesces (c : Connection) (ks : List CursorCall) (k : CursorCall) :
    (∃ d, run perform { conn := c.fresh } (ks.map CursorCall.call) = some d ∧
      d.conn = (sent c ks).conn ∧
      d.wire = encodeAll ((sent c ks).delivered.map .cursor)) ∧
    ((sent c ks).Suppresses k →
      ((sent c ks).tried = [] ∧ k.message = CursorCall.message ⟨-1, -1, 0, 0, false, false⟩) ∨
      ∃ pre k', (sent c ks).tried = pre ++ [k'] ∧ k'.message = k.message ∧
        (k'.accepted → UpToDate (sent c ks) k)) ∧
    (¬ (sent c ks).Suppresses k →
      (∀ accepted, ((sent c ks).step k).Suppresses { k with accepted := accepted }) ∧
      (k.accepted → UpToDate ((sent c ks).step k) k)) := by
  refine ⟨?_, ?_, ?_⟩
  · obtain ⟨d, hd, -, hconn, hwire⟩ := perform_calls c ks
    exact ⟨d, hd, hconn, hwire⟩
  · intro hk
    have hinv := inv_sent c ks
    unfold Sender.Inv at hinv
    rcases List.eq_nil_or_concat' (sent c ks).tried with hnil | ⟨pre, k', htried⟩
    · rw [hnil] at hinv
      exact Or.inl ⟨hnil, message_eq_of_suppressed hk hinv⟩
    · rw [htried, List.getLast?_concat] at hinv
      have hmsg := message_eq_of_suppressed hk hinv
      refine Or.inr ⟨pre, k', htried, hmsg.symm, fun hacc => upToDate_of_last ?_⟩
      rw [hmsg]
      exact delivered_snoc htried hacc
  · intro hk
    obtain ⟨htried, hx, hy, hw, hh, hv⟩ := Sender.step_tried hk
    refine ⟨fun accepted => ⟨hx.symm, hy.symm, hw.symm, hh.symm, hv.symm⟩, fun hacc => ?_⟩
    exact upToDate_of_last (delivered_snoc htried hacc)

/-- A position that is dropped, and its repetition once the buffer has room. -/
theorem cursor_dropped_not_repeated :
    ¬ ∀ (c : Connection) (ks : List CursorCall) (k : CursorCall),
      (sent c ks).Suppresses k → (sent c ks).delivered.getLast? = some k.message := by
  intro h
  have hlast := h ⟨1, 1, 4, 32, 1, [], [], false, 0, 0, 0, 0, 0, false⟩
    [⟨10, 20, 16, 16, true, false⟩] ⟨10, 20, 16, 16, true, true⟩ (by decide)
  exact absurd hlast (by decide)

end Rmcast.Vncast
