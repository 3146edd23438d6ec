import Rmcast.Lib.Rect
import Rmcast.Qtfb.Chunking

/-!
# The fps cap and the dirty regions

`FrameView::onFrameReady` repaints the rectangle it is told about and nothing
else, so the region of a frame reaches the display only inside the rectangle
of some `frameReady` from that frame on. The cap swallows a frame without
remembering its region: the regions are kept, after every prefix of the
frames, exactly if no frame that meets the picture is swallowed.
-/

namespace Rmcast.Qtfb

open Framing Word

/-! ## §1  Regions -/

/-- The pixels of the picture. `w` and `h` are `int`s, so a pixel has `int`
coordinates. -/
def Server.Shows (s : Server) (p : ℤ × ℤ) : Prop :=
  p ∈ Rect.full s.w s.h ∧ p.1 < 2 ^ 31 ∧ p.2 < 2 ^ 31

/-- The dirty rectangle of a frame; an empty one is the whole picture. -/
def Frame.Dirty (m : Frame) (p : ℤ × ℤ) : Prop :=
  m.w = 0 ∨ m.h = 0 ∨
    p ∈ (⟨m.x.toNat, m.y.toNat, m.w.toNat, m.h.toNat⟩ : Rect)

/-- What `onFrameReady` repaints. -/
def Signal.Repaints : Signal → ℤ × ℤ → Prop
  | .frameReady _ x y dw dh, p => dw ≤ 0 ∨ dh ≤ 0 ∨ p ∈ (⟨x, y, dw, dh⟩ : Rect)
  | _, _ => False

/-- Every pixel of a frame's region is repainted at that frame or later. -/
def KeepsRegions (s : Server) (log : List Act) : Prop :=
  ∀ pre m post, log = pre ++ .handled (.frame m) :: post →
    ∀ p, s.Shows p → m.Dirty p →
      ∃ a, .emitted a ∈ post ∧ Signal.Repaints a p

theorem toInt_of_lt {u : UInt32} (h : u.toNat < 2 ^ 31) :
    toInt u = u.toNat := by
  unfold toInt
  rw [int32_eq (by omega) (by exact_mod_cast h)]

/-- One axis of a frame: as an `int`, the extent is not positive or still
reaches every coordinate it reached. -/
theorem toInt_axis {x w : UInt32} {i : ℤ} (hi : i < 2 ^ 31) (hx : x.toNat ≤ i)
    (hw : i < x.toNat + w.toNat) :
    toInt w ≤ 0 ∨ (toInt x ≤ i ∧ i < toInt x + toInt w) := by
  rw [toInt_of_lt (u := x) (by omega)]
  by_cases hlt : w.toNat < 2 ^ 31
  · rw [toInt_of_lt hlt]
    exact Or.inr ⟨hx, hw⟩
  · have hmax := w.toNat_lt
    left
    unfold toInt
    rw [int32_eq_bmod, Int.bmod_def]
    omega

/-- A frame that is announced is announced with all of its region. -/
theorem repaints_frame {s : Server} {m : Frame} {p : ℤ × ℤ} (hp : s.Shows p)
    (hd : m.Dirty p) :
    Signal.Repaints (.frameReady m.seq (toInt m.x) (toInt m.y) (toInt m.w)
      (toInt m.h)) p := by
  obtain ⟨-, hp1, hp2⟩ := hp
  rcases hd with hw | hh | ⟨h1, h2, h3, h4⟩
  · left
    rw [hw]
    decide
  · right
    left
    rw [hh]
    decide
  · rcases toInt_axis hp1 h1 h2 with hw | ⟨hx1, hx2⟩
    · exact Or.inl hw
    · rcases toInt_axis hp2 h3 h4 with hh | ⟨hy1, hy2⟩
      · exact Or.inr (Or.inl hh)
      · exact Or.inr (Or.inr ⟨hx1, hx2, hy1, hy2⟩)

/-! ## §2  Logs that keep the regions -/

theorem KeepsRegions.append {s : Server} {log log' : List Act}
    (h : KeepsRegions s log) (h' : KeepsRegions s log') :
    KeepsRegions s (log ++ log') := by
  intro pre m post he p hp hd
  rcases List.append_eq_append_iff.mp he with ⟨l, rfl, hl⟩ | ⟨l, hl, hl'⟩
  · exact h' l m post hl p hp hd
  · cases l with
    | nil =>
        rw [List.nil_append] at hl'
        exact h' [] m post hl'.symm p hp hd
    | cons a l =>
        obtain ⟨rfl, rfl⟩ := List.cons.inj hl'
        obtain ⟨a, ha, hr⟩ := h pre m l hl p hp hd
        exact ⟨a, List.mem_append_left log' ha, hr⟩

theorem KeepsRegions.of_append {s : Server} {log log' : List Act}
    (h : KeepsRegions s (log ++ log')) : KeepsRegions s log' := by
  intro pre m post he
  exact h (log ++ pre) m post (by rw [he, List.append_assoc])

/-- One frame with what it caused. -/
theorem keepsRegions_frame_iff {s : Server} {m : Frame} {signals : List Signal} :
    KeepsRegions s (.handled (.frame m) :: signals.map .emitted) ↔
      ∀ p, s.Shows p → m.Dirty p → ∃ a ∈ signals, Signal.Repaints a p := by
  constructor
  · intro h p hp hd
    obtain ⟨a, ha, hr⟩ := h [] m (signals.map .emitted) rfl p hp hd
    obtain ⟨b, hb, hab⟩ := List.mem_map.mp ha
    obtain rfl := Act.emitted.inj hab
    exact ⟨b, hb, hr⟩
  · intro h pre m' post he p hp hd
    cases pre with
    | nil =>
        obtain ⟨hm, rfl⟩ := List.cons.inj he
        obtain rfl := Message.frame.inj (Act.handled.inj hm)
        obtain ⟨a, ha, hr⟩ := h p hp hd
        exact ⟨a, List.mem_map_of_mem ha, hr⟩
    | cons b pre =>
        -- a signal is no frame
        obtain ⟨-, he⟩ := List.cons.inj he
        have hmem : Act.handled (.frame m') ∈ signals.map Act.emitted := by
          rw [he]
          exact List.mem_append_right pre List.mem_cons_self
        obtain ⟨b, -, hb⟩ := List.mem_map.mp hmem
        cases hb

/-! ## §3  Reading frames -/

/-- The session after a frame. -/
def Session.readFrame (clock : ℕ → ℤ) (s : Session) (m : Frame) : Session :=
  let (server, signals) := handleFrame s.server (clock s.frames) m
  { s.record (.frame m) server signals with frames := s.frames + 1 }

def Session.readFrames (clock : ℕ → ℤ) (s : Session) (ms : List Frame) :
    Session :=
  ms.foldl (Session.readFrame clock) s

/-- The session after a HELLO of the accepted version. -/
def Session.greet (s : Session) (v : HelloC2S) : Session :=
  (s.record (.hello v) (handleHello s.server v).1 (handleHello s.server v).2.2).write
    (handleHello s.server v).2.1

/-- A HELLO with frames behind it. -/
def stream (v : HelloC2S) (ms : List Frame) : List UInt8 :=
  encodeAll (.hello v :: ms.map .frame)

theorem readFrames_snoc (clock : ℕ → ℤ) (s : Session) (ms : List Frame)
    (m : Frame) :
    s.readFrames clock (ms ++ [m]) = (s.readFrames clock ms).readFrame clock m := by
  unfold Session.readFrames
  rw [List.foldl_append]
  rfl

theorem readFrame_isOpen {clock : ℕ → ℤ} {s : Session} (m : Frame)
    (h : s.IsOpen) : (s.readFrame clock m).IsOpen := by
  obtain ⟨u, hu⟩ := h
  exact ⟨u, (handleFrame_socket _ _ _).trans hu⟩

theorem greet_isOpen {s : Session} (v : HelloC2S) (h : s.IsOpen) :
    (s.greet v).IsOpen := by
  obtain ⟨u, hu⟩ := h
  refine ⟨true, ?_⟩
  simp only [Session.greet, Session.write, Session.record, handleHello_socket,
    hu, Option.map_some]

theorem look_message {clock : ℕ → ℤ} {s : Session} (hs : s.IsOpen)
    (m : Message) (rest : List UInt8) :
    (reader clock).look s (m.encode ++ rest) = s.handle clock m := by
  have hl : (reader clock).look s (m.encode ++ rest)
      = s.look clock (m.encode ++ rest) := rfl
  rw [hl, look_open hs, front_encode]

theorem drain_frames {clock : ℕ → ℤ} {s : Session} (hs : s.IsOpen)
    (ms : List Frame) :
    (reader clock).drain (ms.length + 1) s (encodeAll (ms.map .frame))
      = some (s.readFrames clock ms, [], false) := by
  induction ms generalizing s with
  | nil =>
      apply Reader.drain_wait
      have hl : s.look clock [] = .wait := by
        rw [look_open hs, front_nil]
      exact hl
  | cons m ms ih =>
      rw [List.map_cons, encodeAll_cons, List.length_cons,
        Reader.drain_take (look_message hs (.frame m) _), List.drop_left' rfl]
      exact ih (readFrame_isOpen m hs)

theorem look_greet {clock : ℕ → ℤ} {s : Session} (hs : s.IsOpen)
    {v : HelloC2S} (hv : v.clientVersion = VERSION) (rest : List UInt8) :
    (reader clock).look s ((Message.hello v).encode ++ rest)
      = .take (Message.hello v).encode.length (s.greet v) := by
  have hack : (handleHello s.server v).2.1.accepted = 1 := if_pos hv
  rw [look_message hs]
  simp only [Session.handle]
  rw [hack, if_neg (by decide)]
  rfl

theorem drain_stream {clock : ℕ → ℤ} {s : Session} (hs : s.IsOpen)
    {v : HelloC2S} (hv : v.clientVersion = VERSION) (ms : List Frame) :
    (reader clock).drain (ms.length + 2) s (stream v ms)
      = some ((s.greet v).readFrames clock ms, [], false) := by
  unfold stream
  rw [encodeAll_cons, Reader.drain_take (look_greet hs hv _), List.drop_left' rfl]
  exact drain_frames (greet_isOpen v hs) ms

theorem readFrames_isOpen {clock : ℕ → ℤ} {s : Session} (ms : List Frame)
    (h : s.IsOpen) : (s.readFrames clock ms).IsOpen := by
  induction ms generalizing s with
  | nil => exact h
  | cons m ms ih => exact ih (readFrame_isOpen m h)

theorem flush_log {s : Session} (h : s.IsOpen) : s.flush.log = s.log := by
  obtain ⟨u, hu⟩ := h
  unfold Session.flush
  rw [hu]
  rfl

/-- What a log says after the stream, however it was delivered. -/
theorem deliverAll_stream (clock : ℕ → ℤ) {s : Session} (hs : s.IsOpen)
    {v : HelloC2S} (hv : v.clientVersion = VERSION) {ms : List Frame}
    {es : List Delivery} (hes : received es = stream v ms) :
    ∃ c, deliverAll clock ⟨s, []⟩ es = some c ∧
      c.session.log = ((s.greet v).readFrames clock ms).log := by
  have hacc : AcceptedHellos (received es) := by
    rw [hes, stream, ← List.append_nil (encodeAll _)]
    apply acceptedHellos_encodeAll front_nil
    intro w hw
    rcases List.mem_cons.mp hw with hw | hw
    · obtain rfl := Message.hello.inj hw
      exact hv
    · obtain ⟨m, -, hm⟩ := List.mem_map.mp hw
      cases hm
  obtain ⟨c, r, hc, hC⟩ := deliverAll_chunked clock hs es hacc
  refine ⟨c, hc, ?_⟩
  obtain ⟨k, hk⟩ := hC.drained
  rw [hes] at hk
  obtain rfl := Reader.drain_unique hk (drain_stream hs hv ms)
  -- both ends are open, so the flush shows in the sockets only
  have hopen : c.session.IsOpen := by
    by_contra hne
    cases hC.stopped.mpr hne
  calc c.session.log = c.session.flush.log := (flush_log hopen).symm
    _ = ((s.greet v).readFrames clock ms).flush.log := by rw [hC.flush]
    _ = _ := flush_log (readFrames_isOpen ms (greet_isOpen v hs))

/-! ## §4  What the cap swallows -/

/-- The cap swallows the frame `m`, which meets the picture, after the frames
`ms`. -/
def Swallows (clock : ℕ → ℤ) (s : Session) (ms : List Frame) (m : Frame) : Prop :=
  throttled (s.readFrames clock ms).server
      (clock (s.readFrames clock ms).frames) m ∧
    ∃ p, s.server.Shows p ∧ m.Dirty p

/-- No frame of the stream is swallowed. -/
def Spares (clock : ℕ → ℤ) (s : Session) (fs : List Frame) : Prop :=
  ∀ ms m, ms ++ [m] <+: fs → ¬ Swallows clock s ms m

theorem readFrame_log (clock : ℕ → ℤ) (s : Session) (m : Frame) :
    (s.readFrame clock m).log = s.log ++ .handled (.frame m) ::
      (handleFrame s.server (clock s.frames) m).2.map .emitted := rfl

/-- **Step lemma**: a frame that is not swallowed. -/
theorem keepsRegions_readFrame {clock : ℕ → ℤ} {s t : Session} {m : Frame}
    (h : throttled t.server (clock t.frames) m = true →
      ∀ p, s.server.Shows p → ¬ m.Dirty p) :
    KeepsRegions s.server (.handled (.frame m) ::
      (handleFrame t.server (clock t.frames) m).2.map .emitted) := by
  rw [keepsRegions_frame_iff]
  intro p hp hd
  cases ht : throttled t.server (clock t.frames) m with
  | true => exact absurd hd (h ht p hp)
  | false =>
      obtain ⟨u, pre, he, -⟩ := handleFrame_emits ht
      rw [he]
      exact ⟨_, List.mem_append_right pre (List.mem_singleton.mpr rfl),
        repaints_frame hp hd⟩

/-- **Run lemma**: what the frames add to the log. -/
theorem keepsRegions_readFrames {clock : ℕ → ℤ} {s : Session} {fs : List Frame}
    (h : Spares clock s fs) :
    ∃ new, (s.readFrames clock fs).log = s.log ++ new ∧
      KeepsRegions s.server new := by
  induction fs using List.reverseRecOn with
  | nil => exact ⟨[], (List.append_nil _).symm, fun pre m post he => by simp at he⟩
  | append_singleton fs m ih =>
      obtain ⟨new, hlog, hnew⟩ :=
        ih fun ms m' hp => h ms m' (hp.trans (List.prefix_append fs [m]))
      refine ⟨new ++ _, ?_, hnew.append (keepsRegions_readFrame fun ht p hp hd =>
        h fs m (List.prefix_refl _) ⟨ht, p, hp, hd⟩)⟩
      rw [readFrames_snoc, readFrame_log, hlog, List.append_assoc]

theorem readFrames_log_prefix (clock : ℕ → ℤ) (s : Session) (ms : List Frame) :
    s.log <+: (s.readFrames clock ms).log := by
  induction ms using List.reverseRecOn with
  | nil => exact List.prefix_refl _
  | append_singleton ms m ih =>
      rw [readFrames_snoc, readFrame_log]
      exact ih.trans (List.prefix_append _ _)

/-- What the HELLO adds to the log. -/
theorem keepsRegions_greet (s : Session) (v : HelloC2S) :
    ∃ new, (s.greet v).log = s.log ++ new ∧ KeepsRegions s.server new := by
  refine ⟨[.handled (.hello v), .emitted .cursorChanged,
    .emitted .lastFrameModeChanged, .wrote (handleHello s.server v).2.1], ?_, ?_⟩
  · show (s.log ++ _) ++ _ = _
    rw [List.append_assoc]
    rfl
  · intro pre m post he
    have hmem : Act.handled (.frame m) ∈ pre ++ .handled (.frame m) :: post :=
      List.mem_append_right pre List.mem_cons_self
    rw [← he] at hmem
    simp at hmem

/-- **The regions of the frames are kept**, at every time and however the
stream is delivered, exactly if the cap swallows no frame that meets the
picture. -/
theorem regions_kept_iff (clock : ℕ → ℤ) {s : Session} (hs : s.IsOpen)
    {v : HelloC2S} (hv : v.clientVersion = VERSION) (fs : List Frame) :
    (∀ ms, ms <+: fs → ∀ es, received es = stream v ms →
      ∃ c new, deliverAll clock ⟨s, []⟩ es = some c ∧
        c.session.log = s.log ++ new ∧ KeepsRegions s.server new) ↔
      Spares clock (s.greet v) fs := by
  obtain ⟨hello, hgreet, hkept⟩ := keepsRegions_greet s v
  constructor
  · rintro h ms m hp ⟨ht, p, hshow, hd⟩
    have hes : received [.bytes (stream v (ms ++ [m]))] = stream v (ms ++ [m]) :=
      List.append_nil _
    obtain ⟨c, new, hc, hlog, hnew⟩ := h (ms ++ [m]) hp _ hes
    obtain ⟨c', hc', hlog'⟩ := deliverAll_stream clock hs hv hes
    obtain rfl := Option.some.inj (hc.symm.trans hc')
    -- the swallowed frame is the last entry of the log
    obtain ⟨old, hold⟩ := readFrames_log_prefix clock (s.greet v) ms
    rw [readFrames_snoc, readFrame_log, handleFrame_throttled ht, hlog, ← hold,
      hgreet, List.append_assoc, List.append_assoc] at hlog'
    rw [List.append_cancel_left hlog', ← List.append_assoc] at hnew
    obtain ⟨a, ha, -⟩ := keepsRegions_frame_iff.mp hnew.of_append p hshow hd
    cases ha
  · intro h ms hp es hes
    obtain ⟨c, hc, hlog⟩ := deliverAll_stream clock hs hv hes
    obtain ⟨new, hnew, hk⟩ := keepsRegions_readFrames (s := s.greet v)
      fun gs m hg => h gs m (hg.trans hp)
    refine ⟨c, hello ++ new, hc, ?_, hkept.append hk⟩
    rw [hlog, hnew, hgreet, List.append_assoc]

/-- A new connection to a server for a 1620×2160 grayscale picture. -/
def desk : Session where
  server :=
    { socket := some ⟨false, false⟩
      w := 1620, h := 2160, stride := 1620, bpp := 8, format := 2
      shmName := [] }

/-- A frame is read at second 1, and all others 10 ms later. -/
def twoTicks (n : ℕ) : ℤ := if n = 0 then 1000 else 1010

def corner : Frame := ⟨1, 0, 0, 300, 300, 3⟩

def middle : Frame := ⟨2, 500, 500, 300, 300, 3⟩

def blink : Frame := ⟨3, 500, 500, 16, 16, 2⟩

theorem spares_blink : Spares twoTicks (desk.greet ⟨1, 0, 0, 10⟩) [corner, blink] := by
  rintro ms m ⟨rest, hms⟩ ⟨ht, -⟩
  rcases ms with - | ⟨a, - | ⟨b, ms⟩⟩
  all_goals
    simp only [List.cons_append, List.nil_append, List.cons.injEq] at hms
  · obtain ⟨rfl, -⟩ := hms
    revert ht
    decide
  · obtain ⟨rfl, rfl, -⟩ := hms
    revert ht
    decide
  · simp at hms

/-- With a cap of 10 fps a small frame right behind a large one is kept. -/
theorem regions_kept_blink :
    ∃ c new, deliverAll twoTicks ⟨desk, []⟩
        [.bytes (stream ⟨1, 0, 0, 10⟩ [corner, blink])] = some c ∧
      c.session.log = desk.log ++ new ∧ KeepsRegions desk.server new :=
  (regions_kept_iff twoTicks ⟨false, rfl⟩ rfl [corner, blink]).mpr spares_blink
    _ (List.prefix_refl _) _ (List.append_nil _)

/-- A large one is swallowed, and nothing follows that would repaint it. -/
theorem middle_lost :
    ¬ ∃ c new, deliverAll twoTicks ⟨desk, []⟩
        [.bytes (stream ⟨1, 0, 0, 10⟩ [corner, middle])] = some c ∧
      c.session.log = desk.log ++ new ∧ KeepsRegions desk.server new := by
  rintro ⟨c, new, hc, hlog, hnew⟩
  have hlast : ∀ c ∈ deliverAll twoTicks ⟨desk, []⟩
      [.bytes (stream ⟨1, 0, 0, 10⟩ [corner, middle])],
      c.session.log.getLast? = some (.handled (.frame middle)) := by
    decide +kernel
  obtain ⟨old, hold⟩ := List.getLast?_eq_some_iff.mp (hlast c hc)
  obtain rfl : new = old ++ [.handled (.frame middle)] := by
    rw [← hold, hlog]
    rfl
  have hlost : KeepsRegions desk.server
      (.handled (.frame middle) :: ([] : List Signal).map .emitted) :=
    hnew.of_append
  obtain ⟨a, ha, -⟩ := keepsRegions_frame_iff.mp hlost (500, 500)
    ⟨by decide, by decide, by decide⟩ (Or.inr (Or.inr (by decide)))
  cases ha

end Rmcast.Qtfb
