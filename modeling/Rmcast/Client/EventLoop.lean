import Rmcast.Screen.Cursor
import Rmcast.Screen.Trace

/-!
# The event loop of the client

`client::event_loop` sleeps in `poll` until the socket is readable or a
timeout passes, lets libvncclient handle a message, and asks the screen for
the next timeout. Two other threads act on the screen meanwhile: the one that
reads the input events and the one that polls the orientation sensor. §1 is
the loop as a machine whose steps the threads take in any order. libvncclient
itself is not part of the repository; here it is a buffer that a read may fill
beyond the message it is for.

§2 asks when a rotation is left waiting: `set_effective_orientation` raises
the flag of the accumulator, but does not wake the loop.
-/

namespace Rmcast.Client

open Loop Screen Word

/-! ## §1  The machine -/

/-- Bytes on their way, bytes the socket holds, bytes in the buffer of the
`rfbClient`, and the lengths of the messages the server has sent and that have
not been handled. -/
structure Net where
  flight : ℕ := 0
  kernel : ℕ := 0
  buffered : ℕ := 0
  messages : List ℕ := []
deriving DecidableEq, Repr

/-- Where the main thread is. -/
inductive Pc where
  /-- About to call `poll`. -/
  | ready (timeout : ℤ)
  | polling (timeout : ℤ)
  /-- `poll` has returned, with or without `POLLIN`. -/
  | awake (pollin : Bool)
  /-- About to ask the screen. -/
  | handled
  /-- The loop has been left. -/
  | left
deriving DecidableEq, Repr

structure EventLoop where
  screen : State
  pc : Pc := .ready (-1)
  net : Net := {}
  /-- Something has been marked for an update, under the orientation in force,
  since the last blit. -/
  dirty : Bool := false

/-- What `HandleRFBServerMessage` calls back. -/
inductive Callback where
  | createFramebuf (sw sh : ℤ)
  | commitUpdates (src : List UInt8) (r : Rect)
  | handleCursorPos (x y : ℤ)
deriving Repr

def callback (s : State) : Callback → Option State
  | .createFramebuf sw sh => createFramebuf s sw sh
  | .commitUpdates src r => commitUpdates { s with srcBuffer := src } r
  | .handleCursorPos x y => some (handleCursorPos s x y).1

/-- The callback marks something for an update, or changes the orientation
under which it is shown. -/
def Callback.marks : Callback → Bool
  | .createFramebuf _ _ | .commitUpdates _ _ => true
  | .handleCursorPos _ _ => false

/-- The lambda `handle_status`, on the timeouts. -/
def handleStatus (timeout st : ℤ) : ℤ :=
  if timeout = -1 then st
  else if st ≠ -1 then min timeout st else timeout

/-- `set_effective_orientation(o)` switches the orientation and marks the
source. -/
def Switches (s : State) (o : Orientation) : Prop :=
  o ≠ .Auto ∧ s.effective ≠ o ∧ s.srcWidth > 0 ∧ s.srcHeight > 0

instance (s : State) (o : Orientation) : Decidable (Switches s o) :=
  inferInstanceAs (Decidable (_ ∧ _ ∧ _ ∧ _))

inductive Event where
  /-- The server sends a message. -/
  | send (length : ℕ)
  | arrive (bytes : ℕ)
  /-- The main thread calls `poll`, and `poll` returns. -/
  | enter
  | wake
  /-- `HandleRFBServerMessage`, which takes `taken` bytes from the socket. -/
  | message (calls : List Callback) (taken : ℕ)
  /-- `HandleRFBServerMessage` fails. -/
  | fail
  /-- No `POLLIN`. -/
  | skip
  | tick (now now' : ℤ)
  /-- The sensor thread. -/
  | sensor (o : Orientation)
  /-- The input thread. -/
  | setMode (mode : RepaintMode)
  | repaint (now : ℤ)
deriving Repr

/-- `HandleRFBServerMessage` handles exactly one message, once all of it is
there. -/
def handleMessage (l : EventLoop) (calls : List Callback) (taken : ℕ) :
    Option EventLoop :=
  match l.net.messages with
  | [] => none
  | m :: rest =>
    -- a read may take more than the message needs
    if taken ≤ l.net.kernel ∧ m ≤ l.net.buffered + taken then
      (run callback l.screen calls).map fun s =>
        { screen := s
          pc := .handled
          net := { l.net with
            kernel := l.net.kernel - taken
            buffered := l.net.buffered + taken - m
            messages := rest }
          dirty := l.dirty || calls.any Callback.marks }
    else none

def EventLoop.step (l : EventLoop) : Event → Option EventLoop
  | .send n =>
    if n = 0 then none
    else some { l with net := { l.net with
      flight := l.net.flight + n, messages := l.net.messages ++ [n] } }
  | .arrive n =>
    if n ≤ l.net.flight then some { l with net := { l.net with
      flight := l.net.flight - n, kernel := l.net.kernel + n } }
    else none
  | .enter => match l.pc with
    | .ready timeout => some { l with pc := .polling (int32 timeout) }
    | _ => none
  | .wake => match l.pc with
    | .polling timeout =>
      -- the infinite timeout ends only when there is something to read
      if l.net.kernel > 0 ∨ timeout ≥ 0 then
        some { l with pc := .awake (decide (l.net.kernel > 0)) }
      else none
    | _ => none
  | .message calls taken => match l.pc with
    | .awake true => handleMessage l calls taken
    | _ => none
  | .fail => match l.pc with
    | .awake true => some { l with pc := .left }
    | _ => none
  | .skip => match l.pc with
    | .awake false => some { l with pc := .handled }
    | _ => none
  | .tick now now' => match l.pc with
    | .handled => (eventLoop l.screen now now').map fun (s, st) =>
      { l with
        screen := s
        pc := .ready (handleStatus (-1) st)
        dirty := if Repaints l.screen (.tick now now') then false else l.dirty }
    | _ => none
  -- the other threads leave the program counter as it is: nothing wakes `poll`
  | .sensor o => some { l with
      screen := setEffectiveOrientation l.screen o
      dirty := if Switches l.screen o then true else l.dirty }
  | .setMode mode => some { l with screen := setRepaintMode l.screen mode }
  | .repaint now => (Screen.repaint l.screen now).map fun s =>
      { l with screen := s, dirty := false }

/-- What an event does, with what it needs. -/
inductive Goes (l : EventLoop) : Event → EventLoop → Prop where
  | send (n : ℕ) (hn : n ≠ 0) :
      Goes l (.send n) { l with net := { l.net with
        flight := l.net.flight + n, messages := l.net.messages ++ [n] } }
  | arrive (n : ℕ) (hn : n ≤ l.net.flight) :
      Goes l (.arrive n) { l with net := { l.net with
        flight := l.net.flight - n, kernel := l.net.kernel + n } }
  | enter (timeout : ℤ) (hpc : l.pc = .ready timeout) :
      Goes l .enter { l with pc := .polling (int32 timeout) }
  | wake (timeout : ℤ) (hpc : l.pc = .polling timeout)
      (hwake : l.net.kernel > 0 ∨ timeout ≥ 0) :
      Goes l .wake { l with pc := .awake (decide (l.net.kernel > 0)) }
  | message (calls : List Callback) (taken m : ℕ) (rest : List ℕ) (s : State)
      (hpc : l.pc = .awake true) (hm : l.net.messages = m :: rest)
      (htaken : taken ≤ l.net.kernel) (hthere : m ≤ l.net.buffered + taken)
      (hs : run callback l.screen calls = some s) :
      Goes l (.message calls taken)
        { screen := s
          pc := .handled
          net := { l.net with
            kernel := l.net.kernel - taken
            buffered := l.net.buffered + taken - m
            messages := rest }
          dirty := l.dirty || calls.any Callback.marks }
  | fail (hpc : l.pc = .awake true) : Goes l .fail { l with pc := .left }
  | skip (hpc : l.pc = .awake false) : Goes l .skip { l with pc := .handled }
  | tick (now now' : ℤ) (s : State) (st : ℤ) (hpc : l.pc = .handled)
      (hs : eventLoop l.screen now now' = some (s, st)) :
      Goes l (.tick now now')
        { l with
          screen := s
          pc := .ready (handleStatus (-1) st)
          dirty := if Repaints l.screen (.tick now now') then false else l.dirty }
  | sensor (o : Orientation) :
      Goes l (.sensor o)
        { l with
          screen := setEffectiveOrientation l.screen o
          dirty := if Switches l.screen o then true else l.dirty }
  | setMode (mode : RepaintMode) :
      Goes l (.setMode mode) { l with screen := setRepaintMode l.screen mode }
  | repaint (now : ℤ) (s : State) (hs : Screen.repaint l.screen now = some s) :
      Goes l (.repaint now) { l with screen := s, dirty := false }

theorem goes_of_handleMessage {l l' : EventLoop} {calls : List Callback} {taken : ℕ}
    (hpc : l.pc = .awake true) (h : handleMessage l calls taken = some l') :
    Goes l (.message calls taken) l' := by
  unfold handleMessage at h
  split at h
  · cases h
  · rename_i m rest hm
    split at h
    · rename_i hc
      obtain ⟨s, hs, rfl⟩ := Option.map_eq_some_iff.mp h
      exact .message calls taken m rest s hpc hm hc.1 hc.2 hs
    · cases h

/-- **The cases of a step.** -/
theorem goes_of_step {l l' : EventLoop} {e : Event} (hstep : l.step e = some l') :
    Goes l e l' := by
  unfold EventLoop.step at hstep
  cases e with
  | send n =>
      simp only at hstep
      split at hstep
      · cases hstep
      · rename_i hn
        cases hstep
        exact .send n hn
  | arrive n =>
      simp only at hstep
      split at hstep
      · rename_i hn
        cases hstep
        exact .arrive n hn
      · cases hstep
  | enter =>
      simp only at hstep
      split at hstep
      · rename_i timeout hpc
        cases hstep
        exact .enter timeout hpc
      · cases hstep
  | wake =>
      simp only at hstep
      split at hstep
      · rename_i timeout hpc
        split at hstep
        · rename_i hwake
          cases hstep
          exact .wake timeout hpc hwake
        · cases hstep
      · cases hstep
  | message calls taken =>
      simp only at hstep
      split at hstep
      · rename_i hpc
        exact goes_of_handleMessage hpc hstep
      · cases hstep
  | fail =>
      simp only at hstep
      split at hstep
      · rename_i hpc
        cases hstep
        exact .fail hpc
      · cases hstep
  | skip =>
      simp only at hstep
      split at hstep
      · rename_i hpc
        cases hstep
        exact .skip hpc
      · cases hstep
  | tick now now' =>
      simp only at hstep
      split at hstep
      · rename_i hpc
        obtain ⟨⟨s, st⟩, hs, rfl⟩ := Option.map_eq_some_iff.mp hstep
        exact .tick now now' s st hpc hs
      · cases hstep
  | sensor o =>
      cases hstep
      exact .sensor o
  | setMode mode =>
      cases hstep
      exact .setMode mode
  | repaint now =>
      obtain ⟨s, hs, rfl⟩ := Option.map_eq_some_iff.mp hstep
      exact .repaint now s hs

/-- The loop begins once the framebuffer is there, with what the handshake has
left of the connection. -/
def EventLoop.start (d : Device) (o : Orientation) (env : Option (List Char))
    (sw sh : ℤ) (net : Net) : Option EventLoop :=
  (createFramebuf (create d o env) sw sh).map fun s => { screen := s, net := net }

/-- The main thread is in `poll`, or will be without another look at the
screen, for as long as nothing can be read. -/
def Pc.Idle : Pc → Prop
  | .ready timeout => int32 timeout < 0
  | .polling timeout => timeout < 0
  | .awake _ | .handled | .left => False

instance : ∀ pc : Pc, Decidable pc.Idle
  | .ready _ => inferInstanceAs (Decidable (_ < _))
  | .polling _ => inferInstanceAs (Decidable (_ < _))
  | .awake _ | .handled | .left => inferInstanceAs (Decidable False)

/-- The main thread is blocked: the timeout is infinite and the socket has
nothing to read. -/
def Blocked (l : EventLoop) : Prop :=
  ∃ timeout, l.pc = .polling timeout ∧ timeout < 0 ∧ l.net.kernel = 0

theorem Blocked.idle {l : EventLoop} (h : Blocked l) : l.pc.Idle ∧ l.net.kernel = 0 := by
  obtain ⟨timeout, hpc, hneg, hk⟩ := h
  rw [hpc]
  exact ⟨hneg, hk⟩

/-! ## §2  Rotations -/

/-- An update is waiting while the main thread is blocked. -/
def Stranded (l : EventLoop) : Prop :=
  Blocked l ∧ l.screen.updateInfo.hasUpdate = true ∧ l.dirty = true

/-- The clock is steady. -/
def Clocked (l : EventLoop) : Event → Prop
  | .tick now _ => l.screen.lastRepaint ≤ now
  | _ => True

instance (l : EventLoop) : ∀ e, Decidable (Clocked l e)
  | .tick _ _ => inferInstanceAs (Decidable (_ ≤ _))
  | .send _ | .arrive _ | .enter | .wake | .message _ _ | .fail | .skip | .sensor _
  | .setMode _ | .repaint _ => inferInstanceAs (Decidable True)

/-- The sensor switches the orientation while the main thread is in `poll`
without a timeout, or about to be, and nothing can be read. -/
def Strands (l : EventLoop) : Event → Prop
  | .sensor o => l.pc.Idle ∧ l.net.kernel = 0 ∧ Switches l.screen o
  | _ => False

instance (l : EventLoop) : ∀ e, Decidable (Strands l e)
  | .sensor _ => inferInstanceAs (Decidable (_ ∧ _ ∧ _))
  | .tick _ _ | .send _ | .arrive _ | .enter | .wake | .message _ _ | .fail | .skip
  | .setMode _ | .repaint _ => inferInstanceAs (Decidable False)

/-- The repaint delays fit an `int`. -/
structure Delays (s : State) : Prop where
  standard : s.standardRepaintDelay < 2 ^ 31
  fast : s.fastRepaintDelay < 2 ^ 31

/-- The screen keeps its repaint delays. -/
def SameDelays (s s' : State) : Prop :=
  s'.standardRepaintDelay = s.standardRepaintDelay ∧
    s'.fastRepaintDelay = s.fastRepaintDelay

theorem Delays.of_same {s s' : State} (h : Delays s) (hs : SameDelays s s') :
    Delays s' :=
  ⟨by rw [hs.1]; exact h.standard, by rw [hs.2]; exact h.fast⟩

/-- Nothing is left waiting when the main thread is idle. -/
structure Attended (l : EventLoop) : Prop where
  delays : Delays l.screen
  idle : l.pc.Idle → l.net.kernel = 0 → l.screen.updateInfo.hasUpdate = true →
    l.dirty = false

theorem Attended.not_stranded {l : EventLoop} (h : Attended l) : ¬ Stranded l := by
  rintro ⟨hb, hu, hd⟩
  have hclean := h.idle hb.idle.1 hb.idle.2 hu
  rw [hd] at hclean
  cases hclean

section Delay

variable {s s' : State}

theorem sameDelays_repaint {now : ℤ} (h : Screen.repaint s now = some s') :
    SameDelays s s' := by
  have hbind : (copyToPanel (beginRepaint s now)).bind _ = some s' := h
  cases hc : copyToPanel (beginRepaint s now) with
  | none =>
      rw [hc] at hbind
      cases hbind
  | some device =>
      rw [hc] at hbind
      cases hbind
      exact ⟨rfl, rfl⟩

theorem sameDelays_commit {r : Rect} (h : commitUpdates s r = some s') :
    SameDelays s s' := by
  unfold commitUpdates at h
  split at h
  · split at h
    · cases hd : s.device.update s.updateInfo.rect s.waveformMode with
      | none =>
          simp only [hd] at h
          cases h
      | some device =>
          simp only [hd] at h
          cases h
          exact ⟨rfl, rfl⟩
    · cases h
      exact ⟨rfl, rfl⟩
  · cases h
    exact ⟨rfl, rfl⟩

theorem sameDelays_callback {c : Callback} (h : callback s c = some s') :
    SameDelays s s' := by
  cases c with
  | createFramebuf sw sh =>
      obtain ⟨-, -, e, rfl⟩ := createFramebuf_cases h
      exact ⟨rfl, rfl⟩
  | commitUpdates src r =>
      exact sameDelays_commit (s := { s with srcBuffer := src }) h
  | handleCursorPos x y =>
      cases h
      exact ⟨rfl, rfl⟩

theorem delays_callbacks {calls : List Callback} (hs : Delays s)
    (h : run callback s calls = some s') : Delays s' :=
  run_keeps (P := fun _ _ => True) Delays
    (fun s c t hs _ hc => hs.of_same (sameDelays_callback hc)) hs
    (by
      clear h hs
      induction calls generalizing s with
      | nil => trivial
      | cons c calls ih => exact ⟨trivial, fun t _ => ih⟩) h

theorem sameDelays_sensor (s : State) (o : Orientation) :
    SameDelays s (setEffectiveOrientation s o) := by
  unfold setEffectiveOrientation
  split
  · exact ⟨rfl, rfl⟩
  · split
    · exact ⟨rfl, rfl⟩
    · split
      · exact ⟨rfl, rfl⟩
      · exact ⟨rfl, rfl⟩

/-- A timeout that the screen asks for is finite for `poll`. -/
theorem waitTime_int32 (hs : Delays s) {now : ℤ} (hclock : s.lastRepaint ≤ now)
    (hwait : ¬ waitTime s now ≤ 0) : 0 ≤ int32 (handleStatus (-1) (waitTime s now)) := by
  have hle : waitTime s now < 2 ^ 31 := by
    have hd : (if s.repaintMode = .standard then s.standardRepaintDelay
        else s.fastRepaintDelay) < 2 ^ 31 := by
      split
      · exact hs.standard
      · exact hs.fast
    unfold waitTime at hwait ⊢
    simp only at hwait ⊢
    generalize (if s.repaintMode = .standard then s.standardRepaintDelay
      else s.fastRepaintDelay) = delay at hwait hd ⊢
    by_cases hpos : 0 ≤ s.lastRepaint + delay * 1000000 - now
    · rw [Int.tdiv_eq_ediv_of_nonneg hpos]
      omega
    · refine absurd ?_ hwait
      rw [← neg_neg (s.lastRepaint + delay * 1000000 - now), Int.neg_tdiv]
      exact neg_nonpos.mpr (Int.tdiv_nonneg (by omega) (by omega))
  have he : handleStatus (-1) (waitTime s now) = waitTime s now := if_pos rfl
  rw [he, int32_eq (by omega) (by omega)]
  omega

end Delay

/-- A switch without effect leaves the accumulator alone. -/
theorem setEffectiveOrientation_updateInfo {s : State} {o : Orientation}
    (h : ¬ Switches s o) : (setEffectiveOrientation s o).updateInfo = s.updateInfo := by
  unfold setEffectiveOrientation
  split
  · rfl
  · rename_i ho
    split
    · rfl
    · rename_i hne
      split
      · rename_i hpos
        exact absurd ⟨ho, hne, hpos⟩ h
      · rfl

/-- The screen's turn: a repaint blits everything, and what waits for one has a
finite timeout. -/
theorem Attended.tick {l : EventLoop} {now now' st : ℤ} {s : State} (h : Attended l)
    (hclock : l.screen.lastRepaint ≤ now) (hs : eventLoop l.screen now now' = some (s, st)) :
    Attended { l with
      screen := s
      pc := .ready (handleStatus (-1) st)
      dirty := if Repaints l.screen (.tick now now') then false else l.dirty } := by
  unfold eventLoop at hs
  by_cases hu : l.screen.updateInfo.hasUpdate = true
  · by_cases hw : waitTime l.screen now ≤ 0
    · rw [if_pos hu, if_pos hw] at hs
      cases hr : Screen.repaint l.screen now' with
      | none =>
          rw [hr] at hs
          cases hs
      | some s' =>
          rw [hr] at hs
          cases hs
          refine ⟨h.delays.of_same (sameDelays_repaint hr), fun _ _ _ => ?_⟩
          exact if_pos ⟨hu, hw⟩
    · -- the loop sleeps with a timeout
      rw [if_pos hu, if_neg hw] at hs
      cases hs
      refine ⟨h.delays, fun hidle => ?_⟩
      exact absurd hidle (not_lt.mpr (waitTime_int32 h.delays hclock hw))
  · rw [if_neg hu] at hs
    cases hs
    exact ⟨h.delays, fun _ _ hset => absurd hset hu⟩

theorem Attended.sensor {l : EventLoop} {o : Orientation} (h : Attended l)
    (hstrand : ¬ Strands l (.sensor o)) :
    Attended { l with
      screen := setEffectiveOrientation l.screen o
      dirty := if Switches l.screen o then true else l.dirty } := by
  refine ⟨h.delays.of_same (sameDelays_sensor _ _), fun hidle hk hu => ?_⟩
  by_cases hsw : Switches l.screen o
  · exact absurd ⟨hidle, hk, hsw⟩ hstrand
  · show (if Switches l.screen o then true else l.dirty) = false
    rw [if_neg hsw]
    refine h.idle hidle hk ?_
    rw [← setEffectiveOrientation_updateInfo hsw]
    exact hu

/-- **Step lemma.** -/
theorem Attended.step {l l' : EventLoop} {e : Event} (h : Attended l)
    (hclock : Clocked l e) (hstrand : ¬ Strands l e) (hstep : l.step e = some l') :
    Attended l' := by
  cases goes_of_step hstep with
  | send n hn => exact ⟨h.delays, h.idle⟩
  | arrive n hn =>
      refine ⟨h.delays, fun hidle hk => h.idle hidle ?_⟩
      exact (Nat.add_eq_zero_iff.mp hk).1
  | enter timeout hpc =>
      refine ⟨h.delays, fun hidle => h.idle ?_⟩
      rw [hpc]
      exact hidle
  | wake timeout hpc hwake => exact ⟨h.delays, fun hidle => hidle.elim⟩
  | message calls taken m rest s hpc hm htaken hthere hs =>
      exact ⟨delays_callbacks h.delays hs, fun hidle => hidle.elim⟩
  | fail hpc => exact ⟨h.delays, fun hidle => hidle.elim⟩
  | skip hpc => exact ⟨h.delays, fun hidle => hidle.elim⟩
  | tick now now' s st hpc hs => exact h.tick hclock hs
  | sensor o => exact h.sensor hstrand
  | setMode mode => exact ⟨⟨h.delays.standard, h.delays.fast⟩, h.idle⟩
  | repaint now s hs =>
      exact ⟨h.delays.of_same (sameDelays_repaint hs), fun _ _ _ => rfl⟩

/-- The delays of a new screen are short. -/
theorem delays_create (d : Device) (o : Orientation) (env : Option (List Char)) :
    Delays (create d o env) := by
  have htable : ∀ e ∈ waveformModes, e.2.1 < 2 ^ 31 := by decide
  refine ⟨?_, ?_⟩
  · show ((env.bind fun e => List.lookup e waveformModes).getD (500, .UI)).1 < 2 ^ 31
    cases hl : env.bind fun e => List.lookup e waveformModes with
    | none =>
        show (500 : ℤ) < 2 ^ 31
        decide
    | some x =>
        obtain ⟨e, -, hlookup⟩ := Option.bind_eq_some_iff.mp hl
        obtain ⟨l₁, l₂, heq, -⟩ := List.lookup_eq_some_iff.mp hlookup
        exact htable (e, x) (by rw [heq]; simp)
  · show (16 : ℤ) < 2 ^ 31
    decide

/-- A new screen has no update to show. -/
theorem attended_start {d : Device} {o : Orientation} {env : Option (List Char)}
    {sw sh : ℤ} {net : Net} {l : EventLoop}
    (h : EventLoop.start d o env sw sh net = some l) : Attended l := by
  obtain ⟨s, hs, rfl⟩ := Option.map_eq_some_iff.mp h
  exact ⟨(delays_create d o env).of_same
    (sameDelays_callback (c := .createFramebuf sw sh) hs), fun _ _ _ => rfl⟩

/-- **No rotation is stranded** in a run in which the sensor never switches
the orientation while the main thread is idle: no state of the run has it
blocked with an update waiting. -/
theorem never_stranded {d : Device} {o : Orientation} {env : Option (List Char)}
    {sw sh : ℤ} {net : Net} {l₀ : EventLoop} {es : List Event}
    (hstart : EventLoop.start d o env sw sh net = some l₀)
    (hes : EveryStep EventLoop.step (fun l e => Clocked l e ∧ ¬ Strands l e) l₀ es) :
    ∀ pre, pre <+: es → ∀ l, run EventLoop.step l₀ pre = some l → ¬ Stranded l := by
  rintro pre ⟨rest, rfl⟩ l hrun
  exact (run_keeps Attended (fun l e l' h he hstep => h.step he.1 he.2 hstep)
    (attended_start hstart) hes.of_append hrun).not_stranded

/-- A message with an update of the whole strip, the repaint, and the next
call of `poll`. -/
def firstUpdate : List Event :=
  [.enter, .send 16, .arrive 16, .wake,
   .message [.commitUpdates [1, 1, 1, 1, 1, 1, 1, 1, 1, 1] ⟨0, 0, 5, 1⟩] 16,
   .tick 500000000 500000001, .enter]

/-- The device is turned while the message is on its way. -/
theorem never_stranded_turn :
    ∃ l₀, EventLoop.start strip .Portrait none 5 1 {} = some l₀ ∧
      (∃ l, run EventLoop.step l₀ (firstUpdate.insertIdx 4 (.sensor .LandscapeCW))
        = some l) ∧
      ∀ pre, pre <+: firstUpdate.insertIdx 4 (.sensor .LandscapeCW) →
        ∀ l, run EventLoop.step l₀ pre = some l → ¬ Stranded l := by
  obtain ⟨l₀, hstart⟩ : ∃ l₀, EventLoop.start strip .Portrait none 5 1 {} = some l₀ :=
    ⟨_, rfl⟩
  have hes : ∀ l₀ ∈ EventLoop.start strip .Portrait none 5 1 {},
      EveryStep EventLoop.step (fun l e => Clocked l e ∧ ¬ Strands l e) l₀
        (firstUpdate.insertIdx 4 (.sensor .LandscapeCW)) ∧
      (run EventLoop.step l₀ (firstUpdate.insertIdx 4 (.sensor .LandscapeCW))).isSome := by
    decide +kernel
  obtain ⟨hes, hrun⟩ := hes l₀ hstart
  exact ⟨l₀, hstart, Option.isSome_iff_exists.mp hrun, never_stranded hstart hes⟩

/-- The desktop is shown and does not change any more. The device is turned:
the whole source is marked, and the loop sleeps on. -/
theorem turn_stranded :
    ¬ ∀ l₀, EventLoop.start strip .Portrait none 5 1 {} = some l₀ →
      EveryStep EventLoop.step Clocked l₀ (firstUpdate ++ [.sensor .LandscapeCW]) →
      ∀ l, run EventLoop.step l₀ (firstUpdate ++ [.sensor .LandscapeCW]) = some l →
        ¬ Stranded l := by
  intro H
  obtain ⟨l₀, hstart⟩ : ∃ l₀, EventLoop.start strip .Portrait none 5 1 {} = some l₀ :=
    ⟨_, rfl⟩
  have hrun : ∀ l₀ ∈ EventLoop.start strip .Portrait none 5 1 {},
      EveryStep EventLoop.step Clocked l₀ (firstUpdate ++ [.sensor .LandscapeCW]) ∧
      ∃ l ∈ run EventLoop.step l₀ (firstUpdate ++ [.sensor .LandscapeCW]),
        l.pc = .polling (-1) ∧ l.net.kernel = 0 ∧
        l.screen.updateInfo.hasUpdate = true ∧ l.dirty = true := by
    decide +kernel
  obtain ⟨hes, l, hl, hpc, hk, hu, hd⟩ := hrun l₀ hstart
  exact H l₀ hstart hes l hl ⟨⟨-1, hpc, by decide, hk⟩, hu, hd⟩

end Rmcast.Client
