import Mathlib.Data.Real.Basic
import Rmcast.Vncast.FrameRate

/-!
# The cap under clock steps

The cap compares readings of `QDateTime::currentMSecsSinceEpoch`, a wall
clock that may step. What it should keep a distance in is real time, which the
server does not see. A large frame is suppressed only within a period of an
emitted one exactly if the wall clock never falls behind: over a period of
real time since the last emitted frame it advances by a period too, or that
frame's reading was 0.
-/

namespace Rmcast.Qtfb

open Framing Loop Word

/-! ## §1  What a log says of its frames -/

/-- A `frameReady` comes before the next message. -/
def announced : List Act → Bool
  | [] => false
  | .handled _ :: _ => false
  | .emitted (.frameReady ..) :: _ => true
  | _ :: log => announced log

/-- A frame that was read, its place among the frames, and whether it was
announced. -/
structure Mark where
  index : ℕ
  frame : Frame
  ready : Bool
deriving DecidableEq, Repr

/-- The frames of a log that `n` frames come before. -/
def marks : ℕ → List Act → List Mark
  | _, [] => []
  | n, .handled (.frame m) :: log => ⟨n, m, announced log⟩ :: marks (n + 1) log
  | n, _ :: log => marks n log

/-- A frame that is not a small rectangle was announced. -/
def Mark.Emitted (k : Mark) : Prop := smallRect k.frame = false ∧ k.ready = true

/-- A frame that is not a small rectangle was not announced. -/
def Mark.Suppressed (k : Mark) : Prop := smallRect k.frame = false ∧ k.ready = false

instance (k : Mark) : Decidable k.Emitted := inferInstanceAs (Decidable (_ ∧ _))

instance (k : Mark) : Decidable k.Suppressed := inferInstanceAs (Decidable (_ ∧ _))

/-- A large frame is suppressed only if one was emitted less than a period of
real time before. -/
def SuppressedRecently (real : ℕ → ℝ) (period : ℤ) (ks : List Mark) : Prop :=
  ∀ pre k, pre ++ [k] <+: ks → k.Suppressed →
    ∃ j ∈ pre, j.Emitted ∧ real k.index - real j.index < period

/-- Between two suppressed frames with none emitted between them there is
less than a period. -/
def SuppressedBriefly (real : ℕ → ℝ) (period : ℤ) (ks : List Mark) : Prop :=
  ∀ pre k mid l, pre ++ k :: mid ++ [l] <+: ks → k.Suppressed → l.Suppressed →
    (∀ j ∈ mid, ¬ j.Emitted) → real l.index - real k.index < period

/-- The frame `m` as the session decides on it. -/
def Session.mark (clock : ℕ → ℤ) (s : Session) (m : Frame) : Mark :=
  ⟨s.frames, m, !throttled s.server (clock s.frames) m⟩

def Session.decisions (clock : ℕ → ℤ) : Session → List Frame → List Mark
  | _, [] => []
  | s, m :: ms => s.mark clock m :: Session.decisions clock (s.readFrame clock m) ms

section Decisions

variable {clock : ℕ → ℤ} {s : Session} {m : Frame}

theorem decisions_snoc (s : Session) (ms : List Frame) (m : Frame) :
    s.decisions clock (ms ++ [m]) =
      s.decisions clock ms ++ [(s.readFrames clock ms).mark clock m] := by
  induction ms generalizing s with
  | nil => rfl
  | cons a ms ih => exact congrArg _ (ih (s.readFrame clock a))

theorem decisions_length (s : Session) (ms : List Frame) :
    (s.decisions clock ms).length = ms.length := by
  induction ms generalizing s with
  | nil => rfl
  | cons m ms ih => exact congrArg (· + 1) (ih (s.readFrame clock m))

theorem readFrames_frames (s : Session) (ms : List Frame) :
    (s.readFrames clock ms).frames = s.frames + ms.length := by
  induction ms using List.reverseRecOn with
  | nil => rfl
  | append_singleton ms m ih =>
      rw [readFrames_snoc, List.length_append]
      exact congrArg (· + 1) ih

theorem announced_append_handled (log : List Act) (m : Message) (rest : List Act) :
    announced (log ++ .handled m :: rest) = announced log := by
  induction log with
  | nil => rfl
  | cons a log ih =>
      cases a with
      | handled w => rfl
      | wrote ack => exact ih
      | closed => exact ih
      | emitted a =>
          cases a with
          | frameReady seq x y dw dh => rfl
          | lastFrameModeChanged => exact ih
          | cursorChanged => exact ih
          | clientConnected => exact ih
          | clientDisconnected => exact ih

theorem marks_append_handled (n : ℕ) (log : List Act) (m : Message) (rest : List Act) :
    marks n (log ++ .handled m :: rest) =
      marks n log ++ marks (n + (marks n log).length) (.handled m :: rest) := by
  induction log generalizing n with
  | nil => rfl
  | cons a log ih =>
      cases a with
      | handled w =>
          cases w with
          | frame f =>
              show Mark.mk n f (announced (log ++ .handled m :: rest)) ::
                  marks (n + 1) (log ++ .handled m :: rest) =
                Mark.mk n f (announced log) :: (marks (n + 1) log ++
                  marks (n + ((marks (n + 1) log).length + 1)) (.handled m :: rest))
              rw [announced_append_handled, ih (n + 1), Nat.add_right_comm, Nat.add_assoc]
          | hello v => exact ih n
          | cursor v => exact ih n
          | bye v => exact ih n
      | wrote ack => exact ih n
      | closed => exact ih n
      | emitted a => exact ih n

/-- One frame with what it caused. -/
theorem marks_frame (clock : ℕ → ℤ) (s : Session) (m : Frame) :
    marks s.frames (.handled (.frame m) ::
      (handleFrame s.server (clock s.frames) m).2.map .emitted) = [s.mark clock m] := by
  unfold Session.mark
  cases ht : throttled s.server (clock s.frames) m with
  | true =>
      rw [handleFrame_throttled ht]
      rfl
  | false =>
      obtain ⟨t, pre, he, hpre⟩ := handleFrame_emits ht
      rw [he]
      rcases hpre with rfl | rfl
      · rfl
      · rfl

/-- **Run lemma**: the log of the frames says what was decided on each. -/
theorem readFrames_marks (clock : ℕ → ℤ) (s : Session) (ms : List Frame) :
    ∃ new, (s.readFrames clock ms).log = s.log ++ new ∧
      marks s.frames new = s.decisions clock ms := by
  induction ms using List.reverseRecOn with
  | nil => exact ⟨[], (List.append_nil _).symm, rfl⟩
  | append_singleton ms m ih =>
      obtain ⟨new, hlog, hmarks⟩ := ih
      refine ⟨new ++ _, by rw [readFrames_snoc, readFrame_log, hlog, List.append_assoc], ?_⟩
      rw [marks_append_handled, hmarks, decisions_length, ← readFrames_frames,
        marks_frame, decisions_snoc]

/-- What the log says of the frames, however the stream was delivered. -/
theorem deliverAll_marks (clock : ℕ → ℤ) (hs : s.IsOpen) {v : HelloC2S}
    (hv : v.clientVersion = VERSION) {fs : List Frame} {es : List Delivery}
    (hes : received es = stream v fs) :
    ∃ c new, deliverAll clock ⟨s, []⟩ es = some c ∧ c.session.log = s.log ++ new ∧
      marks s.frames new = (s.greet v).decisions clock fs := by
  obtain ⟨c, hc, hlog⟩ := deliverAll_stream clock hs hv hes
  obtain ⟨new, hnew, hmarks⟩ := readFrames_marks clock (s.greet v) fs
  refine ⟨c, [.handled (.hello v), .emitted .cursorChanged,
    .emitted .lastFrameModeChanged, .wrote (handleHello s.server v).2.1] ++ new, hc, ?_, ?_⟩
  · rw [hlog, hnew]
    show (s.log ++ _) ++ _ ++ new = _
    rw [List.append_assoc, List.append_assoc]
    rfl
  · exact hmarks

end Decisions

/-! ## §2  Against real time -/

section RealTime

variable {clock : ℕ → ℤ} {s : Session} {m : Frame}

/-- The last large frame emitted among `ms`. -/
def Session.lastEmitted (clock : ℕ → ℤ) (s : Session) (ms : List Frame) : Option ℕ :=
  ((s.decisions clock ms).filter (·.Emitted)).getLast?.map Mark.index

/-- A large frame that comes a period of real time or more after the last one
emitted finds the clock a period further on, too, or that one's reading was
0. -/
def KeepsTime (clock : ℕ → ℤ) (real : ℕ → ℝ) (s : Session) (fs : List Frame) : Prop :=
  ∀ ms m, ms ++ [m] <+: fs → smallRect m = false → ∀ i ∈ s.lastEmitted clock ms,
    s.server.minPeriodMs ≤ real (s.frames + ms.length) - real i →
      clock i = 0 ∨ clock i + s.server.minPeriodMs ≤ clock (s.frames + ms.length)

theorem throttled_iff {t : Server} (ht : t.Limited) {now : ℤ} :
    throttled t now m = true ↔
      smallRect m = false ∧ t.lastEmitMs ≠ 0 ∧ now < t.lastEmitMs + t.minPeriodMs := by
  unfold throttled
  rw [decide_eq_true (p := t.fpsCap > 0 ∧ t.minPeriodMs > 0) ht, Bool.and_true,
    Bool.and_eq_true, Bool.not_eq_true', decide_eq_true_iff, sub_lt_iff_lt_add']

theorem throttled_large {t : Server} {now : ℤ} (h : throttled t now m = true) :
    smallRect m = false := by
  unfold throttled at h
  rw [Bool.and_eq_true, Bool.and_eq_true, Bool.not_eq_true'] at h
  exact h.1.1

theorem mark_suppressed_iff : (s.mark clock m).Suppressed ↔
    throttled s.server (clock s.frames) m = true := by
  unfold Mark.Suppressed Session.mark
  rw [Bool.not_eq_false']
  exact ⟨And.right, fun h => ⟨throttled_large h, h⟩⟩

theorem mark_emitted_iff : (s.mark clock m).Emitted ↔
    (smallRect m || throttled s.server (clock s.frames) m) = false := by
  unfold Mark.Emitted Session.mark
  rw [Bool.not_eq_true', Bool.or_eq_false_iff]

theorem lastEmitted_snoc (s : Session) (ms : List Frame) (m : Frame) :
    s.lastEmitted clock (ms ++ [m]) =
      if ((s.readFrames clock ms).mark clock m).Emitted then some (s.frames + ms.length)
      else s.lastEmitted clock ms := by
  unfold Session.lastEmitted
  rw [decisions_snoc, List.filter_append, List.filter_singleton]
  split
  · rename_i h
    rw [decide_eq_true h, cond_true, List.getLast?_concat, ← readFrames_frames]
    rfl
  · rename_i h
    rw [decide_eq_false h, cond_false, List.append_nil]

/-- The frames keep the cap and the period. -/
theorem readFrames_cap (s : Session) (ms : List Frame) :
    (s.readFrames clock ms).server.fpsCap = s.server.fpsCap ∧
      (s.readFrames clock ms).server.minPeriodMs = s.server.minPeriodMs := by
  induction ms using List.reverseRecOn with
  | nil => exact ⟨rfl, rfl⟩
  | append_singleton ms m ih =>
      rw [readFrames_snoc]
      exact ⟨(handleFrame_fpsCap _ _ _).trans ih.1, (handleFrame_minPeriodMs _ _ _).trans ih.2⟩

theorem readFrames_limited (h : s.server.Limited) (ms : List Frame) :
    (s.readFrames clock ms).server.Limited := by
  unfold Server.Limited
  rw [(readFrames_cap s ms).1, (readFrames_cap s ms).2]
  exact h

/-- **The stored reading** is the one at the last large frame emitted. -/
theorem readFrames_lastEmitMs (hlim : s.server.Limited) (h0 : s.server.lastEmitMs = 0)
    (ms : List Frame) :
    (s.readFrames clock ms).server.lastEmitMs =
      ((s.lastEmitted clock ms).map clock).getD 0 := by
  induction ms using List.reverseRecOn with
  | nil => exact h0
  | append_singleton ms m ih =>
      rw [readFrames_snoc, lastEmitted_snoc]
      split
      · rename_i h
        have hnow := (lastEmitMs_emit (readFrames_limited hlim ms) (mark_emitted_iff.mp h)).1
        exact hnow.trans (congrArg clock (readFrames_frames s ms))
      · rename_i h
        rw [mark_emitted_iff, Bool.not_eq_false] at h
        exact (lastEmitMs_kept h).trans ih

/-- **Step lemma**: when a frame is suppressed. -/
theorem suppressed_iff (hlim : s.server.Limited) (h0 : s.server.lastEmitMs = 0)
    (ms : List Frame) (m : Frame) :
    ((s.readFrames clock ms).mark clock m).Suppressed ↔
      smallRect m = false ∧ ∃ i ∈ s.lastEmitted clock ms,
        clock i ≠ 0 ∧ clock (s.frames + ms.length) < clock i + s.server.minPeriodMs := by
  rw [mark_suppressed_iff, throttled_iff (readFrames_limited hlim ms),
    readFrames_lastEmitMs hlim h0, (readFrames_cap s ms).2, readFrames_frames]
  cases s.lastEmitted clock ms with
  | none => exact ⟨fun h => absurd rfl h.2.1, fun ⟨_, i, hi, _⟩ => by cases hi⟩
  | some i =>
      constructor
      · rintro ⟨hm, hlt⟩
        exact ⟨hm, i, rfl, hlt⟩
      · rintro ⟨hm, j, hj, hlt⟩
        cases hj
        exact ⟨hm, hlt⟩

theorem decisions_index {ms : List Frame} {k : Mark} (hk : k ∈ s.decisions clock ms) :
    s.frames ≤ k.index ∧ k.index < s.frames + ms.length := by
  induction ms using List.reverseRecOn with
  | nil => cases hk
  | append_singleton ms m ih =>
      rw [List.length_append, List.length_singleton]
      rw [decisions_snoc, List.mem_append, List.mem_singleton] at hk
      rcases hk with hk | rfl
      · exact ⟨(ih hk).1, Nat.lt_succ_of_lt (ih hk).2⟩
      · show s.frames ≤ (s.readFrames clock ms).frames ∧ (s.readFrames clock ms).frames < _
        rw [readFrames_frames]
        exact ⟨Nat.le_add_right _ _, Nat.lt_succ_self _⟩

/-- The last emitted frame is emitted, and none is emitted behind it. -/
theorem lastEmitted_mem {ms : List Frame} {i : ℕ} (hi : i ∈ s.lastEmitted clock ms) :
    ∃ k ∈ s.decisions clock ms, k.Emitted ∧ k.index = i := by
  obtain ⟨k, hk, rfl⟩ := Option.map_eq_some_iff.mp hi
  obtain ⟨hmem, hem⟩ := List.mem_filter.mp (List.mem_of_getLast? hk)
  exact ⟨k, hmem, of_decide_eq_true hem, rfl⟩

theorem le_lastEmitted {ms : List Frame} {k : Mark} (hk : k ∈ s.decisions clock ms)
    (hem : k.Emitted) {i : ℕ} (hi : i ∈ s.lastEmitted clock ms) : k.index ≤ i := by
  induction ms using List.reverseRecOn with
  | nil => cases hk
  | append_singleton ms m ih =>
      rw [lastEmitted_snoc] at hi
      have hlt := (decisions_index hk).2
      split at hi
      · obtain rfl := Option.some.inj hi
        rw [List.length_append] at hlt
        exact Nat.le_of_lt_succ hlt
      · rename_i hnot
        rw [decisions_snoc, List.mem_append, List.mem_singleton] at hk
        rcases hk with hk | rfl
        · exact ih hk hi
        · exact absurd hem hnot

/-- Where nothing is limited, nothing is suppressed. -/
theorem not_suppressed_of_not_limited (hlim : ¬ s.server.Limited) (ms : List Frame) (m : Frame) :
    ¬ ((s.readFrames clock ms).mark clock m).Suppressed := by
  have hnot : ¬ (s.readFrames clock ms).server.Limited := by
    unfold Server.Limited
    rw [(readFrames_cap s ms).1, (readFrames_cap s ms).2]
    exact hlim
  rw [mark_suppressed_iff, Unthrottled.not_throttled (Or.inl hnot)]
  exact Bool.false_ne_true

/-- **Exactness of one step**: the suppression of `m` is within a period of
an emitted frame exactly if the clock has kept time since the last one. -/
theorem suppressedRecently_step {real : ℕ → ℝ} (hreal : Monotone real)
    (hlim : s.server.Limited) (h0 : s.server.lastEmitMs = 0) (ms : List Frame) (m : Frame) :
    (((s.readFrames clock ms).mark clock m).Suppressed →
      ∃ j ∈ s.decisions clock ms, j.Emitted ∧
        real ((s.readFrames clock ms).mark clock m).index - real j.index <
          s.server.minPeriodMs) ↔
    (smallRect m = false → ∀ i ∈ s.lastEmitted clock ms,
      s.server.minPeriodMs ≤ real (s.frames + ms.length) - real i →
        clock i = 0 ∨ clock i + s.server.minPeriodMs ≤ clock (s.frames + ms.length)) := by
  have hindex : ((s.readFrames clock ms).mark clock m).index = s.frames + ms.length :=
    readFrames_frames s ms
  rw [suppressed_iff hlim h0, hindex]
  constructor
  · intro h hm i hi hlong
    by_contra hslip
    rw [not_or, not_le] at hslip
    obtain ⟨j, hj, hem, hlt⟩ := h ⟨hm, i, hi, hslip⟩
    have hle : real j.index ≤ real i := hreal (le_lastEmitted hj hem hi)
    exact absurd (hlong.trans (sub_le_sub_left hle _)) (not_le.mpr hlt)
  · rintro h ⟨hm, i, hi, hne, hlt⟩
    obtain ⟨j, hj, hem, rfl⟩ := lastEmitted_mem hi
    refine ⟨j, hj, hem, not_le.mp fun hlong => ?_⟩
    rcases h hm _ hi hlong with hzero | hle
    · exact hne hzero
    · exact absurd hle (not_le.mpr hlt)

theorem suppressedRecently_iff {real : ℕ → ℝ} (hreal : Monotone real)
    (h0 : s.server.lastEmitMs = 0) (fs : List Frame) :
    SuppressedRecently real s.server.minPeriodMs (s.decisions clock fs) ↔
      (s.server.Limited → KeepsTime clock real s fs) := by
  by_cases hlim : s.server.Limited
  · rw [imp_iff_right hlim]
    induction fs using List.reverseRecOn with
    | nil => exact ⟨fun _ => forall_prefix_nil, fun _ => forall_prefix_nil⟩
    | append_singleton fs m ih =>
        rw [decisions_snoc]
        exact forall_prefix_snoc.trans ((and_congr ih
          (suppressedRecently_step hreal hlim h0 fs m)).trans forall_prefix_snoc.symm)
  · refine ⟨fun _ h => absurd h hlim, fun _ => ?_⟩
    induction fs using List.reverseRecOn with
    | nil => exact forall_prefix_nil
    | append_singleton fs m ih =>
        rw [decisions_snoc]
        exact forall_prefix_snoc.mpr
          ⟨ih fun h => absurd h hlim,
            fun h => absurd h (not_suppressed_of_not_limited hlim fs m)⟩

theorem decisions_sorted (s : Session) (ms : List Frame) :
    (s.decisions clock ms).Pairwise fun j k => j.index < k.index := by
  induction ms using List.reverseRecOn with
  | nil => exact List.Pairwise.nil
  | append_singleton ms m ih =>
      rw [decisions_snoc, List.pairwise_append]
      refine ⟨ih, List.pairwise_singleton _ _, fun j hj k hk => ?_⟩
      rw [List.mem_singleton.mp hk]
      exact (decisions_index hj).2.trans_eq (readFrames_frames s ms).symm

/-- A stretch of suppressed frames lies within the period of the frame emitted
before it. -/
theorem SuppressedRecently.briefly {real : ℕ → ℝ} (hreal : Monotone real) {period : ℤ}
    {ks : List Mark} (hks : ks.Pairwise fun j k => j.index < k.index)
    (h : SuppressedRecently real period ks) : SuppressedBriefly real period ks := by
  intro pre k mid l hpre hk hl hmid
  obtain ⟨j, hj, hem, hlt⟩ := h _ l hpre hl
  have hsorted : (pre ++ k :: mid).Pairwise fun j k => j.index < k.index :=
    hks.sublist ((List.prefix_append _ _).trans hpre).sublist
  have hjpre : j ∈ pre := by
    rcases List.mem_append.mp hj with hj | hj
    · exact hj
    · rcases List.mem_cons.mp hj with rfl | hj
      · exact absurd (hk.2.symm.trans hem.2) Bool.false_ne_true
      · exact absurd hem (hmid j hj)
  have hle : real j.index ≤ real k.index :=
    hreal ((List.pairwise_append.mp hsorted).2.2 j hjpre k (List.mem_cons_self ..)).le
  exact (sub_le_sub_left hle _).trans_lt hlt

end RealTime

/-! ## §3  Any delivery, any frames -/

/-- **The cap is robust**: a large frame behind the HELLO is suppressed only
within a period of real time of an emitted one, and no stretch of them for a
period, however the stream is delivered. -/
def Robust (clock : ℕ → ℤ) (real : ℕ → ℝ) (s : Session) (v : HelloC2S)
    (fs : List Frame) : Prop :=
  ∀ es, received es = stream v fs →
    ∃ c new, deliverAll clock ⟨s, []⟩ es = some c ∧ c.session.log = s.log ++ new ∧
      SuppressedRecently real (s.greet v).server.minPeriodMs (marks s.frames new) ∧
      SuppressedBriefly real (s.greet v).server.minPeriodMs (marks s.frames new)

/-- Over each period of real time the clock advances by a period, too, unless
it read 0. -/
def ClockKeepsUp (clock : ℕ → ℤ) (real : ℕ → ℝ) (n : ℕ) (period : ℤ) : Prop :=
  ∀ i j, n ≤ i → i < j → period ≤ real j - real i → clock i = 0 ∨ clock i + period ≤ clock j

section Robustness

variable {clock : ℕ → ℤ} {real : ℕ → ℝ} {s : Session} {v : HelloC2S}

theorem robust_iff_recently (hreal : Monotone real) (hs : s.IsOpen)
    (hv : v.clientVersion = VERSION) (fs : List Frame) :
    Robust clock real s v fs ↔ SuppressedRecently real (s.greet v).server.minPeriodMs
      ((s.greet v).decisions clock fs) := by
  constructor
  · intro h
    have hes : received [.bytes (stream v fs)] = stream v fs := List.append_nil _
    obtain ⟨c, new, hc, hlog, hrecent, -⟩ := h _ hes
    obtain ⟨c', new', hc', hlog', hmarks⟩ := deliverAll_marks clock hs hv hes
    obtain rfl := Option.some.inj (hc.symm.trans hc')
    obtain rfl := List.append_cancel_left (hlog.symm.trans hlog')
    rw [← hmarks]
    exact hrecent
  · intro h es hes
    obtain ⟨c, new, hc, hlog, hmarks⟩ := deliverAll_marks clock hs hv hes
    refine ⟨c, new, hc, hlog, ?_⟩
    rw [hmarks]
    exact ⟨h, h.briefly hreal (decisions_sorted _ _)⟩

theorem robust_iff_keepsTime (hreal : Monotone real) (hs : s.IsOpen)
    (hv : v.clientVersion = VERSION) (fs : List Frame) :
    Robust clock real s v fs ↔
      ((s.greet v).server.Limited → KeepsTime clock real (s.greet v) fs) :=
  (robust_iff_recently hreal hs hv fs).trans (suppressedRecently_iff hreal rfl fs)

/-- Small frames leave the last emitted one as it is. -/
theorem lastEmitted_small (t : Session) (ms : List Frame) (k : ℕ) :
    t.lastEmitted clock (ms ++ List.replicate k blink) = t.lastEmitted clock ms := by
  induction k with
  | zero => rw [List.replicate_zero, List.append_nil]
  | succ k ih =>
      rw [List.replicate_succ', ← List.append_assoc, lastEmitted_snoc, if_neg]
      · exact ih
      · rintro ⟨hlarge, -⟩
        exact absurd (show smallRect blink = false from hlarge) (by decide)

/-- Frames that bring any two readings together: large ones at `i` and `j`,
and small ones everywhere else. -/
def twoLarge (i j : ℕ) : List Frame :=
  List.replicate i blink ++ [whole] ++ List.replicate (j - i - 1) blink ++ [whole]

theorem keepsTime_twoLarge {t : Session} (hlim : t.server.Limited)
    (h0 : t.server.lastEmitMs = 0) {i j : ℕ} (hij : i < j)
    (h : KeepsTime clock real t (twoLarge i j)) :
    t.server.minPeriodMs ≤ real (t.frames + j) - real (t.frames + i) →
      clock (t.frames + i) = 0 ∨
        clock (t.frames + i) + t.server.minPeriodMs ≤ clock (t.frames + j) := by
  have hnone : t.lastEmitted clock (List.replicate i blink) = none := by
    rw [← List.nil_append (List.replicate i blink), lastEmitted_small]
    rfl
  have hlast : t.lastEmitted clock (List.replicate i blink ++ [whole] ++
      List.replicate (j - i - 1) blink) = some (t.frames + i) := by
    rw [lastEmitted_small, lastEmitted_snoc, if_pos, List.length_replicate]
    rw [mark_emitted_iff, Unthrottled.not_throttled]
    · rfl
    · -- no large frame comes before, so none is stored
      refine Or.inr (Or.inl ?_)
      rw [readFrames_lastEmitMs hlim h0, hnone]
      rfl
  have hlen : (List.replicate i blink ++ [whole] ++
      List.replicate (j - i - 1) blink).length = j := by
    rw [List.length_append, List.length_append, List.length_replicate, List.length_replicate,
      List.length_singleton, Nat.sub_sub, Nat.add_sub_cancel' hij]
  have hkeep := h _ whole (List.prefix_refl _) rfl _ hlast
  rw [hlen] at hkeep
  exact hkeep

/-- Whether a cap is negotiated that has a period. -/
theorem greet_limited_iff : (s.greet v).server.Limited ↔
    0 < v.requestedFps.toNat ∧ v.requestedFps.toNat ≤ 1000 := by
  constructor
  · rintro ⟨hcap, hperiod⟩
    have hpos : 0 < v.requestedFps.toNat := hcap
    refine ⟨hpos, ?_⟩
    by_contra hlt
    have hzero : (s.greet v).server.minPeriodMs = 0 := by
      show (if v.requestedFps = 0 then 0 else ((1000 / v.requestedFps.toNat : ℕ) : ℤ)) = 0
      rw [Nat.div_eq_of_lt (not_le.mp hlt)]
      exact ite_self 0
    rw [hzero] at hperiod
    exact absurd hperiod (lt_irrefl 0)
  · rintro ⟨h0, hle⟩
    exact (greet_limited h0 hle).1

end Robustness

/-- **The cap is robust against clock steps**, for a run of frames exactly if
the clock keeps time at every large frame since the last one emitted, and for
all runs exactly if it keeps up over every period of real time; or there is no
cap, or one without a period. -/
theorem robust_iff (clock : ℕ → ℤ) {real : ℕ → ℝ} (hreal : Monotone real) {s : Session}
    (hs : s.IsOpen) {v : HelloC2S} (hv : v.clientVersion = VERSION) :
    (∀ fs, Robust clock real s v fs ↔
      (0 < v.requestedFps.toNat ∧ v.requestedFps.toNat ≤ 1000 →
        KeepsTime clock real (s.greet v) fs)) ∧
    ((∀ fs, Robust clock real s v fs) ↔
      (0 < v.requestedFps.toNat ∧ v.requestedFps.toNat ≤ 1000 →
        ClockKeepsUp clock real s.frames (1000 / v.requestedFps.toNat : ℕ))) := by
  have hrun : ∀ fs, Robust clock real s v fs ↔
      ((s.greet v).server.Limited → KeepsTime clock real (s.greet v) fs) :=
    robust_iff_keepsTime hreal hs hv
  refine ⟨fun fs => by rw [← greet_limited_iff (s := s)]; exact hrun fs, ?_, ?_⟩
  · intro h hcap i j hi hij
    obtain ⟨hlim, hperiod⟩ := greet_limited (s := s) hcap.1 hcap.2
    obtain ⟨i, rfl⟩ := Nat.exists_eq_add_of_le hi
    obtain ⟨j, rfl⟩ := Nat.exists_eq_add_of_le (hi.trans hij.le)
    rw [← hperiod]
    exact keepsTime_twoLarge hlim rfl (Nat.lt_of_add_lt_add_left hij)
      ((hrun (twoLarge i j)).mp (h _) hlim)
  · intro h fs
    rw [hrun fs]
    intro hlim ms m _ _ i hi hlong
    have hcap := greet_limited_iff.mp hlim
    rw [(greet_limited (s := s) hcap.1 hcap.2).2] at hlong ⊢
    obtain ⟨k, hk, -, rfl⟩ := lastEmitted_mem hi
    obtain ⟨hlo, hhi⟩ := decisions_index hk
    exact h hcap k.index _ hlo hhi hlong

/-- A frame every 100 ms, and a clock without steps. -/
theorem robust_steady :
    Robust (steady 1000000 100) (fun i => 100 * i) desk ⟨1, 0, 0, 10⟩ [whole, blink, whole] := by
  have hreal : Monotone fun i : ℕ => (100 * i : ℝ) := by
    intro i j hij
    exact mul_le_mul_of_nonneg_left (Nat.cast_le.mpr hij) (by norm_num)
  refine (robust_iff (steady 1000000 100) hreal ⟨false, rfl⟩ rfl).2.mpr ?_ _
  intro _ i j _ hij _
  right
  show (1000000 + 100 * (i : ℤ)) + 100 ≤ 1000000 + 100 * (j : ℤ)
  omega

/-- The wall clock is set back by 500 s behind the first frame; a period later
the second one is suppressed. -/
theorem robust_fails :
    ¬ ∀ (clock : ℕ → ℤ) (real : ℕ → ℝ) (s : Session) (v : HelloC2S) (fs : List Frame),
      Monotone real → s.IsOpen → v.clientVersion = VERSION → Robust clock real s v fs := by
  intro H
  have hreal : Monotone fun i : ℕ => (100 * i : ℝ) := by
    intro i j hij
    exact mul_le_mul_of_nonneg_left (Nat.cast_le.mpr hij) (by norm_num)
  have hrobust := H (fun n => if n = 0 then 1000000 else 500000) _ desk ⟨1, 0, 0, 10⟩
    [whole, whole] hreal ⟨false, rfl⟩ rfl
  rw [robust_iff_recently hreal ⟨false, rfl⟩ rfl] at hrobust
  obtain ⟨j, hj, -, hlt⟩ := hrobust [⟨0, whole, true⟩] ⟨1, whole, false⟩ (by decide) (by decide)
  rw [List.mem_singleton.mp hj] at hlt
  revert hlt
  show ¬ ((100 * (1 : ℕ) : ℝ) - 100 * (0 : ℕ) < (100 : ℤ))
  norm_num

end Rmcast.Qtfb
