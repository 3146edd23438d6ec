import Rmcast.Lib.Ecma
import Rmcast.Lib.Window
import Rmcast.Qtfb.FpsCap
import Rmcast.Session.Launcher
import Rmcast.Vncast.Handshake

/-!
# The refresh rate, end to end

The rate of the session config goes through `$VNCAST_FPS` into the HELLO of
`handshake`, and the server turns it into a shortest period between two
frames. The period is rounded down, a rate above 120 becomes none, and a clock
that reads 0 looks like a frame never announced: the rate bounds the frames of
every second exactly where none of the three can happen.
-/

namespace Rmcast.Qtfb

open Word

/-! ## §1  When frames are announced -/

/-- The clock readings at which frames that are not small cause a
`frameReady`, where `n` frames come before the log and `now` is the reading of
the frame in progress, unless it is small. -/
def readyTimes (clock : ℕ → ℤ) : ℕ → Option ℤ → List Act → List ℤ
  | _, _, [] => []
  | n, _, .handled (.frame m) :: log =>
      readyTimes clock (n + 1) (if smallRect m then none else some (clock n)) log
  | n, _, .handled _ :: log => readyTimes clock n none log
  | n, now, .emitted (.frameReady ..) :: log => now.toList ++ readyTimes clock n now log
  | n, now, _ :: log => readyTimes clock n now log

/-- The same, from the server and the frames it reads. -/
def paintTimes (clock : ℕ → ℤ) : ℕ → Server → List Frame → List ℤ
  | _, _, [] => []
  | n, s, m :: ms =>
      (if smallRect m || throttled s (clock n) m then [] else [clock n]) ++
        paintTimes clock (n + 1) (handleFrame s (clock n) m).1 ms

/-- What one frame adds. -/
theorem readyTimes_frame (clock : ℕ → ℤ) (n : ℕ) (now : Option ℤ) (s : Server) (m : Frame)
    (log : List Act) :
    ∃ now', readyTimes clock n now (.handled (.frame m) ::
        (handleFrame s (clock n) m).2.map .emitted ++ log) =
      (if smallRect m || throttled s (clock n) m then [] else [clock n]) ++
        readyTimes clock (n + 1) now' log := by
  refine ⟨if smallRect m then none else some (clock n), ?_⟩
  cases ht : throttled s (clock n) m with
  | true =>
      rw [handleFrame_throttled ht, Bool.or_true, if_pos rfl]
      rfl
  | false =>
      obtain ⟨t, pre, he, hpre⟩ := handleFrame_emits ht
      rw [he, Bool.or_false]
      cases hm : smallRect m with
      | true => rcases hpre with rfl | rfl <;> simp [readyTimes, hm]
      | false => rcases hpre with rfl | rfl <;> simp [readyTimes, hm]

/-- What the frames add to the log. -/
theorem readFrames_log (clock : ℕ → ℤ) (s : Session) (ms : List Frame) :
    ∃ new, (s.readFrames clock ms).log = s.log ++ new ∧
      ∀ now, readyTimes clock s.frames now new = paintTimes clock s.frames s.server ms := by
  induction ms generalizing s with
  | nil => exact ⟨[], (List.append_nil _).symm, fun now => rfl⟩
  | cons m ms ih =>
      obtain ⟨new, hlog, htimes⟩ := ih (s.readFrame clock m)
      refine ⟨(.handled (.frame m) ::
        (handleFrame s.server (clock s.frames) m).2.map .emitted) ++ new, ?_, ?_⟩
      · rw [← List.append_assoc, ← readFrame_log]
        exact hlog
      · intro now
        obtain ⟨now', hframe⟩ := readyTimes_frame clock s.frames now s.server m new
        rw [hframe]
        exact congrArg _ (htimes now')

theorem greet_log (clock : ℕ → ℤ) (s : Session) (v : HelloC2S) (n : ℕ) (log : List Act) :
    ∃ new, (s.greet v).log = s.log ++ new ∧
      readyTimes clock n none (new ++ log) = readyTimes clock n none log := by
  refine ⟨[.handled (.hello v), .emitted .cursorChanged,
    .emitted .lastFrameModeChanged, .wrote (handleHello s.server v).2.1], ?_, rfl⟩
  show (s.log ++ _) ++ _ = _
  rw [List.append_assoc]
  rfl

/-! ## §2  The cap -/

/-- The server throttles at all. -/
def Server.Limited (s : Server) : Prop := s.fpsCap > 0 ∧ s.minPeriodMs > 0

theorem handleFrame_fpsCap (s : Server) (now : ℤ) (m : Frame) :
    (handleFrame s now m).1.fpsCap = s.fpsCap := by
  unfold handleFrame emitFrame
  split_ifs <;> rfl

theorem handleFrame_minPeriodMs (s : Server) (now : ℤ) (m : Frame) :
    (handleFrame s now m).1.minPeriodMs = s.minPeriodMs := by
  unfold handleFrame emitFrame
  split_ifs <;> rfl

theorem emitFrame_lastEmitMs (s : Server) (m : Frame) :
    (emitFrame s m).1.lastEmitMs = s.lastEmitMs := by
  unfold emitFrame
  split_ifs <;> rfl

theorem Server.Limited.handleFrame {s : Server} (h : s.Limited) (now : ℤ) (m : Frame) :
    (handleFrame s now m).1.Limited := by
  unfold Server.Limited
  rw [handleFrame_fpsCap, handleFrame_minPeriodMs]
  exact h

/-- Frames that are small or swallowed leave the last reading as it is. -/
theorem lastEmitMs_kept {s : Server} {now : ℤ} {m : Frame}
    (h : (smallRect m || throttled s now m) = true) :
    (handleFrame s now m).1.lastEmitMs = s.lastEmitMs := by
  rcases Bool.or_eq_true_iff.mp h with hm | ht
  · unfold Qtfb.handleFrame
    rw [hm]
    exact emitFrame_lastEmitMs s m
  · rw [handleFrame_throttled ht]

/-- Any other frame replaces it. -/
theorem lastEmitMs_emit {s : Server} (hs : s.Limited) {now : ℤ} {m : Frame}
    (h : (smallRect m || throttled s now m) = false) :
    (handleFrame s now m).1.lastEmitMs = now ∧
      (s.lastEmitMs ≠ 0 → s.lastEmitMs + s.minPeriodMs ≤ now) := by
  obtain ⟨hm, ht⟩ := Bool.or_eq_false_iff.mp h
  have hlim : (!smallRect m && decide (s.fpsCap > 0 ∧ s.minPeriodMs > 0)) = true := by
    rw [hm, Bool.not_false, Bool.true_and]
    exact decide_eq_true hs
  unfold throttled at ht
  rw [hlim, Bool.true_and, decide_eq_false_iff_not] at ht
  constructor
  · unfold Qtfb.handleFrame
    rw [if_pos hlim, if_neg ht]
    exact emitFrame_lastEmitMs _ m
  · intro hne
    by_contra hlt
    exact ht ⟨hne, by omega⟩

/-- **Run lemma**: with a clock that never reads 0 the frames announced keep
the period. -/
theorem paintTimes_spaced {clock : ℕ → ℤ} (hclock : ∀ n, clock n ≠ 0) {s : Server}
    (hs : s.Limited) (n : ℕ) (ms : List Frame) :
    Window.Spaced s.minPeriodMs (paintTimes clock n s ms) ∧
      (s.lastEmitMs ≠ 0 →
        ∀ t ∈ paintTimes clock n s ms, s.lastEmitMs + s.minPeriodMs ≤ t) := by
  induction ms generalizing n s with
  | nil => exact ⟨List.Pairwise.nil, fun _ t ht => absurd ht List.not_mem_nil⟩
  | cons m ms ih =>
      obtain ⟨hspaced, hlast⟩ := ih (hs.handleFrame (clock n) m) (n + 1)
      rw [handleFrame_minPeriodMs] at hspaced hlast
      unfold paintTimes
      cases h : smallRect m || throttled s (clock n) m with
      | true =>
          rw [lastEmitMs_kept h] at hlast
          rw [if_pos rfl, List.nil_append]
          exact ⟨hspaced, hlast⟩
      | false =>
          obtain ⟨hnow, hperiod⟩ := lastEmitMs_emit hs h
          rw [hnow] at hlast
          have hrest := hlast (hclock n)
          rw [if_neg Bool.false_ne_true, List.singleton_append]
          refine ⟨Window.spaced_cons.mpr ⟨hrest, hspaced⟩, ?_⟩
          intro hne t ht
          have hle := hperiod hne
          rcases List.mem_cons.mp ht with rfl | ht
          · exact hle
          · have hstep := hrest t ht
            have hpos := hs.2
            omega

/-- What keeps the cap from swallowing the next frame. -/
def Unthrottled (s : Server) (now : ℤ) : Prop :=
  ¬ s.Limited ∨ s.lastEmitMs = 0 ∨ s.lastEmitMs + s.minPeriodMs ≤ now

theorem Unthrottled.not_throttled {s : Server} {now : ℤ} (h : Unthrottled s now) (m : Frame) :
    throttled s now m = false := by
  rw [Bool.eq_false_iff]
  intro ht
  unfold throttled at ht
  rw [Bool.and_eq_true, Bool.and_eq_true, decide_eq_true_iff, decide_eq_true_iff] at ht
  obtain ⟨⟨-, hlim⟩, hne, hlt⟩ := ht
  rcases h with h | h | h
  · exact h hlim
  · exact hne h
  · omega

theorem Unthrottled.handleFrame {s : Server} {now next : ℤ} (h : Unthrottled s now) {m : Frame}
    (hm : smallRect m = false) (hnext : ¬ s.Limited ∨ now = 0 ∨ now + s.minPeriodMs ≤ next) :
    Unthrottled (handleFrame s now m).1 next := by
  unfold Unthrottled Server.Limited
  rw [handleFrame_fpsCap, handleFrame_minPeriodMs]
  by_cases hlim : s.Limited
  · obtain ⟨hnow, -⟩ := lastEmitMs_emit hlim
      (Bool.or_eq_false_iff.mpr ⟨hm, h.not_throttled m⟩)
    rw [hnow]
    exact hnext
  · exact Or.inl hlim

/-- Frames that are all far enough from each other, or never taken into
account, are all announced. -/
theorem paintTimes_replicate {clock : ℕ → ℤ} {s : Server} {m : Frame} (n k : ℕ)
    (hm : smallRect m = false) (hs : Unthrottled s (clock n))
    (hclock : ∀ i, ¬ s.Limited ∨ clock i = 0 ∨ clock i + s.minPeriodMs ≤ clock (i + 1)) :
    paintTimes clock n s (List.replicate k m) = (List.range' n k).map clock := by
  induction k generalizing n s with
  | zero => rfl
  | succ k ih =>
      have hstep := ih (n + 1) (hs.handleFrame hm (hclock n)) (by
        unfold Server.Limited
        rw [handleFrame_fpsCap, handleFrame_minPeriodMs]
        exact hclock)
      rw [List.replicate_succ, List.range'_succ, List.map_cons]
      unfold paintTimes
      rw [hm, hs.not_throttled m, hstep]
      rfl

/-! ## §3  From the HELLO on -/

/-- **A rate bounds the frames of every second**, whatever the clock reads
from `t₀` on, and however the frames behind the HELLO arrive. -/
def UpperBound (f t₀ : ℤ) (s : Session) (v : HelloC2S) : Prop :=
  ∀ clock : ℕ → ℤ, Monotone clock → (∀ n, t₀ ≤ clock n) →
    ∀ (fs : List Frame) (es : List Delivery), received es = stream v fs →
      ∃ c new, deliverAll clock ⟨s, []⟩ es = some c ∧ c.session.log = s.log ++ new ∧
        ∀ a, Window.count a 1000 (readyTimes clock s.frames none new) ≤ f

/-- What the log says of the times, however the stream was delivered. -/
theorem readyTimes_stream (clock : ℕ → ℤ) {s : Session} (hs : s.IsOpen) {v : HelloC2S}
    (hv : v.clientVersion = VERSION) {fs : List Frame} {es : List Delivery}
    (hes : received es = stream v fs) :
    ∃ c new, deliverAll clock ⟨s, []⟩ es = some c ∧ c.session.log = s.log ++ new ∧
      readyTimes clock s.frames none new =
        paintTimes clock s.frames (s.greet v).server fs := by
  obtain ⟨c, hc, hlog⟩ := deliverAll_stream clock hs hv hes
  obtain ⟨new, hnew, htimes⟩ := readFrames_log clock (s.greet v) fs
  obtain ⟨hello, hgreet, hskip⟩ := greet_log clock s v s.frames new
  refine ⟨c, hello ++ new, hc, ?_, hskip.trans (htimes none)⟩
  rw [hlog, hnew, hgreet, List.append_assoc]

theorem upperBound_iff {f t₀ : ℤ} {s : Session} (hs : s.IsOpen) {v : HelloC2S}
    (hv : v.clientVersion = VERSION) :
    UpperBound f t₀ s v ↔
      ∀ clock : ℕ → ℤ, Monotone clock → (∀ n, t₀ ≤ clock n) → ∀ (fs : List Frame) (a : ℤ),
        Window.count a 1000 (paintTimes clock s.frames (s.greet v).server fs) ≤ f := by
  constructor
  · intro h clock hmono hlow fs a
    have hes : received [.bytes (stream v fs)] = stream v fs := List.append_nil _
    obtain ⟨c, new, hc, hlog, hcount⟩ := h clock hmono hlow fs _ hes
    obtain ⟨c', new', hc', hlog', htimes⟩ := readyTimes_stream clock hs hv hes
    obtain rfl := Option.some.inj (hc.symm.trans hc')
    obtain rfl := List.append_cancel_left (hlog.symm.trans hlog')
    rw [← htimes]
    exact hcount a
  · intro h clock hmono hlow fs es hes
    obtain ⟨c, new, hc, hlog, htimes⟩ := readyTimes_stream clock hs hv hes
    refine ⟨c, new, hc, hlog, ?_⟩
    intro a
    rw [htimes]
    exact h clock hmono hlow fs a

/-- A frame for the whole picture. -/
def whole : Frame := ⟨0, 0, 0, 0, 0, 0⟩

/-- A frame every `p` milliseconds. -/
def steady (b p : ℤ) (i : ℕ) : ℤ := b + p * i

theorem steady_succ (b p : ℤ) (i : ℕ) : steady b p (i + 1) = steady b p i + p := by
  unfold steady
  rw [Nat.cast_succ, mul_add, mul_one, ← add_assoc]

theorem steady_monotone (b : ℤ) {p : ℤ} (hp : 0 ≤ p) : Monotone (steady b p) := by
  intro i j hij
  apply add_le_add_right
  exact mul_le_mul_of_nonneg_left (Int.ofNat_le.mpr hij) hp

/-- The frames up to `f` more are within a second. -/
theorem steady_window {b p : ℤ} (hp : 0 ≤ p) {f : ℕ} (hfast : p * f < 1000) (n : ℕ) {t : ℤ}
    (ht : t ∈ (List.range' n (f + 1)).map (steady b p)) :
    steady b p n ≤ t ∧ t < steady b p n + 1000 := by
  obtain ⟨i, hi, rfl⟩ := List.mem_map.mp ht
  obtain ⟨hlo, hhi⟩ := List.mem_range'_1.mp hi
  refine ⟨steady_monotone b hp hlo, ?_⟩
  calc steady b p i ≤ steady b p (n + f) := steady_monotone b hp (Nat.le_of_lt_succ hhi)
    _ = steady b p n + p * f := by
        unfold steady
        rw [Nat.cast_add, mul_add, add_assoc]
    _ < steady b p n + 1000 := by
        apply add_lt_add_right
        exact hfast

/-- Large frames at a steady pace that the cap does not notice. -/
theorem not_upperBound {f : ℕ} {t₀ b p : ℤ} {s : Session} (hs : s.IsOpen) {v : HelloC2S}
    (hv : v.clientVersion = VERSION) (hb : t₀ ≤ b) (hp : 0 ≤ p) (hfast : p * f < 1000)
    (hslip : ¬ (s.greet v).server.Limited ∨ b = 0 ∧ p = 0 ∨
      (s.greet v).server.minPeriodMs ≤ p) : ¬ UpperBound f t₀ s v := by
  intro h
  have hlow : ∀ i, t₀ ≤ steady b p i := fun i =>
    hb.trans (le_add_of_nonneg_right (mul_nonneg hp (Int.natCast_nonneg i)))
  have hclock : ∀ i, ¬ (s.greet v).server.Limited ∨ steady b p i = 0 ∨
      steady b p i + (s.greet v).server.minPeriodMs ≤ steady b p (i + 1) := by
    intro i
    rcases hslip with hlim | ⟨rfl, rfl⟩ | hle
    · exact Or.inl hlim
    · refine Or.inr (Or.inl ?_)
      unfold steady
      rw [zero_mul, zero_add]
    · refine Or.inr (Or.inr ?_)
      rw [steady_succ]
      exact add_le_add_right hle _
  have hcount := (upperBound_iff hs hv).mp h (steady b p) (steady_monotone b hp) hlow
    (List.replicate (f + 1) whole) (steady b p s.frames)
  rw [paintTimes_replicate (m := whole) _ _ (by decide) (Or.inr (Or.inl rfl)) hclock,
    Window.count_eq_length fun t => steady_window hp hfast s.frames, List.length_map,
    List.length_range'] at hcount
  exact absurd (Int.ofNat_le.mp hcount) (Nat.not_succ_le_self f)

/-- No rate bounds the frames where the HELLO asks for none. -/
theorem not_upperBound_uncapped {f : ℕ} {t₀ : ℤ} {s : Session} (hs : s.IsOpen) {v : HelloC2S}
    (hv : v.clientVersion = VERSION) (hfps : v.requestedFps = 0) : ¬ UpperBound f t₀ s v := by
  refine not_upperBound hs hv le_rfl le_rfl (by rw [zero_mul]; decide) (Or.inl ?_)
  rintro ⟨hcap, -⟩
  have hzero : v.requestedFps > 0 := hcap
  rw [hfps] at hzero
  exact absurd hzero (by decide)

/-- A HELLO that asks for a rate with a period. -/
theorem greet_limited {s : Session} {v : HelloC2S} (h0 : 0 < v.requestedFps.toNat)
    (h : v.requestedFps.toNat ≤ 1000) :
    (s.greet v).server.Limited ∧
      (s.greet v).server.minPeriodMs = (1000 / v.requestedFps.toNat : ℕ) := by
  have hne : v.requestedFps ≠ 0 := by
    rintro hz
    rw [hz] at h0
    exact absurd h0 (by decide)
  have hperiod : (s.greet v).server.minPeriodMs = (1000 / v.requestedFps.toNat : ℕ) := if_neg hne
  refine ⟨⟨h0, ?_⟩, hperiod⟩
  rw [hperiod]
  exact Int.ofNat_lt.mpr (Nat.div_pos h h0)

/-- The rate of the HELLO bounds the frames exactly if its period is a whole
number of milliseconds and the clock reads no 0. -/
theorem upperBound_capped_iff {f : ℕ} {t₀ : ℤ} {s : Session} (hs : s.IsOpen) {v : HelloC2S}
    (hv : v.clientVersion = VERSION) (hfps : v.requestedFps.toNat = f) (h0 : 0 < f)
    (h : f ≤ 1000) : UpperBound f t₀ s v ↔ f ∣ 1000 ∧ 0 < t₀ := by
  subst hfps
  obtain ⟨hlim, hperiod⟩ := greet_limited (s := s) h0 h
  constructor
  · intro hbound
    constructor
    · by_contra hdvd
      refine not_upperBound (p := (1000 / v.requestedFps.toNat : ℕ)) hs hv le_rfl
        (Int.natCast_nonneg _) ?_ (Or.inr (Or.inr hperiod.le)) hbound
      -- the period is rounded down
      have hlt : 1000 / v.requestedFps.toNat * v.requestedFps.toNat < 1000 :=
        lt_of_le_of_ne (Nat.div_mul_le_self 1000 _) fun he => hdvd (Dvd.intro_left _ he)
      exact_mod_cast hlt
    · by_contra ht
      exact not_upperBound hs hv (not_lt.mp ht) le_rfl (by rw [zero_mul]; decide)
        (Or.inr (Or.inl ⟨rfl, rfl⟩)) hbound
  · rintro ⟨hdvd, ht⟩
    rw [upperBound_iff hs hv]
    intro clock _ hlow fs a
    obtain ⟨hspaced, -⟩ := paintTimes_spaced
      (fun n => ne_of_gt (lt_of_lt_of_le ht (hlow n))) hlim s.frames fs
    apply Int.ofNat_le.mpr
    refine hspaced.count_le (le_of_lt hlim.2) ?_
    rw [hperiod, nsmul_eq_mul, ← Nat.cast_mul, Nat.mul_div_cancel' hdvd]
    rfl

end Rmcast.Qtfb

namespace Rmcast.Vncast

open Word Session Qtfb

/-! ## §4  The rate of the config -/

theorem sessionEnv_fps (system : Environ) (cfg : SessionConfig) :
    sessionEnv system cfg "VNCAST_FPS".toList = some (cString (number cfg.fps)) := by
  unfold sessionEnv
  rw [Environ.insert_of_ne (by decide), Environ.insert_of_ne (by decide),
    Environ.insert_of_ne (by decide), Environ.insert_of_ne (by decide),
    Environ.insert_of_ne (by decide)]
  split
  · rw [Environ.insert_of_ne (by decide), Environ.insert_self]
  · exact Environ.insert_self _ _ _

theorem isDigit_of_mem_number {n : ℤ} (h : 0 ≤ n) {c : Char} (hc : c ∈ number n) :
    c.isDigit :=
  Ecma.isDigit_of_mem_text h hc

theorem decimal_number {n : ℤ} (h : 0 ≤ n) : (decimal (number n) : ℤ) = n := by
  have htext : number n = Nat.toDigits 10 n.toNat := Ecma.text_eq h
  have hvalue : decimal (number n) = Nat.ofDigitChars 10 (number n) 0 := by
    rw [Nat.ofDigitChars_eq_foldl]
    rfl
  rw [hvalue, htext, Nat.ofDigitChars_ten_toDigits, Int.toNat_of_nonneg h]

/-- A string of digits is read to its end. -/
theorem strtol_digits {s : List Char} (hne : s ≠ []) (h : ∀ c ∈ s, c.isDigit) :
    strtol s = max (-2 ^ 63) (min (decimal s : ℤ) (2 ^ 63 - 1)) := by
  obtain ⟨c, s, rfl⟩ := List.exists_cons_of_ne_nil hne
  have hc := h c (List.mem_cons_self ..)
  have hspace : isSpace c = false := not_isSpace_of_isDigit hc
  have hdrop : (c :: s).dropWhile isSpace = c :: s :=
    List.dropWhile_cons_of_neg (by rw [hspace]; exact Bool.false_ne_true)
  have htake : (c :: s).takeWhile Char.isDigit = c :: s := List.takeWhile_eq_self_iff.mpr h
  unfold strtol
  rw [hdrop]
  dsimp only
  -- a digit is no sign
  split
  · next heq =>
      cases heq
      exact absurd hc (by decide)
  · next heq =>
      cases heq
      exact absurd hc (by decide)
  · rw [htake]
    rfl

/-- A number that is not negative is read back, up to the largest `long`. -/
theorem strtol_number {n : ℤ} (h : 0 ≤ n) : strtol (cString (number n)) = min n (2 ^ 63 - 1) := by
  have hdigit : ∀ c ∈ number n, c.isDigit := fun c => isDigit_of_mem_number h
  have hnul : cString (number n) = number n :=
    cString_eq_self_iff.mpr fun hc => absurd (hdigit _ hc) (by decide)
  have hne : number n ≠ [] := Ecma.text_ne_nil h
  rw [hnul, strtol_digits hne hdigit, decimal_number h]
  exact max_eq_right (le_min (by omega) (by decide))

/-- What the HELLO asks for. -/
theorem fpsCap_sessionEnv (system : Environ) {cfg : SessionConfig} (h : 1 ≤ cfg.fps) :
    fpsCap (sessionEnv system cfg) = if cfg.fps ≤ 120 then ofInt cfg.fps else 0 := by
  unfold fpsCap
  rw [sessionEnv_fps]
  show (if strtol (cString (number cfg.fps)) > 0 ∧ _ then _ else _) = _
  rw [strtol_number (by omega)]
  by_cases hle : cfg.fps ≤ 120
  · rw [min_eq_left (by omega), if_pos ⟨by omega, hle⟩, if_pos hle]
  · rw [if_neg hle, if_neg]
    rintro ⟨-, hmin⟩
    rcases min_le_iff.mp hmin with h | h
    · exact hle h
    · exact absurd h (by decide)

/-- **The configured rate is an upper bound** exactly if it is at most 120 and
divides 1000, on a clock that never reads 0. -/
theorem frame_rate_iff (system : Environ) {cfg : SessionConfig} (hfps : 1 ≤ cfg.fps)
    {s : Qtfb.Session} (hs : s.IsOpen) (t₀ : ℤ) :
    UpperBound cfg.fps t₀ s (hello (fpsCap (sessionEnv system cfg))) ↔
      cfg.fps ≤ 120 ∧ cfg.fps ∣ 1000 ∧ 0 < t₀ := by
  obtain ⟨f, hf⟩ := Int.eq_ofNat_of_zero_le (zero_le_one.trans hfps)
  have hcap := fpsCap_sessionEnv system hfps
  rw [hf] at hfps hcap ⊢
  by_cases hle : (f : ℤ) ≤ 120
  · rw [if_pos hle] at hcap
    have hnat : (hello (fpsCap (sessionEnv system cfg))).requestedFps.toNat = f := by
      show (fpsCap (sessionEnv system cfg)).toNat = f
      rw [hcap, toNat_ofInt_of_nonneg (Int.natCast_nonneg f) (by omega), Int.toNat_natCast]
    rw [upperBound_capped_iff hs rfl hnat (by omega) (by omega), Int.natCast_dvd_natCast.symm]
    exact ⟨fun h => ⟨hle, h⟩, fun h => h.2⟩
  · rw [if_neg hle] at hcap
    constructor
    · intro h
      exact absurd h (not_upperBound_uncapped hs rfl hcap)
    · rintro ⟨h, -⟩
      exact absurd h hle

/-- A rate of 10 is kept: the period is 100 ms. -/
theorem frame_rate_ten :
    UpperBound 10 1 desk (hello (fpsCap (sessionEnv (fun _ => none) { fps := 10 }))) :=
  (frame_rate_iff (fun _ => none) (by decide) ⟨false, rfl⟩ 1).mpr
    ⟨by decide, by decide, by decide⟩

/-- The 30 that `Settings` starts with is not: with a period of 33 ms a second has room for
31 frames. -/
theorem frame_rate_thirty :
    ¬ UpperBound 30 1 desk (hello (fpsCap (sessionEnv (fun _ => none) { fps := 30 }))) := by
  have hcap : fpsCap (sessionEnv (fun _ => none) { fps := 30 }) = 30 :=
    fpsCap_sessionEnv (fun _ => none) (by decide)
  rw [hcap]
  intro h
  obtain ⟨hdvd, -⟩ := (upperBound_capped_iff (f := 30) ⟨false, rfl⟩ rfl rfl (by decide)
    (by decide)).mp h
  exact absurd hdvd (by decide)

end Rmcast.Vncast
