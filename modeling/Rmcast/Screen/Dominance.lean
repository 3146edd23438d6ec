import Rmcast.Screen.Sensor

/-!
# The dominance threshold

`classify` compares the larger of the two axes with `kDominanceThreshold`.
The comment beside the constant asks for more: one axis must dominate the
other by that much, so that a device held near 45° does not flip back and
forth. This module has the calls of `on_change` as a log. Every one is on a
dominant reading exactly if no reading near 45° that passes the test turns
the direction.
-/

namespace Rmcast.Screen

open Loop

/-! ## §1  The loop and its calls -/

/-- One reading of the three axes. -/
structure Accel where
  x : ℤ
  y : ℤ
  z : ℤ
deriving DecidableEq, Repr

/-- `last_`, and the calls of `on_change_` so far, each with its reading. -/
structure Polled where
  last : DeviceOrientation := .Unknown
  calls : List (Accel × DeviceOrientation) := []
deriving DecidableEq, Repr

/-- One iteration of `OrientationSensor::run`. -/
def poll (s : Polled) (a : Accel) : Polled :=
  let now := classify a.x a.y a.z
  if now ≠ .Unknown then
    { last := now
      calls := if now ≠ s.last then s.calls ++ [(a, now)] else s.calls }
  else s

def Polled.run (s : Polled) (as : List Accel) : Polled := as.foldl poll s

@[simp] theorem Polled.run_nil (s : Polled) : s.run [] = s := rfl

theorem Polled.run_append (s : Polled) (as bs : List Accel) :
    s.run (as ++ bs) = (s.run as).run bs := List.foldl_append

theorem Polled.run_snoc (s : Polled) (as : List Accel) (a : Accel) :
    s.run (as ++ [a]) = poll (s.run as) a := s.run_append as [a]

/-- The loop of the client's sensor: its screen has had the logged calls. -/
theorem sample_poll (env : List Char → Option (List Char)) (start : State)
    {r : Rotator} {s : Polled} (hlast : r.last = s.last)
    (hscreen : r.screen = (s.calls.map Prod.snd).foldl (onChange env) start) (a : Accel) :
    (Screen.sample env r a.x a.y a.z).last = (poll s a).last ∧
    (Screen.sample env r a.x a.y a.z).screen =
      ((poll s a).calls.map Prod.snd).foldl (onChange env) start := by
  unfold Screen.sample poll
  by_cases hu : classify a.x a.y a.z = .Unknown
  · rw [if_neg fun hne => hne hu, if_neg fun hne => hne hu]
    exact ⟨hlast, hscreen⟩
  · rw [if_pos hu, if_pos hu]
    refine ⟨rfl, ?_⟩
    show (if _ ≠ r.last then _ else r.screen) = (List.map _ (if _ ≠ s.last then _ else _)).foldl _ _
    rw [hlast]
    split
    · rw [List.map_append, List.foldl_append, hscreen]
      rfl
    · exact hscreen

theorem sample_run (env : List Char → Option (List Char)) (d : Device)
    (envWaveform : Option (List Char)) (as : List Accel) :
    (as.foldl (fun r a => Screen.sample env r a.x a.y a.z)
      (Rotator.start d envWaveform)).last = (Polled.run {} as).last ∧
    (as.foldl (fun r a => Screen.sample env r a.x a.y a.z)
      (Rotator.start d envWaveform)).screen =
      ((Polled.run {} as).calls.map Prod.snd).foldl (onChange env)
        (Rotator.start d envWaveform).screen := by
  induction as using List.reverseRecOn with
  | nil => exact ⟨rfl, rfl⟩
  | append_singleton as a ih =>
      rw [List.foldl_append, Polled.run_snoc]
      exact sample_poll env _ ih.1 ih.2 a

/-! ## §2  What a reading says -/

/-- The device lies flat. -/
def Accel.Flat (a : Accel) : Prop := |a.z| > |a.x| ∧ |a.z| > |a.y|

instance (a : Accel) : Decidable a.Flat := inferInstanceAs (Decidable (_ ∧ _))

/-- The test of `classify`: the larger axis reaches the threshold. -/
def Accel.Tilted (a : Accel) : Prop :=
  ¬ a.Flat ∧ kDominanceThreshold ≤ max |a.x| |a.y|

instance (a : Accel) : Decidable a.Tilted := inferInstanceAs (Decidable (_ ∧ _))

/-- The larger axis, with its sign. -/
def Accel.heading (a : Accel) : DeviceOrientation :=
  if |a.y| > |a.x| then if a.y > 0 then .PortraitUp else .PortraitDown
  else if a.x > 0 then .LandscapeLeft else .LandscapeRight

/-- Held at 45°, give or take less than the threshold. -/
def Accel.Near45 (a : Accel) : Prop := |(|a.x| - |a.y|)| < kDominanceThreshold

/-- What the comment asks of a reading that flips the orientation. -/
def Accel.Dominant (a : Accel) : Prop := ¬ a.Flat ∧ ¬ a.Near45

/-- The direction of the last tilted reading. -/
def headingAfter (as : List Accel) : DeviceOrientation :=
  ((as.filter (·.Tilted)).getLast?.map Accel.heading).getD .Unknown

section Readings

variable {a : Accel} {as : List Accel} {s : Polled}

theorem Accel.heading_ne_unknown (a : Accel) : a.heading ≠ .Unknown := by
  unfold Accel.heading
  split
  · split <;> exact DeviceOrientation.noConfusion
  · split <;> exact DeviceOrientation.noConfusion

theorem classify_flat (h : a.Flat) : classify a.x a.y a.z = .Unknown := if_pos h

theorem classify_tilted (h : a.Tilted) : classify a.x a.y a.z = a.heading := by
  obtain ⟨hflat, hmax⟩ := h
  unfold classify Accel.heading
  rw [if_neg (show ¬ (|a.z| > |a.x| ∧ |a.z| > |a.y|) from hflat)]
  split
  · rename_i hyx
    rw [max_eq_right hyx.le] at hmax
    rw [if_neg hmax.not_gt]
  · rename_i hyx
    rw [max_eq_left (not_lt.mp hyx)] at hmax
    rw [if_neg hmax.not_gt]

theorem classify_not_tilted (h : ¬ a.Tilted) : classify a.x a.y a.z = .Unknown := by
  by_cases hflat : a.Flat
  · exact classify_flat hflat
  have hmax : max |a.x| |a.y| < kDominanceThreshold := not_le.mp fun hm => h ⟨hflat, hm⟩
  obtain ⟨hx, hy⟩ := max_lt_iff.mp hmax
  unfold classify
  rw [if_neg (show ¬ (|a.z| > |a.x| ∧ |a.z| > |a.y|) from hflat), if_pos hy, if_pos hx,
    ite_self]

/-- **One iteration.** A reading that is not tilted changes nothing. -/
theorem poll_not_tilted (h : ¬ a.Tilted) : poll s a = s :=
  if_neg fun hne => hne (classify_not_tilted h)

theorem poll_tilted (h : a.Tilted) :
    poll s a = { last := a.heading
                 calls := if a.heading ≠ s.last then s.calls ++ [(a, a.heading)]
                   else s.calls } := by
  unfold poll
  rw [classify_tilted h]
  exact if_pos a.heading_ne_unknown

theorem headingAfter_snoc_tilted (h : a.Tilted) :
    headingAfter (as ++ [a]) = a.heading := by
  unfold headingAfter
  rw [List.filter_append, List.filter_singleton, decide_eq_true h, cond_true,
    List.getLast?_concat]
  rfl

theorem headingAfter_snoc_not_tilted (h : ¬ a.Tilted) :
    headingAfter (as ++ [a]) = headingAfter as := by
  unfold headingAfter
  rw [List.filter_append, List.filter_singleton, decide_eq_false h, cond_false,
    List.append_nil]

/-- `last_` is the direction of the last tilted reading. -/
theorem run_last (as : List Accel) : (Polled.run {} as).last = headingAfter as := by
  induction as using List.reverseRecOn with
  | nil => rfl
  | append_singleton as a ih =>
      rw [Polled.run_snoc]
      by_cases h : a.Tilted
      · rw [poll_tilted h, headingAfter_snoc_tilted h]
      · rw [poll_not_tilted h, headingAfter_snoc_not_tilted h, ih]

end Readings

/-! ## §3  Hysteresis -/

/-- The calls of `on_change_` on a stretch of readings. -/
def Polled.callsOn (s : Polled) (as : List Accel) : List (Accel × DeviceOrientation) :=
  (Polled.run { last := s.last } as).calls

def DeviceOrientation.IsPortrait (d : DeviceOrientation) : Prop :=
  d = .PortraitUp ∨ d = .PortraitDown

def DeviceOrientation.IsLandscape (d : DeviceOrientation) : Prop :=
  d = .LandscapeLeft ∨ d = .LandscapeRight

/-- `on_change_` is called on dominant readings only. -/
def CallsDominant (as : List Accel) : Prop :=
  ∀ c ∈ (Polled.run {} as).calls, c.1.Dominant

/-- No stretch of readings near 45° reports portrait and landscape. -/
def NoJitter (as : List Accel) : Prop :=
  ∀ pre mid, pre ++ mid <+: as → (∀ a ∈ mid, a.Near45) →
    ¬ ((∃ c ∈ (Polled.run {} pre).callsOn mid, c.2.IsPortrait) ∧
      ∃ c ∈ (Polled.run {} pre).callsOn mid, c.2.IsLandscape)

/-- A tilted reading near 45° points where the last tilted one has pointed. -/
def Settled (as : List Accel) : Prop :=
  ∀ pre a, pre ++ [a] <+: as → a.Tilted → a.Near45 → headingAfter pre = a.heading

section Calls

variable {a : Accel} {as bs : List Accel} {s : Polled}

/-- The log of a stretch comes behind the log before it. -/
theorem run_calls (s : Polled) (as : List Accel) :
    (s.run as).calls = s.calls ++ s.callsOn as ∧
    (s.run as).last = (Polled.run { last := s.last } as).last := by
  unfold Polled.callsOn
  induction as using List.reverseRecOn with
  | nil => exact ⟨(List.append_nil _).symm, rfl⟩
  | append_singleton as a ih =>
      obtain ⟨hcalls, hlast⟩ := ih
      rw [Polled.run_snoc, Polled.run_snoc]
      by_cases h : a.Tilted
      · rw [poll_tilted h, poll_tilted h, ← hlast, hcalls]
        refine ⟨?_, rfl⟩
        split
        · exact List.append_assoc _ _ _
        · rfl
      · rw [poll_not_tilted h, poll_not_tilted h]
        exact ⟨hcalls, hlast⟩

theorem run_calls_mono (h : as <+: bs) :
    (Polled.run {} as).calls <+: (Polled.run {} bs).calls := by
  obtain ⟨cs, rfl⟩ := h
  rw [Polled.run_append, (run_calls _ cs).1]
  exact List.prefix_append _ _

/-- A call is made on a reading of the stretch. -/
theorem callsOn_mem {c : Accel × DeviceOrientation} (hc : c ∈ s.callsOn as) : c.1 ∈ as := by
  unfold Polled.callsOn at hc
  induction as using List.reverseRecOn with
  | nil => cases hc
  | append_singleton as a ih =>
      rw [Polled.run_snoc] at hc
      rw [List.mem_append]
      by_cases h : a.Tilted
      · rw [poll_tilted h] at hc
        dsimp only at hc
        split at hc
        · rcases List.mem_append.mp hc with hc | hc
          · exact Or.inl (ih hc)
          · rw [List.mem_singleton.mp hc]
            exact Or.inr (List.mem_singleton_self a)
        · exact Or.inl (ih hc)
      · rw [poll_not_tilted h] at hc
        exact Or.inl (ih hc)

theorem callsDominant_snoc : CallsDominant (as ++ [a]) ↔
    CallsDominant as ∧ (a.Tilted → a.Near45 → headingAfter as = a.heading) := by
  unfold CallsDominant
  rw [Polled.run_snoc]
  by_cases h : a.Tilted
  · rw [poll_tilted h, run_last]
    dsimp only
    by_cases hsame : a.heading = headingAfter as
    · -- the direction is the last one, and nothing is reported
      rw [if_neg fun hne => hne hsame]
      exact ⟨fun hd => ⟨hd, fun _ _ => hsame.symm⟩, And.left⟩
    · rw [if_pos hsame]
      constructor
      · intro hd
        refine ⟨fun c hc => hd c (List.mem_append_left _ hc), fun _ hnear => ?_⟩
        exact absurd hnear (hd (a, a.heading) (List.mem_append_right _
          (List.mem_singleton_self _))).2
      · rintro ⟨hd, hturn⟩ c hc
        rcases List.mem_append.mp hc with hc | hc
        · exact hd c hc
        · rw [List.mem_singleton.mp hc]
          exact ⟨h.1, fun hnear => hsame (hturn h hnear).symm⟩
  · rw [poll_not_tilted h]
    exact ⟨fun hd => ⟨hd, fun ht => absurd ht h⟩, And.left⟩

theorem callsDominant_iff (as : List Accel) : CallsDominant as ↔ Settled as := by
  induction as using List.reverseRecOn with
  | nil => exact ⟨fun _ => forall_prefix_nil, fun _ c hc => by cases hc⟩
  | append_singleton as a ih =>
      rw [callsDominant_snoc, ih]
      exact forall_prefix_snoc.symm

/-- Where only dominant readings are reported, a stretch near 45° reports
nothing. -/
theorem CallsDominant.callsOn (h : CallsDominant as) {pre mid : List Accel}
    (hmid : pre ++ mid <+: as) (hnear : ∀ a ∈ mid, a.Near45) :
    (Polled.run {} pre).callsOn mid = [] := by
  refine List.eq_nil_iff_forall_not_mem.mpr fun c hc => ?_
  have hlog : c ∈ (Polled.run {} as).calls := by
    apply (run_calls_mono hmid).subset
    rw [Polled.run_append, (run_calls _ mid).1]
    exact List.mem_append_right _ hc
  exact (h c hlog).2 (hnear c.1 (callsOn_mem hc))

theorem CallsDominant.noJitter (h : CallsDominant as) : NoJitter as := by
  rintro pre mid hmid hnear ⟨⟨c, hc, -⟩, -⟩
  rw [h.callsOn hmid hnear] at hc
  cases hc

end Calls

/-- **Hysteresis.** Every call of `on_change_` is on a dominant reading, and
no stretch near 45° flips the orientation back and forth, exactly if no tilted
reading near 45° turns the direction. -/
theorem hysteresis_iff (as : List Accel) :
    (CallsDominant as ∧ NoJitter as) ↔ Settled as :=
  ⟨fun h => (callsDominant_iff as).mp h.1, fun h =>
    have hd := (callsDominant_iff as).mpr h
    ⟨hd, hd.noJitter⟩⟩

/-- The device is held at 45°, with noise of one unit in 9000. -/
theorem hysteresis_fails : ¬ ∀ as : List Accel, CallsDominant as ∧ NoJitter as := by
  intro H
  obtain ⟨-, hjitter⟩ := H [⟨9001, 9000, 0⟩, ⟨9000, 9001, 0⟩]
  refine hjitter [] _ (List.prefix_refl _) ?_ ⟨?_, ?_⟩
  · intro a ha
    rcases List.mem_pair.mp ha with rfl | rfl
    · show |(|(9001 : ℤ)| - |(9000 : ℤ)|)| < kDominanceThreshold
      decide
    · show |(|(9000 : ℤ)| - |(9001 : ℤ)|)| < kDominanceThreshold
      decide
  · exact ⟨(⟨9000, 9001, 0⟩, .PortraitUp), by decide, Or.inl rfl⟩
  · exact ⟨(⟨9001, 9000, 0⟩, .LandscapeLeft), by decide, Or.inl rfl⟩

end Rmcast.Screen
