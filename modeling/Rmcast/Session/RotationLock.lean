import Mathlib.Tactic
import Rmcast.Lib.Loop
import Rmcast.Lib.Undo

/-!
# The rotation lock

`OrientationLockGuard` and the part of `main` that holds it (`src/main.cpp`):
while the program runs, the files under `/sys` that make the launcher rotate
are switched off, and afterwards they shall hold what they held before.

The process is a machine with one point for each place at which a signal, or
the `exit(0)` of the power button (`app/buttons.cpp`), can come in between:

* `next` — the thread of `main` does its next step;
* `listen` — inside the `try` block, the client starts its input thread;
* `leave` — the `try` block is left, at the end of the session or by an
  exception;
* `signal` — one of the four signals arrives, on the thread of `main`;
* `power` — the input thread sees the power button;
* `fault` — the input thread goes on with what the end of the `try` block has
  destroyed, and the process crashes.

The input thread is detached and never told to stop (`app/client.cpp`). The
locals of the `try` block go in the order opposite to their definitions, so
that `client` and `device`, which it uses, are gone before the guard restores.
While they are there its own code ends the process at the power button only. The
thread of the orientation sensor is joined before what it uses goes.
-/

namespace Rmcast.Session

/-! ## §1 The files -/

/-- The event switches of the devices `iio:device2` to `iio:device5`, and the
inhibitor of the Hall sensor. -/
inductive SysFile where
  | doubletap
  | singletap
  | threshRising
  | rotChange
  | inhibited
deriving DecidableEq, Repr

instance : Fintype SysFile where
  elems := {.doubletap, .singletap, .threshRising, .rotChange, .inhibited}
  complete f := by cases f <;> decide

/-- `iio_paths`. -/
def iioPaths : List SysFile :=
  [.doubletap, .singletap, .threshRising, .rotChange]

/-- What the guard writes: no events, or inhibited. -/
def SysFile.lockValue : SysFile → ℤ
  | .inhibited => 1
  | _ => 0

/-- The files that are there, with their contents. -/
structure Sysfs where
  value : SysFile → Option ℤ
  writable : SysFile → Bool

/-- `read_int`. -/
def Sysfs.readInt (fs : Sysfs) (path : SysFile) : ℤ :=
  (fs.value path).getD (-1)

/-- `write_int`; `none` where it returns `false`. -/
def Sysfs.writeInt (fs : Sysfs) (path : SysFile) (v : ℤ) : Option Sysfs :=
  if (fs.value path).isSome ∧ fs.writable path then
    some { fs with value := Function.update fs.value path (some v) }
  else none

/-! ## §2 The process -/

/-- The signals the guard handles. -/
inductive Signal where
  | SIGINT
  | SIGTERM
  | SIGHUP
  | SIGQUIT
deriving DecidableEq, Repr

/-- Who called `restore`. -/
inductive Caller where
  | destructor
  | handler (sig : Signal)
deriving DecidableEq, Repr

/-- What the thread of `main` does next. -/
inductive Point where
  /-- The loop over `iio_paths`. -/
  | read (paths : List SysFile)
  | write (path : SysFile) (prior : ℤ) (paths : List SysFile)
  | save (path : SysFile) (prior : ℤ) (paths : List SysFile)
  | readHall
  | inhibit (priorHall : ℤ)
  | saveHall (priorHall : ℤ)
  | engageHall
  /-- `sing_ = this`, if anything was engaged. -/
  | publish
  | install (sigs : List Signal)
  /-- The `try` block, after the guard. -/
  | session
  /-- `client` and `device` are destroyed, before `rot_lock` is. -/
  | unwind
  /-- The entry of `signal_handler`. -/
  | handle (sig : Signal)
  /-- The loop of `restore`. -/
  | writeBack (entries : List (SysFile × ℤ)) (caller : Caller)
  | clearSaved (caller : Caller)
  | writeHall (caller : Caller)
  | disengageHall (caller : Caller)
  | unpublish (caller : Caller)
  | setDefault (sig : Signal)
  | raise (sig : Signal)
  /-- The rest of `main`. -/
  | returning
  | gone
deriving DecidableEq, Repr

structure Proc where
  sysfs : Sysfs
  pc : Point
  /-- `lock_rotation`. -/
  lockRotation : Bool
  savedIio : List (SysFile × ℤ)
  savedHall : ℤ
  hallEngaged : Bool
  /-- `sing_` points to the guard. -/
  sing : Bool
  /-- The signals whose action is `signal_handler`. -/
  handler : Signal → Bool
  /-- The signals whose handler is running: they wait until it returns. -/
  blocked : Signal → Bool
  /-- The input thread is running. -/
  input : Bool
  /-- What the input thread uses is gone, or about to be. -/
  destroyed : Bool
  /-- The files that hold what the guard locked them with. The program does
  not know; nothing reads it. -/
  held : SysFile → Bool

/-- The process that is about to construct the guard. -/
def Proc.start (fs : Sysfs) (lockRotation : Bool) : Proc where
  sysfs := fs
  pc := if lockRotation then .read iioPaths else .session
  lockRotation := lockRotation
  savedIio := []
  savedHall := 0
  hallEngaged := false
  sing := false
  handler := fun _ => false
  blocked := fun _ => false
  input := false
  destroyed := false
  held := fun _ => false

/-! ## §3 The steps -/

/-- A write of `restore`. -/
def Proc.put (s : Proc) (path : SysFile) (prior : ℤ) : Proc :=
  match s.sysfs.writeInt path prior with
  | some fs => { s with sysfs := fs, held := Function.update s.held path false }
  | none => s

/-- One turn of the loop of `restore`. -/
def Proc.putEntry (s : Proc) (e : SysFile × ℤ) : Proc :=
  if e.2 < 0 then s else s.put e.1 e.2

def Proc.putHall (s : Proc) : Proc :=
  if s.hallEngaged then s.put .inhibited s.savedHall else s

/-- Where a caller of `restore` goes on. -/
def Caller.resume : Caller → Point
  | .destructor => .returning
  | .handler sig => .setDefault sig

def Proc.next (s : Proc) : Proc :=
  match s.pc with
  | .read [] => { s with pc := .readHall }
  | .read (p :: ps) => { s with pc := .write p (s.sysfs.readInt p) ps }
  | .write p prior ps =>
    match s.sysfs.writeInt p p.lockValue with
    | some fs =>
      { s with sysfs := fs, held := Function.update s.held p true, pc := .save p prior ps }
    | none => { s with pc := .read ps }
  | .save p prior ps => { s with savedIio := s.savedIio ++ [(p, prior)], pc := .read ps }
  | .readHall => { s with pc := .inhibit (s.sysfs.readInt .inhibited) }
  | .inhibit prior =>
    if prior ≥ 0 then
      match s.sysfs.writeInt .inhibited SysFile.inhibited.lockValue with
      | some fs =>
        { s with
          sysfs := fs
          held := Function.update s.held .inhibited true
          pc := .saveHall prior }
      | none => { s with pc := .publish }
    else { s with pc := .publish }
  | .saveHall prior => { s with savedHall := prior, pc := .engageHall }
  | .engageHall => { s with hallEngaged := true, pc := .publish }
  | .publish =>
    if s.savedIio ≠ [] ∨ s.hallEngaged then
      { s with sing := true, pc := .install [.SIGINT, .SIGTERM, .SIGHUP, .SIGQUIT] }
    else { s with pc := .session }
  | .install [] => { s with pc := .session }
  | .install (sig :: sigs) =>
    { s with handler := Function.update s.handler sig true, pc := .install sigs }
  | .session => s
  | .unwind =>
    -- the local `rot_lock` is destroyed, if there is one
    { s with
      pc := if s.lockRotation then .writeBack s.savedIio .destructor else .returning }
  | .handle sig =>
    { s with pc := if s.sing then .writeBack s.savedIio (.handler sig) else .setDefault sig }
  | .writeBack [] c => { s with pc := .clearSaved c }
  | .writeBack (e :: es) c => { s.putEntry e with pc := .writeBack es c }
  | .clearSaved c => { s with savedIio := [], pc := .writeHall c }
  | .writeHall c => { s.putHall with pc := .disengageHall c }
  | .disengageHall c => { s with hallEngaged := false, pc := .unpublish c }
  | .unpublish c => { s with sing := false, pc := c.resume }
  | .setDefault sig =>
    { s with handler := Function.update s.handler sig false, pc := .raise sig }
  | .raise _ => { s with pc := .gone }
  | .returning => { s with pc := .gone }
  | .gone => s

inductive Event where
  | next
  | listen
  | leave
  | signal (sig : Signal)
  | power
  | fault
deriving DecidableEq, Repr

/-- One event; one that cannot happen where the process stands changes
nothing. -/
def Proc.step (s : Proc) : Event → Proc
  | .next => s.next
  | .listen => if s.pc = .session then { s with input := true } else s
  | .leave => if s.pc = .session then { s with destroyed := true, pc := .unwind } else s
  | .signal sig =>
    if s.pc = .gone ∨ s.blocked sig then s
    else if s.handler sig then
      -- what was interrupted is not kept: the handler raises before it returns
      { s with blocked := Function.update s.blocked sig true, pc := .handle sig }
    else { s with pc := .gone }
  -- `exit(0)` destroys no local of `main`
  | .power => if s.input then { s with pc := .gone } else s
  -- SIGSEGV and SIGABRT have their default action
  | .fault => if s.input ∧ s.destroyed then { s with pc := .gone } else s

def Proc.run (s : Proc) (es : List Event) : Proc :=
  es.foldl Proc.step s

/-! ## §4 The invariant -/

variable {orig : Sysfs} {s : Proc}

/-- A file the guard could write, with the value it had. -/
structure Entry (orig : Sysfs) (e : SysFile × ℤ) : Prop where
  value : orig.value e.1 = some e.2
  writable : orig.writable e.1 = true
  nonneg : 0 ≤ e.2

/-- The data of the guard and the files are true to the files at the start. -/
structure Proc.Faithful (orig : Sysfs) (s : Proc) : Prop where
  writable : s.sysfs.writable = orig.writable
  value : ∀ f, s.sysfs.value f = if s.held f then some f.lockValue else orig.value f
  saved : ∀ e ∈ s.savedIio, Entry orig e
  hall : s.hallEngaged → Entry orig (.inhibited, s.savedHall)

/-- `restore` knows the file. -/
def Proc.Saved (s : Proc) (f : SysFile) : Prop :=
  (∃ prior, (f, prior) ∈ s.savedIio) ∨ f = .inhibited ∧ s.hallEngaged

def Proc.Covered (s : Proc) : Prop := ∀ f, s.held f → s.Saved f

def Proc.Released (s : Proc) : Prop := ∀ f, s.held f = false

/-- In the constructor, before the handlers. -/
def Proc.Building (s : Proc) : Prop :=
  s.lockRotation ∧ ∀ sig, s.handler sig = false

/-- The files whose turn comes later have not been touched. -/
def Proc.Fresh (s : Proc) (paths : List SysFile) : Prop :=
  paths.Nodup ∧ ∀ f ∈ paths, s.held f = false

/-- What holds at each point. -/
def Proc.At (orig : Sysfs) (s : Proc) : Prop :=
  match s.pc with
  | .read ps => s.Building ∧ s.Covered ∧ s.Fresh (ps ++ [.inhibited])
  | .write p prior ps =>
    s.Building ∧ s.Covered ∧ s.Fresh (p :: ps ++ [.inhibited]) ∧ prior = orig.readInt p
  | .save p prior ps =>
    s.Building ∧ (∀ f, s.held f → f = p ∨ s.Saved f) ∧ s.Fresh (ps ++ [.inhibited]) ∧
      Entry orig (p, prior)
  | .readHall => s.Building ∧ s.Covered ∧ s.held .inhibited = false
  | .inhibit prior =>
    s.Building ∧ s.Covered ∧ s.held .inhibited = false ∧ prior = orig.readInt .inhibited
  | .saveHall prior =>
    s.Building ∧ (∀ f, s.held f → f = .inhibited ∨ s.Saved f) ∧
      Entry orig (.inhibited, prior)
  | .engageHall =>
    s.Building ∧ (∀ f, s.held f → f = .inhibited ∨ s.Saved f) ∧
      Entry orig (.inhibited, s.savedHall)
  | .publish => s.Building ∧ s.Covered
  | .install _ => s.lockRotation ∧ s.sing ∧ s.Covered
  | .session | .unwind => ∀ f, s.held f → s.lockRotation ∧ s.Saved f
  | .handle _ => ∀ f, s.held f → s.sing ∧ s.Saved f
  | .writeBack es _ =>
    es ⊆ s.savedIio ∧
      ∀ f, s.held f → (∃ prior, (f, prior) ∈ es) ∨ f = .inhibited ∧ s.hallEngaged
  | .clearSaved _ => ∀ f, s.held f → f = .inhibited ∧ s.hallEngaged
  | .writeHall _ => ∀ f, s.held f → f = .inhibited ∧ s.hallEngaged
  | .disengageHall _ => s.Released
  | .unpublish _ => s.Released
  | .setDefault _ => s.Released
  | .raise _ => s.Released
  | .returning => s.Released
  | .gone => True

structure Proc.Inv (orig : Sysfs) (s : Proc) : Prop where
  faithful : s.Faithful orig
  /-- A handler that runs finds what it has to restore. -/
  handled : ∀ sig, s.handler sig → ∀ f, s.held f → s.sing ∧ s.Saved f
  point : s.At orig

theorem Proc.Released.not_held (h : s.Released) {f : SysFile} (hf : s.held f) : False := by
  rw [h f] at hf
  cases hf

theorem Proc.Building.no_handler (h : s.Building) {sig : Signal} (hs : s.handler sig) :
    False := by
  rw [h.2 sig] at hs
  cases hs

/-- Nothing is held and nothing is left to restore. -/
theorem Proc.Faithful.value_of_released (h : s.Faithful orig) (hr : s.Released) :
    s.sysfs.value = orig.value := by
  ext1 f
  rw [h.value, hr f]
  rfl

theorem Proc.Faithful.readInt (h : s.Faithful orig) {f : SysFile} (hf : s.held f = false) :
    s.sysfs.readInt f = orig.readInt f := by
  unfold Sysfs.readInt
  rw [h.value, hf]
  rfl

/-- Where the process stands, and who handles what, is nothing to the files. -/
theorem Proc.Faithful.aside (h : s.Faithful orig) (pc : Point) (sing : Bool)
    (handler blocked : Signal → Bool) (input destroyed : Bool) :
    ({ s with pc := pc, sing := sing, handler := handler, blocked := blocked,
              input := input, destroyed := destroyed } : Proc).Faithful orig :=
  ⟨h.1, h.2, h.3, h.4⟩

/-- A write-back succeeds and releases the file. -/
theorem Proc.Faithful.put_eq (h : s.Faithful orig) {f : SysFile} {v : ℤ}
    (he : Entry orig (f, v)) :
    s.put f v =
      { s with
        sysfs := { s.sysfs with value := Function.update s.sysfs.value f (some v) }
        held := Function.update s.held f false } := by
  have hthere : (s.sysfs.value f).isSome := by
    rw [h.value, he.value]
    split <;> rfl
  have hw : s.sysfs.writeInt f v =
      some { s.sysfs with value := Function.update s.sysfs.value f (some v) } :=
    if_pos ⟨hthere, by rw [h.writable, he.writable]⟩
  unfold Proc.put
  rw [hw]

theorem Proc.Faithful.put (h : s.Faithful orig) {f : SysFile} {v : ℤ}
    (he : Entry orig (f, v)) : (s.put f v).Faithful orig := by
  rw [h.put_eq he]
  refine ⟨h.writable, fun g => ?_, h.saved, h.hall⟩
  rcases eq_or_ne g f with rfl | hne
  · simp [he.value]
  · simp [hne, h.value g]

/-- A write that locks a file, of the value that was read before. -/
theorem Proc.Faithful.lock (h : s.Faithful orig) {f : SysFile} {fs : Sysfs}
    (hw : s.sysfs.writeInt f f.lockValue = some fs) :
    fs.writable = orig.writable ∧ ((s.sysfs.value f).isSome ∧ orig.writable f) ∧
      ∀ g, fs.value g =
        if Function.update s.held f true g then some g.lockValue else orig.value g := by
  unfold Sysfs.writeInt at hw
  split_ifs at hw with hcan
  cases hw
  refine ⟨h.writable, h.writable ▸ hcan, fun g => ?_⟩
  rcases eq_or_ne g f with rfl | hne
  · simp
  · simp [hne, h.value g]

/-! ## §5 The constructor keeps the invariant -/

/-- The prior values of the files the guard can write are readable. -/
def Sysfs.Readable (fs : Sysfs) : Prop :=
  ∀ f v, fs.value f = some v → fs.writable f → 0 ≤ v

/-- The entry of a file that was read and then locked. -/
theorem Proc.Faithful.entry (h : s.Faithful orig) (horig : orig.Readable) {f : SysFile}
    (hf : s.held f = false) (hthere : (s.sysfs.value f).isSome)
    (hwritable : orig.writable f) : Entry orig (f, orig.readInt f) := by
  obtain ⟨v, hv⟩ := Option.isSome_iff_exists.mp hthere
  rw [h.value, hf] at hv
  have hread : orig.readInt f = v := by
    unfold Sysfs.readInt
    rw [show orig.value f = some v from hv]
    rfl
  rw [hread]
  exact ⟨hv, hwritable, horig f v hv hwritable⟩

theorem Proc.Inv.next_read (h : s.Inv orig) {ps : List SysFile} (hpc : s.pc = .read ps) :
    s.next.Inv orig := by
  have hat := h.point
  simp only [Proc.At, hpc] at hat
  obtain ⟨hb, hc, hfresh⟩ := hat
  unfold Proc.next
  rw [hpc]
  cases ps with
  | nil =>
      exact ⟨h.faithful.aside .., h.handled,
        hb, hc, hfresh.2 _ (List.mem_singleton.mpr rfl)⟩
  | cons p ps =>
      refine ⟨h.faithful.aside .., h.handled,
        hb, hc, hfresh, ?_⟩
      exact h.faithful.readInt (hfresh.2 p (List.mem_cons_self ..))

theorem Proc.Fresh.tail {p : SysFile} {ps : List SysFile} (h : s.Fresh (p :: ps)) :
    s.Fresh ps :=
  ⟨h.1.of_cons, fun f hf => h.2 f (List.mem_cons_of_mem _ hf)⟩

theorem Proc.Inv.next_write (horig : orig.Readable) (h : s.Inv orig) {p : SysFile}
    {prior : ℤ} {ps : List SysFile} (hpc : s.pc = .write p prior ps) :
    s.next.Inv orig := by
  have hat := h.point
  simp only [Proc.At, hpc] at hat
  obtain ⟨hb, hc, hfresh, rfl⟩ := hat
  unfold Proc.next
  rw [hpc]
  dsimp only
  split
  · rename_i fs hw
    obtain ⟨hwr, ⟨hthere, hwritable⟩, hval⟩ := h.faithful.lock hw
    have hp : s.held p = false := hfresh.2 p (List.mem_cons_self ..)
    refine ⟨⟨hwr, hval, h.faithful.3, h.faithful.4⟩, fun sig hs => (hb.no_handler hs).elim,
      hb, ?_, ⟨hfresh.tail.1, ?_⟩, h.faithful.entry horig hp hthere hwritable⟩
    · intro f hf
      rcases eq_or_ne f p with rfl | hne
      · exact Or.inl rfl
      · exact Or.inr (hc f (by simpa [hne] using hf))
    · intro f hf
      have hne : f ≠ p := fun hfp => (List.nodup_cons.mp hfresh.1).1 (hfp ▸ hf)
      simpa [hne] using hfresh.tail.2 f hf
  · exact ⟨h.faithful.aside .., h.handled, hb, hc,
      hfresh.tail⟩

theorem Proc.Inv.next_save (h : s.Inv orig) {p : SysFile} {prior : ℤ} {ps : List SysFile}
    (hpc : s.pc = .save p prior ps) : s.next.Inv orig := by
  have hat := h.point
  simp only [Proc.At, hpc] at hat
  obtain ⟨hb, hc, hfresh, hentry⟩ := hat
  unfold Proc.next
  rw [hpc]
  refine ⟨⟨h.faithful.1, h.faithful.2, ?_, h.faithful.4⟩,
    fun sig hs => (hb.no_handler hs).elim, hb, ?_, hfresh⟩
  · intro e he
    rcases List.mem_append.mp he with he | he
    · exact h.faithful.saved e he
    · exact List.mem_singleton.mp he ▸ hentry
  · intro f hf
    rcases hc f hf with rfl | ⟨v, hv⟩ | hhall
    · exact Or.inl ⟨prior, List.mem_append_right _ (List.mem_singleton.mpr rfl)⟩
    · exact Or.inl ⟨v, List.mem_append_left _ hv⟩
    · exact Or.inr hhall

theorem Proc.Inv.next_readHall (h : s.Inv orig) (hpc : s.pc = .readHall) :
    s.next.Inv orig := by
  have hat := h.point
  simp only [Proc.At, hpc] at hat
  obtain ⟨hb, hc, hfree⟩ := hat
  unfold Proc.next
  rw [hpc]
  exact ⟨h.faithful.aside .., h.handled, hb, hc, hfree,
    h.faithful.readInt hfree⟩

theorem Proc.Inv.next_inhibit (horig : orig.Readable) (h : s.Inv orig) {prior : ℤ}
    (hpc : s.pc = .inhibit prior) : s.next.Inv orig := by
  have hat := h.point
  simp only [Proc.At, hpc] at hat
  obtain ⟨hb, hc, hfree, rfl⟩ := hat
  have hskip : ({ s with pc := .publish } : Proc).Inv orig :=
    ⟨h.faithful.aside .., h.handled, hb, hc⟩
  unfold Proc.next
  rw [hpc]
  dsimp only
  split
  · split
    · rename_i fs hw
      obtain ⟨hwr, ⟨hthere, hwritable⟩, hval⟩ := h.faithful.lock hw
      refine ⟨⟨hwr, hval, h.faithful.3, h.faithful.4⟩,
        fun sig hs => (hb.no_handler hs).elim, hb, fun f hf => ?_,
        h.faithful.entry horig hfree hthere hwritable⟩
      rcases eq_or_ne f .inhibited with rfl | hne
      · exact Or.inl rfl
      · exact Or.inr (hc f (by simpa [hne] using hf))
    · exact hskip
  · exact hskip

theorem Proc.Inv.next_saveHall (h : s.Inv orig) {prior : ℤ}
    (hpc : s.pc = .saveHall prior) : s.next.Inv orig := by
  have hat := h.point
  simp only [Proc.At, hpc] at hat
  obtain ⟨hb, hc, hentry⟩ := hat
  unfold Proc.next
  rw [hpc]
  exact ⟨⟨h.faithful.1, h.faithful.2, h.faithful.3, fun _ => hentry⟩, h.handled, hb, hc,
    hentry⟩

theorem Proc.Inv.next_engageHall (h : s.Inv orig) (hpc : s.pc = .engageHall) :
    s.next.Inv orig := by
  have hat := h.point
  simp only [Proc.At, hpc] at hat
  obtain ⟨hb, hc, hentry⟩ := hat
  unfold Proc.next
  rw [hpc]
  refine ⟨⟨h.faithful.1, h.faithful.2, h.faithful.3, fun _ => hentry⟩,
    fun sig hs => (hb.no_handler hs).elim, hb, fun f hf => ?_⟩
  rcases hc f hf with rfl | hsaved | ⟨rfl, -⟩
  · exact Or.inr ⟨rfl, rfl⟩
  · exact Or.inl hsaved
  · exact Or.inr ⟨rfl, rfl⟩

theorem Proc.Inv.next_publish (h : s.Inv orig) (hpc : s.pc = .publish) :
    s.next.Inv orig := by
  have hat := h.point
  simp only [Proc.At, hpc] at hat
  obtain ⟨hb, hc⟩ := hat
  unfold Proc.next
  rw [hpc]
  dsimp only
  split
  · exact ⟨h.faithful.aside ..,
      fun sig hs => (hb.no_handler hs).elim, hb.1, rfl, hc⟩
  · exact ⟨h.faithful.aside .., h.handled,
      fun f hf => ⟨hb.1, hc f hf⟩⟩

theorem Proc.Inv.next_install (h : s.Inv orig) {sigs : List Signal}
    (hpc : s.pc = .install sigs) : s.next.Inv orig := by
  have hat := h.point
  simp only [Proc.At, hpc] at hat
  obtain ⟨hlock, hsing, hc⟩ := hat
  unfold Proc.next
  rw [hpc]
  cases sigs with
  | nil =>
      exact ⟨h.faithful.aside .., h.handled,
        fun f hf => ⟨hlock, hc f hf⟩⟩
  | cons sig sigs =>
      exact ⟨h.faithful.aside ..,
        fun _ _ f hf => ⟨hsing, hc f hf⟩, hlock, hsing, hc⟩

/-! ## §6 `restore` keeps the invariant -/

theorem Proc.Inv.next_handle (h : s.Inv orig) {sig : Signal} (hpc : s.pc = .handle sig) :
    s.next.Inv orig := by
  have hat := h.point
  simp only [Proc.At, hpc] at hat
  unfold Proc.next
  rw [hpc]
  dsimp only
  split
  · exact ⟨h.faithful.aside .., h.handled,
      List.Subset.refl _, fun f hf => (hat f hf).2⟩
  · rename_i hsing
    refine ⟨h.faithful.aside .., h.handled,
      fun f => ?_⟩
    exact Bool.eq_false_iff.mpr fun hf => hsing (hat f hf).1

theorem Proc.Inv.next_unwind (h : s.Inv orig) (hpc : s.pc = .unwind) : s.next.Inv orig := by
  have hat := h.point
  simp only [Proc.At, hpc] at hat
  unfold Proc.next
  rw [hpc]
  refine ⟨h.faithful.aside .., h.handled, ?_⟩
  rcases hlock : s.lockRotation with _ | _
  · intro f
    refine Bool.eq_false_iff.mpr fun hf => ?_
    exact absurd (hlock.symm.trans (hat f hf).1) (by decide)
  · exact ⟨List.Subset.refl _, fun f hf => (hat f hf).2⟩

/-- A write-back releases one file and changes nothing else the guard looks at. -/
theorem Proc.Inv.put (h : s.Inv orig) {f : SysFile} {v : ℤ} (he : Entry orig (f, v))
    (pc : Point) (hat : ({ s.put f v with pc := pc } : Proc).At orig) :
    ({ s.put f v with pc := pc } : Proc).Inv orig := by
  have hput := h.faithful.put he
  refine ⟨⟨hput.1, hput.2, hput.3, hput.4⟩, ?_, hat⟩
  rw [h.faithful.put_eq he]
  intro sig hs g hg
  refine h.handled sig hs g ?_
  by_contra hfree
  rcases eq_or_ne g f with rfl | hne
  · simp at hg
  · simp [hne] at hg
    exact hfree hg

theorem Proc.Inv.next_writeBack (h : s.Inv orig) {es : List (SysFile × ℤ)} {c : Caller}
    (hpc : s.pc = .writeBack es c) : s.next.Inv orig := by
  have hat := h.point
  simp only [Proc.At, hpc] at hat
  obtain ⟨hsub, hheld⟩ := hat
  unfold Proc.next
  rw [hpc]
  cases es with
  | nil =>
      refine ⟨h.faithful.aside .., h.handled, ?_⟩
      intro f hf
      rcases hheld f hf with ⟨v, hv⟩ | hhall
      · exact (List.not_mem_nil hv).elim
      · exact hhall
  | cons e es =>
      have he : Entry orig e := h.faithful.saved e (hsub (List.mem_cons_self ..))
      have hturn : s.putEntry e = s.put e.1 e.2 := if_neg he.nonneg.not_gt
      show ({ s.putEntry e with pc := .writeBack es c } : Proc).Inv orig
      rw [hturn]
      refine h.put he _ ?_
      rw [h.faithful.put_eq he]
      refine ⟨fun e' he' => hsub (List.mem_cons_of_mem _ he'), fun f hf => ?_⟩
      have hne : f ≠ e.1 := by
        rintro rfl
        simp at hf
      rcases hheld f (by simpa [hne] using hf) with ⟨v, hv⟩ | hhall
      · rcases List.mem_cons.mp hv with hv | hv
        · exact absurd (congrArg Prod.fst hv) hne
        · exact Or.inl ⟨v, hv⟩
      · exact Or.inr hhall

theorem Proc.Inv.next_clearSaved (h : s.Inv orig) {c : Caller}
    (hpc : s.pc = .clearSaved c) : s.next.Inv orig := by
  have hat := h.point
  simp only [Proc.At, hpc] at hat
  unfold Proc.next
  rw [hpc]
  refine ⟨⟨h.faithful.1, h.faithful.2, fun e he => (List.not_mem_nil he).elim,
    h.faithful.4⟩, fun sig hs f hf => ?_, hat⟩
  exact ⟨(h.handled sig hs f hf).1, Or.inr (hat f hf)⟩

theorem Proc.Inv.next_writeHall (h : s.Inv orig) {c : Caller}
    (hpc : s.pc = .writeHall c) : s.next.Inv orig := by
  have hat := h.point
  simp only [Proc.At, hpc] at hat
  unfold Proc.next
  rw [hpc]
  show ({ s.putHall with pc := .disengageHall c } : Proc).Inv orig
  unfold Proc.putHall
  split
  · rename_i hon
    refine h.put (h.faithful.hall hon) _ ?_
    rw [h.faithful.put_eq (h.faithful.hall hon)]
    intro f
    rcases eq_or_ne f .inhibited with rfl | hne
    · simp
    · simpa [hne] using fun hf => hne (hat f hf).1
  · rename_i hoff
    refine ⟨h.faithful.aside .., h.handled, fun f => ?_⟩
    exact Bool.eq_false_iff.mpr fun hf => hoff (hat f hf).2

theorem Proc.Inv.next_disengageHall (h : s.Inv orig) {c : Caller}
    (hpc : s.pc = .disengageHall c) : s.next.Inv orig := by
  have hat := h.point
  simp only [Proc.At, hpc] at hat
  unfold Proc.next
  rw [hpc]
  exact ⟨⟨h.faithful.1, h.faithful.2, h.faithful.3, nofun⟩,
    fun sig hs f hf => (hat.not_held hf).elim, hat⟩

theorem Proc.Inv.next_unpublish (h : s.Inv orig) {c : Caller}
    (hpc : s.pc = .unpublish c) : s.next.Inv orig := by
  have hat := h.point
  simp only [Proc.At, hpc] at hat
  unfold Proc.next
  rw [hpc]
  refine ⟨h.faithful.aside ..,
    fun sig hs f hf => (hat.not_held hf).elim, ?_⟩
  cases c with
  | destructor => exact hat
  | handler sig => exact hat

theorem Proc.Inv.next_setDefault (h : s.Inv orig) {sig : Signal}
    (hpc : s.pc = .setDefault sig) : s.next.Inv orig := by
  have hat := h.point
  simp only [Proc.At, hpc] at hat
  unfold Proc.next
  rw [hpc]
  exact ⟨h.faithful.aside ..,
    fun _ _ f hf => (hat.not_held hf).elim, hat⟩

/-! ## §7 Every event keeps the invariant -/

theorem Proc.Inv.gone (h : s.Inv orig) : ({ s with pc := .gone } : Proc).Inv orig :=
  ⟨h.faithful.aside .., h.handled, trivial⟩

theorem Proc.Inv.next (horig : orig.Readable) (h : s.Inv orig) : s.next.Inv orig := by
  cases hpc : s.pc with
  | read ps => exact h.next_read hpc
  | write p prior ps => exact h.next_write horig hpc
  | save p prior ps => exact h.next_save hpc
  | readHall => exact h.next_readHall hpc
  | inhibit prior => exact h.next_inhibit horig hpc
  | saveHall prior => exact h.next_saveHall hpc
  | engageHall => exact h.next_engageHall hpc
  | publish => exact h.next_publish hpc
  | install sigs => exact h.next_install hpc
  | session => rwa [Proc.next, hpc]
  | unwind => exact h.next_unwind hpc
  | handle sig => exact h.next_handle hpc
  | writeBack es c => exact h.next_writeBack hpc
  | clearSaved c => exact h.next_clearSaved hpc
  | writeHall c => exact h.next_writeHall hpc
  | disengageHall c => exact h.next_disengageHall hpc
  | unpublish c => exact h.next_unpublish hpc
  | setDefault sig => exact h.next_setDefault hpc
  | raise sig =>
      rw [Proc.next, hpc]
      exact h.gone
  | returning =>
      rw [Proc.next, hpc]
      exact h.gone
  | gone => rwa [Proc.next, hpc]

theorem Proc.Inv.step (horig : orig.Readable) (h : s.Inv orig) (e : Event) :
    (s.step e).Inv orig := by
  cases e with
  | next => exact h.next horig
  | listen =>
      unfold Proc.step
      dsimp only
      split
      · exact ⟨h.faithful.aside .., h.handled, h.point⟩
      · exact h
  | leave =>
      unfold Proc.step
      dsimp only
      split
      · rename_i hpc
        have hat := h.point
        simp only [Proc.At, hpc] at hat
        exact ⟨h.faithful.aside .., h.handled, hat⟩
      · exact h
  | signal sig =>
      unfold Proc.step
      dsimp only
      split_ifs with hidle hhandler
      · exact h
      · exact ⟨h.faithful.aside .., h.handled,
          h.handled sig hhandler⟩
      · exact h.gone
  | power | fault =>
      unfold Proc.step
      dsimp only
      split
      · exact h.gone
      · exact h

theorem Proc.Inv.start (orig : Sysfs) (lockRotation : Bool) :
    (Proc.start orig lockRotation).Inv orig := by
  refine ⟨⟨rfl, fun _ => rfl, fun e he => (List.not_mem_nil he).elim, nofun⟩, nofun, ?_⟩
  cases lockRotation with
  | false => exact nofun
  | true => exact ⟨⟨rfl, fun _ => rfl⟩, nofun, by decide, fun _ _ => rfl⟩

/-! ## §8 `restore` as a whole -/

/-- `restore`, when nothing comes in between. -/
def Proc.restore (s : Proc) : Proc :=
  let s := { s.savedIio.foldl Proc.putEntry s with savedIio := [] }
  { s.putHall with hallEngaged := false, sing := false }

theorem Proc.put_pc (s : Proc) (f : SysFile) (v : ℤ) (pc : Point) :
    ({ s with pc := pc } : Proc).put f v = { s.put f v with pc := pc } := by
  show (match s.sysfs.writeInt f v with | some fs => _ | none => _) = _
  unfold Proc.put
  split <;> rfl

theorem Proc.putEntry_pc (s : Proc) (e : SysFile × ℤ) (pc : Point) :
    ({ s with pc := pc } : Proc).putEntry e = { s.putEntry e with pc := pc } := by
  unfold Proc.putEntry
  split
  · rfl
  · exact s.put_pc e.1 e.2 pc

theorem Proc.foldl_putEntry_pc (es : List (SysFile × ℤ)) (s : Proc) (pc : Point) :
    es.foldl Proc.putEntry { s with pc := pc } =
      { es.foldl Proc.putEntry s with pc := pc } := by
  induction es generalizing s with
  | nil => rfl
  | cons e es ih => rw [List.foldl_cons, Proc.putEntry_pc, ih, List.foldl_cons]

theorem Proc.putHall_pc (s : Proc) (pc : Point) :
    ({ s with pc := pc } : Proc).putHall = { s.putHall with pc := pc } := by
  unfold Proc.putHall
  split
  · exact s.put_pc .inhibited s.savedHall pc
  · rfl

/-- The loop of `restore`. -/
theorem Proc.next_loop {es : List (SysFile × ℤ)} {c : Caller} (hpc : s.pc = .writeBack es c) :
    Proc.next^[es.length] s = { es.foldl Proc.putEntry s with pc := .writeBack [] c } := by
  induction es generalizing s with
  | nil => rw [← hpc]; rfl
  | cons e es ih =>
      have hturn : s.next = { s.putEntry e with pc := .writeBack es c } := by
        rw [Proc.next, hpc]
      rw [List.length_cons, Function.iterate_succ_apply, hturn, ih (by rfl),
        Proc.foldl_putEntry_pc, List.foldl_cons]

/-- The steps of `restore` add up to `restore`, and its caller goes on. -/
theorem Proc.next_restore {c : Caller} (hpc : s.pc = .writeBack s.savedIio c) :
    Proc.next^[s.savedIio.length + 5] s = { s.restore with pc := c.resume } := by
  rw [Nat.add_comm, Function.iterate_add_apply, Proc.next_loop hpc]
  let t := { s.savedIio.foldl Proc.putEntry s with savedIio := [] }
  have hhall : ({ t with pc := .writeHall c } : Proc).next =
      { t.putHall with pc := .disengageHall c } := by
    show ({ ({ t with pc := .writeHall c } : Proc).putHall with
      pc := .disengageHall c } : Proc) = _
    rw [Proc.putHall_pc]
  show Proc.next (Proc.next ({ t with pc := .writeHall c } : Proc).next) = _
  rw [hhall]
  rfl

@[simp] theorem Proc.put_savedIio (s : Proc) (f : SysFile) (v : ℤ) :
    (s.put f v).savedIio = s.savedIio := by
  unfold Proc.put
  split <;> rfl

@[simp] theorem Proc.put_savedHall (s : Proc) (f : SysFile) (v : ℤ) :
    (s.put f v).savedHall = s.savedHall := by
  unfold Proc.put
  split <;> rfl

@[simp] theorem Proc.put_hallEngaged (s : Proc) (f : SysFile) (v : ℤ) :
    (s.put f v).hallEngaged = s.hallEngaged := by
  unfold Proc.put
  split <;> rfl

theorem Proc.putHall_savedIio (s : Proc) : s.putHall.savedIio = s.savedIio := by
  unfold Proc.putHall
  split
  · exact s.put_savedIio _ _
  · rfl

/-- With nothing saved there is nothing to restore. -/
theorem Proc.restore_of_cleared (hiio : s.savedIio = []) (hhall : s.hallEngaged = false)
    (hsing : s.sing = false) : s.restore = s := by
  obtain ⟨fs, pc, lock, iio, hall, engaged, sing, handler, blocked, input, destroyed, held⟩ := s
  subst hiio hhall hsing
  rfl

/-- **Restoring twice.** -/
theorem Proc.restore_restore (s : Proc) : s.restore.restore = s.restore :=
  Proc.restore_of_cleared (Proc.putHall_savedIio _) rfl rfl

/-! ## §9 What `restore` leaves -/

/-- The undo log of the guard. -/
def Proc.log (s : Proc) : List (SysFile × Option ℤ) :=
  s.savedIio.map (fun e => (e.1, some e.2)) ++
    if s.hallEngaged then [(.inhibited, some s.savedHall)] else []

theorem Proc.Faithful.log_true (h : s.Faithful orig) : Undo.TrueTo orig.value s.log := by
  intro e he
  rcases List.mem_append.mp he with he | he
  · obtain ⟨e, hmem, rfl⟩ := List.mem_map.mp he
    exact (h.saved e hmem).value
  · split at he
    · rename_i hon
      cases List.mem_singleton.mp he
      exact (h.hall hon).value
    · exact (List.not_mem_nil he).elim

theorem Proc.Faithful.log_covers (h : s.Faithful orig) (hc : s.Covered) :
    Undo.Covers orig.value s.log s.sysfs.value := by
  intro f hf
  have hfree : s.held f = false := by
    refine Bool.eq_false_iff.mpr fun hheld => ?_
    rcases hc f hheld with ⟨v, hv⟩ | ⟨rfl, hon⟩
    · exact hf (f, some v) (List.mem_append_left _ (List.mem_map.mpr ⟨_, hv, rfl⟩)) rfl
    · refine hf (.inhibited, some s.savedHall) (List.mem_append_right _ ?_) rfl
      rw [if_pos hon]
      exact List.mem_singleton.mpr rfl
  rw [h.value, hfree]
  rfl

/-- The loop of `restore` is a rollback of the saved entries. -/
theorem Proc.Faithful.foldl_putEntry (es : List (SysFile × ℤ)) (h : s.Faithful orig)
    (hes : ∀ e ∈ es, Entry orig e) :
    (es.foldl Proc.putEntry s).Faithful orig ∧
      (es.foldl Proc.putEntry s).hallEngaged = s.hallEngaged ∧
      (es.foldl Proc.putEntry s).savedHall = s.savedHall ∧
      (es.foldl Proc.putEntry s).savedIio = s.savedIio ∧
      (es.foldl Proc.putEntry s).sysfs.value =
        Undo.rollback (es.map fun e => (e.1, some e.2)) s.sysfs.value := by
  induction es generalizing s with
  | nil => exact ⟨h, rfl, rfl, rfl, rfl⟩
  | cons e es ih =>
      have he := hes e (List.mem_cons_self ..)
      have hturn : s.putEntry e = s.put e.1 e.2 := if_neg he.nonneg.not_gt
      obtain ⟨hfaith, hon, hhall, hiio, hval⟩ :=
        ih (h.put he) fun e' he' => hes e' (List.mem_cons_of_mem _ he')
      rw [List.foldl_cons, hturn]
      refine ⟨hfaith, hon.trans (s.put_hallEngaged _ _), hhall.trans (s.put_savedHall _ _),
        hiio.trans (s.put_savedIio _ _), ?_⟩
      rw [hval, h.put_eq he]
      rfl

theorem Proc.Faithful.putHall_value (h : s.Faithful orig) :
    s.putHall.sysfs.value =
      Undo.rollback (if s.hallEngaged then [(.inhibited, some s.savedHall)] else [])
        s.sysfs.value := by
  unfold Proc.putHall
  split
  · rename_i hon
    rw [h.put_eq (h.hall hon)]
    rfl
  · rfl

theorem Proc.Faithful.restore_value (h : s.Faithful orig) :
    s.restore.sysfs.value = Undo.rollback s.log s.sysfs.value := by
  obtain ⟨hfaith, hon, hhall, -, hval⟩ := h.foldl_putEntry s.savedIio h.saved
  have hcleared : ({ s.savedIio.foldl Proc.putEntry s with savedIio := [] } : Proc).Faithful
      orig := ⟨hfaith.1, hfaith.2, fun e he => (List.not_mem_nil he).elim, hfaith.4⟩
  calc s.restore.sysfs.value
      = Undo.rollback (if (s.savedIio.foldl Proc.putEntry s).hallEngaged then
          [(.inhibited, some (s.savedIio.foldl Proc.putEntry s).savedHall)] else [])
          (s.savedIio.foldl Proc.putEntry s).sysfs.value := hcleared.putHall_value
    _ = Undo.rollback s.log s.sysfs.value := by
        rw [hon, hhall, hval, ← Undo.rollback_append]
        rfl

/-- **`restore` restores**, wherever the saved entries cover what is held. -/
theorem Proc.Faithful.restore_eq (h : s.Faithful orig) (hc : s.Covered) :
    s.restore.sysfs.value = orig.value := by
  rw [h.restore_value]
  exact Undo.rollback_eq h.log_true (h.log_covers hc)

/-- A `restore` that another one interrupts has the same result: the entries
are still there, and the first ones are written once more. -/
theorem Proc.Faithful.restore_interrupted (h : s.Faithful orig) {es : List (SysFile × ℤ)}
    (hes : es ⊆ s.savedIio) :
    (es.foldl Proc.putEntry s).restore.sysfs.value = s.restore.sysfs.value := by
  obtain ⟨hfaith, hon, hhall, hiio, hval⟩ :=
    h.foldl_putEntry es fun e he => h.saved e (hes he)
  have hlog : (es.foldl Proc.putEntry s).log = s.log := by
    unfold Proc.log
    rw [hiio, hon, hhall]
  rw [hfaith.restore_value, h.restore_value, hlog, hval]
  refine Undo.rollback_part h.log_true (fun e he => ?_) _
  obtain ⟨e, hmem, rfl⟩ := List.mem_map.mp he
  exact List.mem_append_left _ (List.mem_map.mpr ⟨e, hes hmem, rfl⟩)

/-! ## §10 How the process ends -/

/-- When the process is gone, every file holds what it held before; and a
second `restore` would change nothing. -/
def Proc.Undone (orig : Sysfs) (s : Proc) : Prop :=
  (s.pc = .gone → s.sysfs.value = orig.value) ∧ s.restore.restore = s.restore

/-- What the guard holds had the lock value to begin with. -/
def Proc.Harmless (orig : Sysfs) (s : Proc) : Prop :=
  ∀ f, s.held f → orig.value f = some f.lockValue

/-- The process is not ended past `restore` while a file is held with a value it
did not have: not by the power button, not by a signal that has its default
action, and not by the input thread once the `try` block has been left. -/
def Proc.Spared (orig : Sysfs) (s : Proc) : Event → Prop
  | .power => s.input → s.Harmless orig
  | .signal sig => s.handler sig = false → s.blocked sig = false → s.Harmless orig
  | .fault => s.input → s.destroyed → s.Harmless orig
  | .next | .listen | .leave => True

instance (orig : Sysfs) (s : Proc) : Decidable (s.Harmless orig) := by
  unfold Proc.Harmless
  infer_instance

instance (orig : Sysfs) (s : Proc) (e : Event) : Decidable (s.Spared orig e) := by
  cases e <;> unfold Proc.Spared <;> infer_instance

theorem Proc.Faithful.value_eq_iff (h : s.Faithful orig) :
    s.sysfs.value = orig.value ↔ s.Harmless orig := by
  constructor
  · intro hval f hf
    rw [← hval, h.value, if_pos hf]
  · intro hharm
    ext1 f
    rw [h.value]
    split
    · rename_i hf
      exact (hharm f hf).symm
    · rfl

theorem Caller.resume_ne_gone (c : Caller) : c.resume ≠ .gone := by
  cases c <;> exact nofun

/-- The steps after which the thread of `main` has ended the process. -/
theorem Proc.next_gone (hgone : s.next.pc = .gone) :
    s.pc = .gone ∨ (∃ sig, s.pc = .raise sig) ∨ s.pc = .returning := by
  revert hgone
  fun_cases Proc.next s <;> intro hgone
  case case17 | case18 =>
      dsimp only at hgone
      split at hgone <;> cases hgone
  case case24 c _ => exact absurd hgone c.resume_ne_gone
  all_goals first
    | exact Or.inl ‹_›
    | exact Or.inr (Or.inl ⟨_, ‹_›⟩)
    | exact Or.inr (Or.inr ‹_›)
    | cases hgone

/-- The thread of `main` ends the process with nothing held. -/
theorem Proc.Inv.next_undone (h : s.Inv orig) (hs : s.Undone orig) : s.next.Undone orig := by
  refine ⟨fun hgone => ?_, Proc.restore_restore _⟩
  have hat := h.point
  rcases Proc.next_gone hgone with hpc | ⟨sig, hpc⟩ | hpc
  · rw [Proc.next, hpc]
    exact hs.1 hpc
  · simp only [Proc.At, hpc] at hat
    rw [Proc.next, hpc]
    exact h.faithful.value_of_released hat
  · simp only [Proc.At, hpc] at hat
    rw [Proc.next, hpc]
    exact h.faithful.value_of_released hat

/-- Where the process goes on, there is nothing to show yet. -/
theorem Proc.undone_of_alive (hpc : s.pc ≠ .gone) : s.Undone orig :=
  ⟨fun hgone => absurd hgone hpc, Proc.restore_restore _⟩

theorem Proc.Inv.gone_undone_iff (h : s.Inv orig) :
    ({ s with pc := .gone } : Proc).Undone orig ↔ s.Harmless orig := by
  rw [← h.faithful.value_eq_iff]
  exact ⟨fun hs => hs.1 rfl, fun hval => ⟨fun _ => hval, Proc.restore_restore _⟩⟩

/-- What ends the process where it stands, if it happens. -/
theorem Proc.Inv.ends_undone_iff (h : s.Inv orig) (hs : s.Undone orig) (p : Prop) [Decidable p] :
    (if p then { s with pc := .gone } else s).Undone orig ↔ (p → s.Harmless orig) := by
  split
  · rename_i hp
    rw [h.gone_undone_iff]
    exact ⟨fun hharm _ => hharm, fun hharm => hharm hp⟩
  · rename_i hp
    exact iff_of_true hs fun hp' => absurd hp' hp

/-- One event, from a state in which all is well: all is well afterwards
exactly when the event spares the lock. -/
theorem Proc.Inv.step_undone_iff (h : s.Inv orig) (hs : s.Undone orig) (e : Event) :
    (s.step e).Undone orig ↔ s.Spared orig e := by
  cases e with
  | next => exact iff_of_true (h.next_undone hs) trivial
  | listen =>
      refine iff_of_true ?_ trivial
      unfold Proc.step
      dsimp only
      split
      · rename_i hpc
        exact Proc.undone_of_alive (by rw [hpc]; exact nofun)
      · exact hs
  | leave =>
      refine iff_of_true ?_ trivial
      unfold Proc.step
      dsimp only
      split
      · exact Proc.undone_of_alive nofun
      · exact hs
  | signal sig =>
      unfold Proc.step Proc.Spared
      dsimp only
      split_ifs with hidle hhandler
      · refine iff_of_true hs fun hdefault hfree => ?_
        rcases hidle with hgone | hblocked
        · exact h.faithful.value_eq_iff.mp (hs.1 hgone)
        · exact absurd (hfree.symm.trans hblocked) (by decide)
      · refine iff_of_true (Proc.undone_of_alive nofun) fun hdefault => ?_
        exact absurd (hdefault.symm.trans hhandler) (by decide)
      · rw [h.gone_undone_iff]
        have hblocked : s.blocked sig = false :=
          Bool.eq_false_iff.mpr fun hb => hidle (Or.inr hb)
        exact ⟨fun hharm _ _ => hharm, fun hharm =>
          hharm (Bool.eq_false_iff.mpr hhandler) hblocked⟩
  | power => exact h.ends_undone_iff hs _
  | fault => exact (h.ends_undone_iff hs _).trans and_imp

/-! ## §11 Left alone, the process ends -/

theorem Proc.Inv.covered_of_handler (h : s.Inv orig) {sig : Signal} (hsig : s.handler sig) :
    s.Covered := fun f hf => (h.handled sig hsig f hf).2

/-- From the loop of `restore` on, for either caller. -/
theorem Proc.Faithful.restore_ends (h : s.Faithful orig) (hc : s.Covered) {c : Caller}
    (hpc : s.pc = .writeBack s.savedIio c) :
    ∃ n, (Proc.next^[n] s).pc = .gone ∧ (Proc.next^[n] s).sysfs.value = orig.value := by
  have hrestored := Proc.next_restore hpc
  have hval := h.restore_eq hc
  cases c with
  | destructor =>
      refine ⟨1 + (s.savedIio.length + 5), ?_⟩
      rw [Function.iterate_add_apply, hrestored]
      exact ⟨rfl, hval⟩
  | handler sig =>
      refine ⟨2 + (s.savedIio.length + 5), ?_⟩
      rw [Function.iterate_add_apply, hrestored]
      exact ⟨rfl, hval⟩

/-- The end of the session, and every exception, puts the files back. -/
theorem Proc.Inv.leave_ends (h : s.Inv orig) (hpc : s.pc = .session) :
    ∃ n, (Proc.next^[n] (s.step .leave)).pc = .gone ∧
      (Proc.next^[n] (s.step .leave)).sysfs.value = orig.value := by
  have hat := h.point
  simp only [Proc.At, hpc] at hat
  have hleave : (s.step .leave).next =
      { s with
        destroyed := true
        pc := if s.lockRotation then .writeBack s.savedIio .destructor else .returning } := by
    rw [show s.step .leave = { s with destroyed := true, pc := .unwind } from if_pos hpc]
    rfl
  have hends : ∃ n, (Proc.next^[n] (s.step .leave).next).pc = .gone ∧
      (Proc.next^[n] (s.step .leave).next).sysfs.value = orig.value := by
    rw [hleave]
    split
    · exact (h.faithful.aside ..).restore_ends (fun f hf => (hat f hf).2) rfl
    · rename_i hlock
      refine ⟨1, rfl, h.faithful.value_of_released fun f => ?_⟩
      exact Bool.eq_false_iff.mpr fun hf => hlock (hat f hf).1
  obtain ⟨n, hn⟩ := hends
  exact ⟨n + 1, hn⟩

/-- So does every signal that is handled. -/
theorem Proc.Inv.signal_ends (h : s.Inv orig) {sig : Signal} (hpc : s.pc ≠ .gone)
    (hhandler : s.handler sig) (hfree : s.blocked sig = false) :
    ∃ n, (Proc.next^[n] (s.step (.signal sig))).pc = .gone ∧
      (Proc.next^[n] (s.step (.signal sig))).sysfs.value = orig.value := by
  have hidle : ¬(s.pc = .gone ∨ s.blocked sig) := by
    rintro (hgone | hblocked)
    · exact hpc hgone
    · exact absurd (hfree.symm.trans hblocked) (by decide)
  have hstep : s.step (.signal sig) =
      { s with blocked := Function.update s.blocked sig true, pc := .handle sig } := by
    unfold Proc.step
    dsimp only
    rw [if_neg hidle, if_pos hhandler]
  rw [hstep]
  by_cases hsing : s.sing
  · have hentered : Proc.next
        { s with blocked := Function.update s.blocked sig true, pc := .handle sig } =
        { s with
          blocked := Function.update s.blocked sig true
          pc := .writeBack s.savedIio (.handler sig) } := by
      simp only [Proc.next, if_pos hsing]
    have hfaith : ({ s with
        blocked := Function.update s.blocked sig true
        pc := .writeBack s.savedIio (.handler sig) } : Proc).Faithful orig :=
      h.faithful.aside ..
    obtain ⟨n, hn⟩ := hfaith.restore_ends (h.covered_of_handler hhandler) (by rfl)
    refine ⟨n + 1, ?_⟩
    rw [Function.iterate_add_apply, Function.iterate_one, hentered]
    exact hn
  · have hreleased : s.Released := fun f => Bool.eq_false_iff.mpr fun hf =>
      hsing (h.handled sig hhandler f hf).1
    refine ⟨3, ?_⟩
    simp only [Function.iterate_succ_apply, Function.iterate_zero_apply, Proc.next,
      if_neg hsing]
    exact ⟨trivial, h.faithful.value_of_released hreleased⟩

/-! ## §12 Runs -/

/-- A run of the process, event by event. -/
abbrev Proc.events (s : Proc) (P : Proc → Event → Prop) (es : List Event) : Prop :=
  Loop.EveryStep (fun s e => some (Proc.step s e)) P s es

/-- **The rotation lock is undone**, at whatever point a run ends, exactly when
nothing ends the process past `restore` while the lock holds a file. -/
theorem rotation_lock_undone_iff (fs : Sysfs) (hfs : fs.Readable) (lockRotation : Bool)
    (es : List Event) :
    (∀ pre, pre <+: es → ((Proc.start fs lockRotation).run pre).Undone fs) ↔
      (Proc.start fs lockRotation).events (Proc.Spared fs) es := by
  -- the process is alive when the run begins
  refine Loop.foldl_prefix_iff (I := Proc.Inv fs) (fun s e hI hQ => ?_)
    (Proc.Inv.start fs lockRotation) (Proc.undone_of_alive ?_)
  · exact ⟨hI.step hfs e, hI.step_undone_iff hQ e⟩
  · cases lockRotation <;> exact nofun

/-- A tablet on which the Hall sensor and one event file can be written. -/
def Sysfs.tablet : Sysfs where
  value
    | .rotChange => some 1
    | .inhibited => some 0
    | _ => none
  writable := fun _ => true

theorem Sysfs.tablet_readable : Sysfs.tablet.Readable := by
  intro f v hv _
  cases f <;> cases hv <;> decide

/-- A hangup and an interrupt while the handlers are in place, and the hangup
once more. -/
theorem rotation_lock_undone_on_hangup :
    ((Proc.start Sysfs.tablet true).run (List.replicate 24 .next ++ [.listen,
      .signal .SIGHUP, .next, .next, .signal .SIGINT, .signal .SIGHUP] ++
      List.replicate 9 .next)).Undone Sysfs.tablet :=
  (rotation_lock_undone_iff Sysfs.tablet Sysfs.tablet_readable true _).mpr (by decide +kernel)
    _ (List.prefix_refl _)

/-- The server closes the connection, and the input thread reads from the
device that is gone: the sensor is left inhibited. -/
example : ((Proc.start Sysfs.tablet true).run (List.replicate 24 .next ++
    [.listen, .leave, .fault])).sysfs.value .inhibited = some 1 := by decide +kernel

/-- The power button during the session leaves the sensor inhibited and the
rotation event switched off. -/
theorem rotation_lock_left_by_power :
    ¬∀ (fs : Sysfs) (lockRotation : Bool) (es : List Event), fs.Readable →
      ∀ pre, pre <+: es → ((Proc.start fs lockRotation).run pre).Undone fs := by
  intro h
  have hundone := h Sysfs.tablet true (List.replicate 24 .next ++ [.listen, .power])
    Sysfs.tablet_readable _ (List.prefix_refl _)
  have hval := congrFun (hundone.1 (by decide +kernel)) .inhibited
  revert hval
  decide +kernel

end Rmcast.Session
