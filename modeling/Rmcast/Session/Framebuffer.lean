import Mathlib.Logic.Function.Basic
import Rmcast.Lib.Loop
import Rmcast.Qtfb.Lifetime
import Rmcast.Vncast.Handshake

/-!
# The picture's memory across sessions

The launcher makes a server before it spawns vnsee, keeps it from one session to
the next, and replaces it when a session asks for the other format. The frame
view's picture aliases the memory that the server has mapped. `stop` leaves the
memory mapped; the destructor unmaps it, from the event loop, when the view has
been given another server.

A server that is replaced may still have a client. `stop` then goes through the
socket again behind `disconnectFromServer`, which has cleared the pointer if
everything was sent. Apart from that no access goes through a pointer to an
object or to memory that is gone, and the vnsee that runs has a server of the
format it was told (`memory_iff`).
-/

namespace Rmcast.Session.Framebuffer

open Loop

/-! ## §1  The objects -/

/-- A `Server`. -/
structure Server where
  useGrayscaleShm : Bool := false
  /-- `m_shm` is set. -/
  shm : Bool := false
  /-- `m_server` is set. -/
  listening : Bool := false
  /-- `m_socket` is set. -/
  socket : Bool := false
deriving DecidableEq, Repr

/-- A `FrameView`. -/
structure FrameView where
  /-- `m_server`, a pointer that is cleared when the object is destroyed. -/
  server : Option ℕ := none
  /-- The server whose memory `m_img` aliases. -/
  img : Option ℕ := none
  lastSeq : UInt32 := 0
deriving DecidableEq, Repr

structure Launcher where
  /-- The servers by their addresses, none of which is given out twice. -/
  objects : ℕ → Option Server := fun _ => none
  next : ℕ := 0
  /-- `m_server`, a plain pointer. -/
  server : Option ℕ := none
  /-- What `deleteLater` has been called on. -/
  doomed : List ℕ := []
  /-- The view of the session page, while it is there. -/
  view : Option FrameView := none
  /-- `$VNCAST_FORCE_GRAYSCALE` of the vnsee that is running. -/
  proc : Option Bool := none

namespace Launcher

/-- An access through a pointer to a server. -/
def deref (l : Launcher) (i : ℕ) : Option Server := l.objects i

def put (l : Launcher) (i : ℕ) (o : Option Server) : Launcher :=
  { l with objects := Function.update l.objects i o }

/-! ## §2  The view's slots -/

def rebuildImage (l : Launcher) (v : FrameView) : Option FrameView :=
  match v.server with
  | none => some { v with img := none }
  | some i => do
      let o ← l.deref i
      return { v with img := if o.shm then some i else none }

def setServer (l : Launcher) (v : FrameView) (p : Option ℕ) : Option FrameView :=
  if v.server = p then some v else l.rebuildImage { v with server := p }

/-- The binding `server: Vncast.qtfbServer` of the page. -/
def qtfbServerChanged (l : Launcher) : Option Launcher :=
  match l.view with
  | none => some l
  | some v => do
      let v ← l.setServer v l.server
      return { l with view := some v }

/-- `clientConnected` or `clientDisconnected` of the server at `i`. -/
def clientChanged (l : Launcher) (i : ℕ) : Option Launcher :=
  match l.view with
  | none => some l
  | some v =>
      if v.server = some i then do
        let v ← l.rebuildImage v
        return { l with view := some v }
      else some l

/-- `frameReady` of the server at `i`. The launcher's slot asks the server it has
itself for the waveform. -/
def frameReady (l : Launcher) (i : ℕ) (seq : UInt32) : Option Launcher := do
  if seq = 0 ∨ seq = 1 then
    let _ ← l.server.bind l.deref
  return { l with
    view := l.view.map fun v =>
      if v.server = some i then { v with lastSeq := seq } else v }

/-- `paint` reads the picture if a client is connected and a frame has come. -/
def paint (l : Launcher) : Option Launcher :=
  match l.view with
  | none => some l
  | some v =>
      match v.server, v.img with
      | some i, some j => do
          let o ← l.deref i
          if o.socket = false ∨ v.lastSeq = 0 then return l
          let m ← l.deref j
          if m.shm then return l else none
      | some i, none => do
          let _ ← l.deref i
          return l
      | none, _ => some l

/-! ## §3  A server's life -/

/-- `stop`. Where nothing is unsent, `disconnectFromServer` clears `m_socket`
before it returns, and the next access goes through the null pointer. -/
def stop (l : Launcher) (i : ℕ) (unsent : Bool) : Option Launcher := do
  let o ← l.deref i
  if o.socket = true ∧ unsent = false then none
  return l.put i (some { o with socket := false, listening := false })

/-- The destructor, called from the event loop. -/
def destroy (l : Launcher) (i : ℕ) (unsent : Bool) : Option Launcher := do
  let l ← l.stop i unsent
  return { l.put i none with
    doomed := l.doomed.filter (· ≠ i)
    view := l.view.map fun v => if v.server = some i then { v with server := none } else v }

/-- `start`, with the answers of `allocShm` and `listen`. -/
def start (l : Launcher) (i : ℕ) (alloc listen : Bool) : Option (Launcher × Bool) := do
  let o ← l.deref i
  if o.listening then return (l, true)
  else
    let shm := if alloc then listen else o.shm
    return (l.put i (some { o with shm := shm, listening := alloc && listen }), alloc && listen)

/-- `new Server`. -/
def create (l : Launcher) : Launcher :=
  { l.put l.next (some {}) with next := l.next + 1, server := some l.next }

/-- The end of `ensureServerStarted`, with `m_server` at `i`. -/
def startServer (l : Launcher) (i : ℕ) (grayscale alloc listen : Bool) :
    Option (Launcher × Bool) := do
  let o ← l.deref i
  let (l, ok) ← (l.put i (some { o with useGrayscaleShm := grayscale })).start i alloc listen
  let l ← (if ok then l
    else { l with doomed := l.doomed ++ [i], server := none }).qtfbServerChanged
  return (l, ok)

/-- The server is given up for one of the other format. -/
def dropServer (l : Launcher) (i : ℕ) (unsent : Bool) : Option Launcher := do
  let l ← { l with server := none }.qtfbServerChanged
  let l ← l.stop i unsent
  return { l with doomed := l.doomed ++ [i] }

def ensureServerStarted (l : Launcher) (grayscale alloc listen unsent : Bool) :
    Option (Launcher × Bool) :=
  match l.server with
  | none => l.create.startServer l.next grayscale alloc listen
  | some i => do
      let o ← l.deref i
      if o.shm then
        if o.useGrayscaleShm = grayscale then return (l, true)
        else
          let l ← l.dropServer i unsent
          l.create.startServer l.next grayscale alloc listen
      else l.startServer i grayscale alloc listen

/-- `if (m_server) m_server->setWaveform(waveform)`. -/
def setWaveform (l : Launcher) : Option Launcher :=
  match l.server with
  | none => some l
  | some i => do
      let _ ← l.deref i
      return l

def startSession (l : Launcher) (grayscale alloc listen unsent spawned : Bool) :
    Option Launcher :=
  if l.proc.isSome then some l
  else do
    let (l, ok) ← l.ensureServerStarted grayscale alloc listen unsent
    if ok then
      let l ← l.setWaveform
      return { l with proc := if spawned then some grayscale else none }
    else return l

/-- `stopSession` waits for vnsee to end, but not for ever. -/
def stopSession (l : Launcher) (ended : Bool) : Launcher :=
  { l with proc := if ended then none else l.proc }

end Launcher

/-! ## §4  Runs -/

inductive Move where
  /-- `alloc`, `listen` and `spawned` are answers of the system; `unsent`, whether
  the replaced server has bytes left for its client. -/
  | startSession (grayscale alloc listen unsent spawned : Bool)
  | stopSession (ended : Bool)
  /-- vnsee has ended. -/
  | finished
  | openPage
  | closePage
  | newConnection (i : ℕ)
  | disconnected (i : ℕ)
  | frameReady (i : ℕ) (seq : UInt32)
  | paint
  /-- The event loop carries out a `deleteLater`. -/
  | destroy (i : ℕ) (unsent : Bool)
deriving DecidableEq

/-- What no server is there for leaves all as it is. -/
def step (l : Launcher) : Move → Option Launcher
  | .startSession grayscale alloc listen unsent spawned =>
      l.startSession grayscale alloc listen unsent spawned
  | .stopSession ended => some (l.stopSession ended)
  | .finished => some { l with proc := none }
  | .openPage => { l with view := some {} }.qtfbServerChanged
  | .closePage => some { l with view := none }
  | .newConnection i =>
      match l.objects i with
      | some o =>
          if o.listening = true ∧ o.socket = false then
            (l.put i (some { o with socket := true })).clientChanged i
          else some l
      | none => some l
  | .disconnected i =>
      match l.objects i with
      | some o =>
          if o.socket = true then
            (l.put i (some { o with socket := false })).clientChanged i
          else some l
      | none => some l
  | .frameReady i seq =>
      match l.objects i with
      | some o => if o.socket = true then l.frameReady i seq else some l
      | none => some l
  | .paint => l.paint
  | .destroy i unsent => if i ∈ l.doomed then l.destroy i unsent else some l

/-- The session asks for the format of the server there is, or the server has no
client, or one with something left to send to it. -/
def Spares (l : Launcher) : Move → Prop
  | .startSession grayscale _ _ unsent _ =>
      l.proc = none → ∀ o ∈ l.server.bind l.objects,
        o.useGrayscaleShm ≠ grayscale → o.socket = true → unsent = true
  | _ => True

/-- The launcher's server has that format. -/
def Serves (l : Launcher) (grayscale : Bool) : Prop :=
  ∃ i o, l.server = some i ∧ l.objects i = some o ∧ o.useGrayscaleShm = grayscale

/-- Whose objects, memory and sockets there are. -/
structure Sound (l : Launcher) : Prop where
  fresh : ∀ i o, l.objects i = some o → i < l.next
  /-- The launcher's server has started. -/
  current : ∀ i, l.server = some i →
    ∃ o, l.objects i = some o ∧ o.shm = true ∧ o.listening = true
  kept : ∀ i, l.server = some i → i ∉ l.doomed
  /-- Any other server waits for its destructor. -/
  owned : ∀ i o, l.objects i = some o → l.server = some i ∨ i ∈ l.doomed
  alive : ∀ i ∈ l.doomed, ∃ o, l.objects i = some o
  /-- Only the launcher's server listens or has a client. -/
  served : ∀ i o, l.objects i = some o → o.listening = true ∨ o.socket = true →
    l.server = some i
  /-- The view has the launcher's server and its memory. -/
  shown : ∀ v ∈ l.view, v.server = l.server ∧ v.img = l.server
  /-- vnsee finds a server, of the format it was told. -/
  attended : ∀ g, l.proc = some g → Serves l g

/-! ## §5  One step -/

section Steps

variable {l : Launcher} {i : ℕ} {o : Server}

theorem deref_eq (l : Launcher) (i : ℕ) : l.deref i = l.objects i := rfl

@[simp] theorem put_self (l : Launcher) (i : ℕ) (o : Option Server) :
    (l.put i o).objects i = o := by
  simp [Launcher.put]

theorem put_other (l : Launcher) {i j : ℕ} (o : Option Server) (h : j ≠ i) :
    (l.put i o).objects j = l.objects j := by
  simp [Launcher.put, h]

/-- What the binding makes of the view. -/
theorem qtfbServerChanged_eq (l : Launcher)
    (hs : ∀ i, l.server = some i → ∃ o, l.objects i = some o ∧ o.shm = true)
    (hv : ∀ v ∈ l.view, v.server = l.server → v.img = l.server) :
    l.qtfbServerChanged =
      some { l with
        view := l.view.map fun v => { v with server := l.server, img := l.server } } := by
  unfold Launcher.qtfbServerChanged Launcher.setServer
  cases hview : l.view with
  | none =>
      have hsame : l = { l with view := none } := by
        cases l
        cases hview
        rfl
      rw [Option.map_none, ← hsame]
  | some v =>
      by_cases heq : v.server = l.server
      · have himg := hv v (by rw [hview]; rfl) heq
        simp only [heq, if_true, Option.bind_eq_bind, Option.bind_some, Option.map_some,
          Option.pure_def]
        have hsame : v = { v with server := l.server, img := l.server } := by
          cases v
          cases heq
          cases himg
          rfl
        rw [← hsame, ← hview]
      · simp only [if_neg heq, Launcher.rebuildImage]
        cases hl : l.server with
        | none => rfl
        | some i =>
            obtain ⟨o, ho, hshm⟩ := hs i hl
            simp [deref_eq, ho, hshm]

/-- A server without a client, or with one that is still to be sent to, stops. -/
theorem stop_eq (ho : l.objects i = some o) {unsent : Bool}
    (hs : o.socket = true → unsent = true) :
    l.stop i unsent = some (l.put i (some { o with socket := false, listening := false })) := by
  unfold Launcher.stop
  simp only [deref_eq, ho, Option.bind_eq_bind, Option.bind_some]
  rw [if_neg fun h => Bool.noConfusion (h.2.symm.trans (hs h.1))]
  rfl

theorem stop_none (ho : l.objects i = some o) (hs : o.socket = true) :
    l.stop i false = none := by
  unfold Launcher.stop
  simp [deref_eq, ho, hs]

/-- `stop` goes through where the server's own `stop` does, which knows the
socket. -/
theorem stop_iff_host (ho : l.objects i = some o) (h : Qtfb.Lifetime.Host)
    (hs : o.socket = h.session.server.socket.isSome) {unsent : Bool}
    (hu : ∀ k, h.session.server.socket = some k → k.unsent = unsent) :
    (∃ l', l.stop i unsent = some l') ↔ ∃ t, h.stop = some t ∧ t.Stopped := by
  rw [Qtfb.Lifetime.stop_iff]
  unfold Qtfb.Lifetime.Host.Pending
  cases hk : h.session.server.socket with
  | none =>
      rw [hk] at hs
      refine ⟨fun _ k e => ?_, fun _ => ⟨_, stop_eq ho fun e => ?_⟩⟩
      · cases e
      · cases hs.symm.trans e
  | some k =>
      rw [hk] at hs
      have hku := hu k hk
      cases unsent with
      | true =>
          refine ⟨fun _ k' e => ?_, fun _ => ⟨_, stop_eq ho fun _ => rfl⟩⟩
          cases e
          exact hku
      | false =>
          constructor
          · rintro ⟨l', hl'⟩
            cases (stop_none ho hs).symm.trans hl'
          · intro hp
            cases hku.symm.trans (hp k rfl)

/-- `start` of a new server, with what the system answers the server's own
`start`. -/
theorem start_isSome (ho : l.objects i = some o) (hnew : o.listening = false)
    (sys : Qtfb.System) (info : Qtfb.DeviceInfo) (shmName : List UInt8) :
    (l.start i (sys.maps (Qtfb.shmBytes (Qtfb.shmFormat info o.useGrayscaleShm).1 info.fbHeight))
        sys.listens).map Prod.snd =
      some (Qtfb.start sys info o.useGrayscaleShm shmName).isSome := by
  unfold Launcher.start Qtfb.start Qtfb.allocShm
  simp only [deref_eq, ho, hnew, Option.bind_eq_bind, Option.bind_some, Bool.false_eq_true,
    if_false]
  cases sys.maps _ <;> cases sys.listens <;> rfl

theorem clientChanged_eq (h : ∀ v ∈ l.view, v.server = some i →
      v.img = some i ∧ ∃ o, l.objects i = some o ∧ o.shm = true) :
    l.clientChanged i = some l := by
  unfold Launcher.clientChanged Launcher.rebuildImage
  cases hview : l.view with
  | none => rfl
  | some v =>
      by_cases heq : v.server = some i
      · obtain ⟨himg, o, ho, hshm⟩ := h v (by rw [hview]; rfl) heq
        have hsame : (⟨some i, some i, v.lastSeq⟩ : FrameView) = v := by
          cases v
          cases heq
          cases himg
          rfl
        simp only [heq, if_true, deref_eq, ho, hshm, Option.bind_eq_bind, Option.bind_some,
          Option.pure_def]
        rw [hsame, ← hview]
      · simp only [if_neg heq]

/-- A client comes to the launcher's server, or goes. -/
theorem Sound.socket (h : Sound l) (ho : l.objects i = some o) (hi : l.server = some i)
    (b : Bool) :
    ∃ l', (l.put i (some { o with socket := b })).clientChanged i = some l' ∧ Sound l' := by
  obtain ⟨o', ho', hshm, hlisten⟩ := h.current i hi
  cases ho.symm.trans ho'
  refine ⟨_, clientChanged_eq fun v hv _ => ?_, ?_⟩
  · exact ⟨(h.shown v hv).2.trans hi, _, put_self l i _, hshm⟩
  · constructor
    case fresh =>
      intro j p hj
      by_cases hji : j = i
      · exact hji ▸ h.fresh i o ho
      · exact h.fresh j p ((put_other l _ hji).symm.trans hj)
    case current =>
      intro j hj
      cases hi.symm.trans hj
      exact ⟨_, put_self l i _, hshm, hlisten⟩
    case kept => exact h.kept
    case owned =>
      intro j p hj
      by_cases hji : j = i
      · exact .inl (hji ▸ hi)
      · exact h.owned j p ((put_other l _ hji).symm.trans hj)
    case alive =>
      intro j hj
      have hji : j ≠ i := fun e => h.kept i hi (e ▸ hj)
      obtain ⟨p, hp⟩ := h.alive j hj
      exact ⟨p, (put_other l _ hji).trans hp⟩
    case served =>
      intro j p hj hup
      by_cases hji : j = i
      · exact hji ▸ hi
      · exact h.served j p ((put_other l _ hji).symm.trans hj) hup
    case shown => exact h.shown
    case attended =>
      intro g hg
      obtain ⟨j, p, hj, hp, hformat⟩ := h.attended g hg
      cases hi.symm.trans hj
      cases ho.symm.trans hp
      exact ⟨i, _, hi, put_self l i _, hformat⟩

/-- A server that waits for its destructor has no client left. -/
theorem Sound.socket_of_doomed (h : Sound l) (hi : i ∈ l.doomed) (ho : l.objects i = some o) :
    o.socket = false := by
  by_contra hs
  exact h.kept i (h.served i o ho (.inr (by simpa using hs))) hi

theorem Sound.destroy (h : Sound l) (hi : i ∈ l.doomed) (unsent : Bool) :
    ∃ l', l.destroy i unsent = some l' ∧ Sound l' := by
  obtain ⟨o, ho⟩ := h.alive i hi
  have hs := h.socket_of_doomed hi ho
  have hne : l.server ≠ some i := fun e => h.kept i e hi
  have hgone : ∀ {j p}, ((l.put i (some { o with socket := false, listening := false })).put i
      none).objects j = some p → j ≠ i ∧ l.objects j = some p := by
    intro j p hj
    by_cases hji : j = i
    · rw [hji, put_self] at hj
      cases hj
    · rw [put_other _ _ hji, put_other _ _ hji] at hj
      exact ⟨hji, hj⟩
  have hleft : ∀ {j p}, j ≠ i → l.objects j = some p →
      ((l.put i (some { o with socket := false, listening := false })).put i none).objects j =
        some p := by
    intro j p hji hj
    rw [put_other _ _ hji, put_other _ _ hji, hj]
  have hmem : ∀ {j}, j ∈ l.doomed.filter (· ≠ i) ↔ j ∈ l.doomed ∧ j ≠ i := by
    intro j
    simp
  refine ⟨_, by
    unfold Launcher.destroy
    rw [stop_eq ho fun e => Bool.noConfusion (hs.symm.trans e)]
    rfl, ?_⟩
  constructor
  case fresh => exact fun j p hj => h.fresh j p (hgone hj).2
  case current =>
    intro j hj
    obtain ⟨p, hp, hp'⟩ := h.current j hj
    exact ⟨p, hleft (fun e => hne (e ▸ hj)) hp, hp'⟩
  case kept => exact fun j hj hm => h.kept j hj (hmem.mp hm).1
  case owned =>
    intro j p hj
    obtain ⟨hji, hp⟩ := hgone hj
    exact (h.owned j p hp).imp_right fun hm => hmem.mpr ⟨hm, hji⟩
  case alive =>
    intro j hj
    obtain ⟨hm, hji⟩ := hmem.mp hj
    obtain ⟨p, hp⟩ := h.alive j hm
    exact ⟨p, hleft hji hp⟩
  case served => exact fun j p hj hup => h.served j p (hgone hj).2 hup
  case shown =>
    intro v hv
    obtain ⟨w, hw, rfl⟩ := Option.map_eq_some_iff.mp hv
    have hwi : w.server ≠ some i := by
      rw [(h.shown w hw).1]
      exact hne
    rw [if_neg hwi]
    exact h.shown w hw
  case attended =>
    intro g hg
    obtain ⟨j, p, hj, hp, hformat⟩ := h.attended g hg
    exact ⟨j, p, hj, hleft (fun e => hne (e ▸ hj)) hp, hformat⟩

/-- Launcher and view have let go of the server. -/
def unbound (l : Launcher) : Launcher :=
  { l with server := none, view := l.view.map fun v => ⟨none, none, v.lastSeq⟩ }

theorem Sound.dropServer_eq (h : Sound l) (hi : l.server = some i) (unsent : Bool) :
    l.dropServer i unsent =
      ((unbound l).stop i unsent).map fun l => { l with doomed := l.doomed ++ [i] } := by
  have hview : { l with server := none }.qtfbServerChanged = some (unbound l) :=
    qtfbServerChanged_eq { l with server := none }
      (fun _ e => absurd e.symm (Option.some_ne_none _))
      fun v hv e => absurd (e.symm.trans ((h.shown v hv).1.trans hi)) (Option.some_ne_none i).symm
  unfold Launcher.dropServer
  rw [hview, Option.bind_eq_bind, Option.bind_some]
  cases (unbound l).stop i unsent <;> rfl

theorem Sound.dropServer (h : Sound l) (hrun : l.proc = none) (hi : l.server = some i)
    (ho : l.objects i = some o) {unsent : Bool} (hs : o.socket = true → unsent = true) :
    ∃ l', l.dropServer i unsent = some l' ∧ Sound l' ∧ l'.server = none ∧
      l'.proc = none := by
  have hnot : ∀ {j}, j ≠ i → l.server ≠ some j := by
    intro j hji e
    cases hi.symm.trans e
    exact hji rfl
  refine ⟨{ (unbound l).put i (some { o with socket := false, listening := false }) with
    doomed := l.doomed ++ [i] }, ?_, ?_, rfl, hrun⟩
  · rw [h.dropServer_eq hi, stop_eq (l := unbound l) ho hs]
    rfl
  constructor
  case fresh =>
    intro j p hj
    by_cases hji : j = i
    · exact hji ▸ h.fresh i o ho
    · exact h.fresh j p ((put_other _ _ hji).symm.trans hj)
  case current => exact fun _ e => absurd e.symm (Option.some_ne_none _)
  case kept => exact fun _ e => absurd e.symm (Option.some_ne_none _)
  case owned =>
    intro j p hj
    refine .inr (List.mem_append.mpr ?_)
    by_cases hji : j = i
    · exact .inr (List.mem_singleton.mpr hji)
    · exact .inl ((h.owned j p ((put_other _ _ hji).symm.trans hj)).resolve_left (hnot hji))
  case alive =>
    intro j hj
    by_cases hji : j = i
    · subst hji
      exact ⟨_, put_self (unbound l) j _⟩
    · have hm := (List.mem_append.mp hj).resolve_right fun e => hji (List.mem_singleton.mp e)
      obtain ⟨p, hp⟩ := h.alive j hm
      exact ⟨p, (put_other _ _ hji).trans hp⟩
  case served =>
    intro j p hj hup
    by_cases hji : j = i
    · subst hji
      cases (put_self _ j _).symm.trans hj
      simp at hup
    · exact absurd (h.served j p ((put_other _ _ hji).symm.trans hj) hup) (hnot hji)
  case shown =>
    intro v hv
    obtain ⟨w, -, rfl⟩ := Option.map_eq_some_iff.mp hv
    exact ⟨rfl, rfl⟩
  case attended => exact fun g e => absurd (e.symm.trans hrun) (Option.some_ne_none g)

/-- The launcher's new server, started or given up. -/
def withServer (l : Launcher) (grayscale ok : Bool) : Launcher :=
  { l with
    objects := Function.update l.objects l.next (some ⟨grayscale, ok, ok, false⟩)
    next := l.next + 1
    server := if ok then some l.next else none
    doomed := if ok then l.doomed else l.doomed ++ [l.next] }

theorem startServer_create (l : Launcher) (grayscale alloc listen : Bool) :
    l.create.startServer l.next grayscale alloc listen =
      (withServer l grayscale (alloc && listen)).qtfbServerChanged.map (·, alloc && listen) := by
  have hmap : ∀ (x : Option Launcher) (b : Bool),
      (x.bind fun y => some (y, b)) = x.map (·, b) := by
    intro x b
    cases x <;> rfl
  unfold Launcher.startServer Launcher.start Launcher.create
  cases alloc <;> cases listen <;>
    simp [Launcher.deref, Launcher.put, withServer, Function.update_idem, hmap]

theorem Sound.startServer (h : Sound l) (hrun : l.proc = none) (hn : l.server = none)
    (grayscale alloc listen : Bool) :
    ∃ l', l.create.startServer l.next grayscale alloc listen = some (l', alloc && listen) ∧
      Sound l' ∧ l'.proc = none ∧
      ((alloc && listen) = true → Serves l' grayscale) := by
  rw [startServer_create]
  generalize (alloc && listen) = ok
  have hself : (withServer l grayscale ok).objects l.next = some ⟨grayscale, ok, ok, false⟩ :=
    Function.update_self ..
  have hother : ∀ {j}, j ≠ l.next → (withServer l grayscale ok).objects j = l.objects j :=
    fun hj => Function.update_of_ne hj ..
  have hs : ∀ i, (withServer l grayscale ok).server = some i →
      ∃ o, (withServer l grayscale ok).objects i = some o ∧ o.shm = true := by
    intro i hi
    cases ok with
    | true =>
        cases hi
        exact ⟨_, hself, rfl⟩
    | false => cases hi
  have hv : ∀ v ∈ (withServer l grayscale ok).view,
      v.server = (withServer l grayscale ok).server →
        v.img = (withServer l grayscale ok).server := by
    intro v hv e
    cases ok with
    | true => cases ((h.shown v hv).1.trans hn).symm.trans e
    | false => exact (h.shown v hv).2.trans hn
  rw [qtfbServerChanged_eq _ hs hv]
  refine ⟨_, rfl, ?_, hrun, fun hok => ⟨l.next, _, if_pos hok, hself, rfl⟩⟩
  have hunborn : l.next ∉ l.doomed := by
    intro hm
    obtain ⟨p, hp⟩ := h.alive _ hm
    exact lt_irrefl _ (h.fresh _ p hp)
  have hdoomed : ∀ {j p}, l.objects j = some p → j ∈ l.doomed := by
    intro j p hp
    exact (h.owned j p hp).resolve_left fun e =>
      absurd (e.symm.trans hn) (Option.some_ne_none j)
  constructor
  case fresh =>
    intro j p hj
    by_cases hji : j = l.next
    · exact hji ▸ Nat.lt_succ_self _
    · exact (h.fresh j p ((hother hji).symm.trans hj)).trans (Nat.lt_succ_self _)
  case current =>
    intro j hj
    cases ok with
    | true =>
        cases hj
        exact ⟨_, hself, rfl, rfl⟩
    | false => cases hj
  case kept =>
    intro j hj
    cases ok with
    | true =>
        cases hj
        exact hunborn
    | false => cases hj
  case owned =>
    intro j p hj
    by_cases hji : j = l.next
    · subst hji
      cases ok with
      | true => exact .inl rfl
      | false => exact .inr (List.mem_append.mpr (.inr (List.mem_singleton.mpr rfl)))
    · have hm := hdoomed ((hother hji).symm.trans hj)
      cases ok with
      | true => exact .inr hm
      | false => exact .inr (List.mem_append.mpr (.inl hm))
  case alive =>
    intro j hj
    by_cases hji : j = l.next
    · exact ⟨_, hji ▸ hself⟩
    · have hm : j ∈ l.doomed := by
        cases ok with
        | true => exact hj
        | false =>
            exact (List.mem_append.mp hj).resolve_right fun e => hji (List.mem_singleton.mp e)
      obtain ⟨p, hp⟩ := h.alive j hm
      exact ⟨p, (hother hji).trans hp⟩
  case served =>
    intro j p hj hup
    by_cases hji : j = l.next
    · subst hji
      cases hself.symm.trans hj
      cases ok with
      | true => rfl
      | false => simp at hup
    · have hq := (hother hji).symm.trans hj
      cases hn.symm.trans (h.served j p hq hup)
  case shown =>
    intro v hv
    obtain ⟨w, -, rfl⟩ := Option.map_eq_some_iff.mp hv
    exact ⟨rfl, rfl⟩
  case attended => exact fun g e => absurd (e.symm.trans hrun) (Option.some_ne_none g)

theorem Sound.ensureServerStarted (h : Sound l) (hrun : l.proc = none)
    {grayscale unsent : Bool} (hspare : ∀ o ∈ l.server.bind l.objects,
      o.useGrayscaleShm ≠ grayscale → o.socket = true → unsent = true) (alloc listen : Bool) :
    ∃ l' ok, l.ensureServerStarted grayscale alloc listen unsent = some (l', ok) ∧ Sound l' ∧
      l'.proc = none ∧ (ok = true → Serves l' grayscale) := by
  have hnew : ∀ {l : Launcher}, Sound l → l.proc = none → l.server = none →
      ∃ l' ok, l.create.startServer l.next grayscale alloc listen = some (l', ok) ∧ Sound l' ∧
        l'.proc = none ∧ (ok = true → Serves l' grayscale) := by
    intro l h hrun hn
    obtain ⟨l', hstart, hrest⟩ := h.startServer hrun hn grayscale alloc listen
    exact ⟨l', _, hstart, hrest⟩
  unfold Launcher.ensureServerStarted
  cases hl : l.server with
  | none => exact hnew h hrun hl
  | some i =>
      obtain ⟨o, ho, hshm, -⟩ := h.current i hl
      simp only [deref_eq, ho, hshm, Option.bind_eq_bind, Option.bind_some, if_true]
      by_cases heq : o.useGrayscaleShm = grayscale
      · exact ⟨l, true, by rw [if_pos heq]; rfl, h, hrun, fun _ => ⟨i, o, hl, ho, heq⟩⟩
      · obtain ⟨l', hdrop, h', hn', hrun'⟩ :=
          h.dropServer hrun hl ho (hspare o (by rw [hl]; exact ho) heq)
        rw [if_neg heq, hdrop]
        exact hnew h' hrun' hn'

theorem Sound.setWaveform (h : Sound l) : l.setWaveform = some l := by
  unfold Launcher.setWaveform
  cases hl : l.server with
  | none => rfl
  | some i =>
      obtain ⟨o, ho, -⟩ := h.current i hl
      simp [deref_eq, ho]

theorem Sound.withProc (h : Sound l) {proc : Option Bool} (hp : ∀ g, proc = some g → Serves l g) :
    Sound { l with proc := proc } :=
  ⟨h.fresh, h.current, h.kept, h.owned, h.alive, h.served, h.shown, hp⟩

theorem Sound.withView (h : Sound l) {view : Option FrameView}
    (hv : ∀ v ∈ view, v.server = l.server ∧ v.img = l.server) : Sound { l with view := view } :=
  ⟨h.fresh, h.current, h.kept, h.owned, h.alive, h.served, hv, h.attended⟩

theorem Sound.startSession (h : Sound l) {grayscale unsent : Bool} {alloc listen spawned : Bool}
    (hspare : Spares l (.startSession grayscale alloc listen unsent spawned)) :
    ∃ l', l.startSession grayscale alloc listen unsent spawned = some l' ∧ Sound l' := by
  unfold Launcher.startSession
  cases hrun : l.proc with
  | some g => exact ⟨l, rfl, h⟩
  | none =>
      obtain ⟨l', ok, hstart, h', -, hserves⟩ :=
        h.ensureServerStarted hrun (hspare hrun) alloc listen
      simp only [hstart, Option.bind_eq_bind, Option.bind_some, Option.isSome_none,
        Bool.false_eq_true, if_false]
      cases ok with
      | true =>
          refine ⟨_, by rw [if_pos rfl, h'.setWaveform]; rfl, h'.withProc fun g hg => ?_⟩
          cases spawned with
          | true =>
              cases hg
              exact hserves rfl
          | false => cases hg
      | false => exact ⟨l', rfl, h'⟩

/-- The replaced server has a client that everything was sent to. -/
theorem Sound.startSession_none (h : Sound l) (hrun : l.proc = none) (hi : l.server = some i)
    (ho : l.objects i = some o) {grayscale : Bool} (hne : o.useGrayscaleShm ≠ grayscale)
    (hs : o.socket = true) (alloc listen spawned : Bool) :
    l.startSession grayscale alloc listen false spawned = none := by
  obtain ⟨o', ho', hshm, -⟩ := h.current i hi
  cases ho.symm.trans ho'
  have hdrop : l.dropServer i false = none := by
    rw [h.dropServer_eq hi, stop_none (l := unbound l) ho hs]
    rfl
  unfold Launcher.startSession Launcher.ensureServerStarted
  simp [hrun, hi, deref_eq, ho, hshm, hne, hdrop]

/-- What the view paints from is there. -/
theorem Sound.paint (h : Sound l) : l.paint = some l := by
  unfold Launcher.paint
  cases hview : l.view with
  | none => rfl
  | some v =>
      obtain ⟨hserver, himg⟩ := h.shown v hview
      cases hl : l.server with
      | none => simp [hserver, himg, hl]
      | some i =>
          obtain ⟨o, ho, hshm, -⟩ := h.current i hl
          simp [hserver, himg, hl, deref_eq, ho, hshm]

/-- A client's frame reaches the view, and the launcher, which has its server. -/
theorem Sound.frameReady (h : Sound l) (hi : l.server = some i) (seq : UInt32) :
    ∃ l', l.frameReady i seq = some l' ∧ Sound l' := by
  obtain ⟨o, ho, -⟩ := h.current i hi
  refine ⟨{ l with
    view := l.view.map fun v => if v.server = some i then { v with lastSeq := seq } else v },
    ?_, h.withView ?_⟩
  · unfold Launcher.frameReady
    by_cases hseq : seq = 0 ∨ seq = 1
    · simp [hseq, hi, deref_eq, ho]
    · simp [hseq]
  · intro v hv
    obtain ⟨w, hw, rfl⟩ := Option.map_eq_some_iff.mp hv
    have hshown := h.shown w hw
    by_cases heq : w.server = some i
    · rw [if_pos heq]
      exact hshown
    · rw [if_neg heq]
      exact hshown

theorem Sound.openPage (h : Sound l) :
    ∃ l', { l with view := some {} }.qtfbServerChanged = some l' ∧ Sound l' := by
  refine ⟨_, qtfbServerChanged_eq { l with view := some {} } ?_ ?_, h.withView ?_⟩
  · intro i hi
    obtain ⟨o, ho, hshm, -⟩ := h.current i hi
    exact ⟨o, ho, hshm⟩
  · intro v hv e
    cases hv
    exact e
  · intro v hv
    obtain ⟨w, -, rfl⟩ := Option.map_eq_some_iff.mp hv
    exact ⟨rfl, rfl⟩

end Steps

theorem Sound.step {l : Launcher} (h : Sound l) (m : Move) (hspare : Spares l m) :
    ∃ l', step l m = some l' ∧ Sound l' := by
  cases m with
  | startSession grayscale alloc listen unsent spawned => exact h.startSession hspare
  | stopSession ended =>
      refine ⟨_, rfl, h.withProc fun g hg => ?_⟩
      cases ended with
      | true => cases hg
      | false => exact h.attended g hg
  | finished => exact ⟨_, rfl, h.withProc fun _ hg => by cases hg⟩
  | openPage => exact h.openPage
  | closePage => exact ⟨_, rfl, h.withView fun _ hv => by cases hv⟩
  | newConnection i =>
      simp only [Framebuffer.step]
      cases ho : l.objects i with
      | none => exact ⟨l, rfl, h⟩
      | some o =>
          by_cases hup : o.listening = true ∧ o.socket = false
          · simp only [if_pos hup]
            exact h.socket ho (h.served i o ho (.inl hup.1)) true
          · exact ⟨l, if_neg hup, h⟩
  | disconnected i =>
      simp only [Framebuffer.step]
      cases ho : l.objects i with
      | none => exact ⟨l, rfl, h⟩
      | some o =>
          by_cases hup : o.socket = true
          · simp only [if_pos hup]
            exact h.socket ho (h.served i o ho (.inr hup)) false
          · exact ⟨l, if_neg hup, h⟩
  | frameReady i seq =>
      simp only [Framebuffer.step]
      cases ho : l.objects i with
      | none => exact ⟨l, rfl, h⟩
      | some o =>
          by_cases hup : o.socket = true
          · simp only [if_pos hup]
            exact h.frameReady (h.served i o ho (.inr hup)) seq
          · exact ⟨l, if_neg hup, h⟩
  | paint => exact ⟨l, h.paint, h⟩
  | destroy i unsent =>
      by_cases hi : i ∈ l.doomed
      · obtain ⟨l', hl', h'⟩ := h.destroy hi unsent
        exact ⟨l', (if_pos hi).trans hl', h'⟩
      · exact ⟨l, if_neg hi, h⟩

theorem Sound.step_none {l : Launcher} (h : Sound l) (m : Move) (hspare : ¬ Spares l m) :
    Framebuffer.step l m = none := by
  cases m with
  | startSession grayscale alloc listen unsent spawned =>
      simp only [Spares, not_forall] at hspare
      obtain ⟨hrun, o, ho, hne, hs, hunsent⟩ := hspare
      obtain ⟨i, hi, ho⟩ := Option.bind_eq_some_iff.mp ho
      rw [Bool.not_eq_true] at hunsent
      subst hunsent
      exact h.startSession_none hrun hi ho hne hs alloc listen spawned
  | _ => exact absurd trivial hspare

/-! ## §6  All runs -/

theorem sound_start : Sound {} := by
  constructor <;> simp

/-- **Memory**: a run goes through no pointer to what is gone, and ends with the
view on memory that is mapped, exactly if no session replaces a server whose
client has been sent everything. -/
theorem memory_iff (ms : List Move) :
    (∃ l, run step {} ms = some l ∧ Sound l) ↔ EveryStep step Spares {} ms :=
  run_iff Sound (fun _ m hs hspare => hs.step m hspare)
    (fun _ m hs hspare => hs.step_none m hspare) sound_start

/-- The next session asks for the other format before the server has heard that
the last one's client is gone. -/
example : (run step {} [.startSession true true true false true, .newConnection 0, .finished,
    .startSession false true true false true]).isNone := by decide

end Rmcast.Session.Framebuffer
