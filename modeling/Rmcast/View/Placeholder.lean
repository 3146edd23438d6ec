import Rmcast.Qtfb.Server
import Rmcast.View.Invalidate

/-!
# The placeholder of the frame view

`paint` shows a text instead of the picture until a client is connected and has
sent a frame. It asks the server for the former and goes by `m_lastSeq` for the
latter, which belongs to the view: no slot resets it when a client comes or
goes. So with a later client the picture of an earlier one is painted until the
new one has sent something (`placeholder_iff`).
-/

namespace Rmcast.View

/-! ## §1  A view and its server -/

/-- What `paint` shows. -/
inductive Painted where
  | placeholder (msg : List Char)
  | image
  /-- The picture is null. -/
  | nothing
deriving DecidableEq, Repr

/-- The end of `paint`, for a view with the server `m_server`. -/
def FrameView.shows (v : FrameView) (server : Option Qtfb.Server) : Painted :=
  let noClient := ∀ s ∈ server, s.socket = none
  let noFrameYet := v.lastSeq = 0
  if noClient ∨ noFrameYet then
    .placeholder (if server = none then "(no qtfb server)".toList
      else if noClient then "Waiting for vnsee to connect…".toList
      else "Connected — waiting for frames…".toList)
  else if v.img = none then .nothing
  else .image

/-- The server the view is attached to, and the view. -/
structure Attached where
  server : Qtfb.Server
  view : FrameView

/-- The signals of the server that the view has connected a slot to, and
`paint`. -/
inductive Slot where
  | clientConnected
  | clientDisconnected
  | frameReady (seq : UInt32) (x y dw dh : ℤ)
  | paint
deriving DecidableEq, Repr

namespace Attached

/-- `setServer`, before a client has connected. -/
def start (server : Qtfb.Server) (bounds : Size) (img : Image) : Attached :=
  ⟨{ server with socket := none }, FrameView.start bounds img⟩

/-- `m_socket` is set before `clientConnected` is emitted, and cleared before
`clientDisconnected` is; both go to `rebuildImage`, with the picture `img` of
the server. -/
def step (qt : Toolkit) (img : Image) (a : Attached) : Slot → Attached
  | .clientConnected =>
      ⟨{ a.server with socket := some ⟨false, false⟩ }, a.view.rebuildImage (some img)⟩
  | .clientDisconnected =>
      ⟨{ a.server with socket := none }, a.view.rebuildImage (some img)⟩
  | .frameReady seq x y dw dh => ⟨a.server, a.view.onFrameReady qt seq x y dw dh⟩
  | .paint => ⟨a.server, a.view.paint qt⟩

def run (qt : Toolkit) (img : Image) (a : Attached) (es : List Slot) : Attached :=
  es.foldl (step qt img) a

/-- What a `paint` shows now. -/
def shows (a : Attached) : Painted := a.view.shows (some a.server)

end Attached

/-! ## §2  What the events say -/

/-- A client comes or goes. -/
def Slot.changes : Slot → Bool
  | .clientConnected | .clientDisconnected => true
  | .frameReady .. | .paint => false

def Slot.isFrame : Slot → Bool
  | .frameReady .. => true
  | .clientConnected | .clientDisconnected | .paint => false

/-- A client is connected after the events: the last one that came has not
gone. -/
def Connected (es : List Slot) : Prop :=
  es.reverse.find? Slot.changes = some .clientConnected

/-- It has caused a frame since it came. -/
def SentFrame (es : List Slot) : Prop :=
  Connected es ∧ ∃ e ∈ es.reverse.takeWhile fun e => !e.changes, e.isFrame = true

def Slot.seq (n : UInt32) : Slot → UInt32
  | .frameReady seq .. => seq
  | .clientConnected | .clientDisconnected | .paint => n

/-- The sequence number of the last frame there was, or 0. -/
def lastSeq (es : List Slot) : UInt32 := es.foldl Slot.seq 0

instance (es : List Slot) : Decidable (Connected es) :=
  inferInstanceAs (Decidable (_ = _))

instance (es : List Slot) : Decidable (SentFrame es) :=
  inferInstanceAs (Decidable (_ ∧ _))

/-- Every `paint` of the run shows the picture only of a client that has sent a
frame, and the placeholder otherwise. -/
def PaintsRight (qt : Toolkit) (img : Image) (a : Attached) (es : List Slot) : Prop :=
  ∀ pre, pre ++ [.paint] <+: es →
    ((a.run qt img pre).shows = .image → SentFrame pre) ∧
    (¬ SentFrame pre → ∃ msg, (a.run qt img pre).shows = .placeholder msg)

/-! ## §3  What the view knows -/

section Run

variable {qt : Toolkit} {img : Image} {a : Attached}

theorem onFrameReady_lastSeq (qt : Toolkit) (v : FrameView) (seq : UInt32) (x y dw dh : ℤ) :
    (v.onFrameReady qt seq x y dw dh).lastSeq = seq ∧
      (v.onFrameReady qt seq x y dw dh).img = v.img := by
  unfold FrameView.onFrameReady
  dsimp only
  split
  · exact ⟨rfl, rfl⟩
  · split
    · exact ⟨rfl, rfl⟩
    · exact ⟨rfl, rfl⟩

theorem Attached.run_snoc (es : List Slot) (e : Slot) :
    a.run qt img (es ++ [e]) = (a.run qt img es).step qt img e := by
  unfold Attached.run
  rw [List.foldl_append]
  rfl

theorem lastSeq_snoc (es : List Slot) (e : Slot) :
    lastSeq (es ++ [e]) = e.seq (lastSeq es) := by
  unfold lastSeq
  rw [List.foldl_append]
  rfl

theorem connected_snoc (es : List Slot) (e : Slot) :
    Connected (es ++ [e]) ↔
      e = .clientConnected ∨ e ≠ .clientDisconnected ∧ Connected es := by
  unfold Connected
  rw [List.reverse_append, List.reverse_singleton, List.singleton_append, List.find?_cons]
  cases e with
  | clientConnected => exact ⟨fun _ => Or.inl rfl, fun _ => rfl⟩
  | clientDisconnected =>
      constructor
      · intro h
        cases h
      · rintro (h | ⟨h, -⟩)
        · cases h
        · exact absurd rfl h
  | frameReady seq x y dw dh => simp [Slot.changes]
  | paint => simp [Slot.changes]

/-- **The invariant**: the server knows whether there is a client, the view the
last sequence number only. -/
structure Knows (a : Attached) (es : List Slot) : Prop where
  client : a.server.socket ≠ none ↔ Connected es
  seq : a.view.lastSeq = lastSeq es
  loaded : a.view.img ≠ none

theorem Knows.step {es : List Slot} (h : Knows a es) (e : Slot) :
    Knows (a.step qt img e) (es ++ [e]) := by
  cases e with
  | clientConnected =>
      refine ⟨?_, ?_, Option.some_ne_none _⟩
      · rw [connected_snoc]
        exact ⟨fun _ => Or.inl rfl, fun _ => Option.some_ne_none _⟩
      · rw [lastSeq_snoc]
        exact h.seq
  | clientDisconnected =>
      refine ⟨?_, ?_, Option.some_ne_none _⟩
      · rw [connected_snoc]
        constructor
        · intro hne
          exact absurd rfl hne
        · rintro (he | ⟨he, -⟩)
          · cases he
          · exact absurd rfl he
      · rw [lastSeq_snoc]
        exact h.seq
  | frameReady seq x y dw dh =>
      obtain ⟨hseq, himg⟩ := onFrameReady_lastSeq qt a.view seq x y dw dh
      refine ⟨?_, ?_, ?_⟩
      · rw [connected_snoc, ← h.client]
        exact ⟨fun hne => Or.inr ⟨by simp, hne⟩, fun hne => (hne.resolve_left (by simp)).2⟩
      · rw [lastSeq_snoc]
        exact hseq
      · show (a.view.onFrameReady qt seq x y dw dh).img ≠ none
        rw [himg]
        exact h.loaded
  | paint =>
      refine ⟨?_, ?_, h.loaded⟩
      · rw [connected_snoc, ← h.client]
        exact ⟨fun hne => Or.inr ⟨by simp, hne⟩, fun hne => (hne.resolve_left (by simp)).2⟩
      · rw [lastSeq_snoc]
        exact h.seq

theorem knows_run (qt : Toolkit) (server : Qtfb.Server) (bounds : Size) (img : Image)
    (es : List Slot) :
    Knows ((Attached.start server bounds img).run qt img es) es := by
  induction es using List.reverseRecOn with
  | nil => exact ⟨⟨fun h => absurd rfl h, fun h => by cases h⟩, rfl, Option.some_ne_none _⟩
  | append_singleton es e ih =>
      rw [Attached.run_snoc]
      exact ih.step e

/-- What `paint` shows, from what has happened. -/
theorem Knows.shows {es : List Slot} (h : Knows a es) :
    if Connected es ∧ lastSeq es ≠ 0 then a.shows = .image
    else ∃ msg, a.shows = .placeholder msg := by
  unfold Attached.shows FrameView.shows
  have hclient : (∀ s ∈ some a.server, s.socket = none) ↔ ¬ Connected es := by
    rw [← h.client, not_not]
    exact ⟨fun hs => hs _ rfl, fun hs s he => by cases he; exact hs⟩
  simp only [hclient, h.seq]
  split
  · next hc =>
      rw [if_neg (by rintro (hn | hn); exacts [hn hc.1, hc.2 hn]), if_neg h.loaded]
  · next hc =>
      rw [not_and_or, not_not] at hc
      rw [if_pos hc]
      exact ⟨_, rfl⟩

end Run

/-! ## §4  Runs -/

/-- At every `paint`, the connected client has sent a frame, or there is none,
or no frame has come yet, or the last one had the number 0. -/
def Settled (es : List Slot) : Prop :=
  ∀ pre, pre ++ [.paint] <+: es →
    Connected pre → ¬ SentFrame pre → lastSeq pre = 0

/-- **When no stale picture is painted**. -/
theorem placeholder_iff (qt : Toolkit) (server : Qtfb.Server) (bounds : Size) (img : Image)
    (es : List Slot) :
    PaintsRight qt img (Attached.start server bounds img) es ↔ Settled es := by
  refine forall₂_congr fun pre _ => ?_
  have hshows := (knows_run qt server bounds img pre).shows
  by_cases hpic : Connected pre ∧ lastSeq pre ≠ 0
  · rw [if_pos hpic] at hshows
    rw [hshows]
    constructor
    · rintro ⟨himage, -⟩ - hno
      exact absurd (himage rfl) hno
    · intro h
      have hsent : SentFrame pre := by
        by_contra hno
        exact hpic.2 (h hpic.1 hno)
      exact ⟨fun _ => hsent, fun hno => absurd hsent hno⟩
  · rw [if_neg hpic] at hshows
    obtain ⟨msg, hmsg⟩ := hshows
    rw [hmsg]
    constructor
    · intro _ hc _
      by_contra hseq
      exact hpic ⟨hc, hseq⟩
    · intro _
      refine ⟨fun himage => ?_, fun _ => ⟨msg, rfl⟩⟩
      cases himage

/-- A second client has connected and sent nothing. -/
theorem paint_stale_picture :
    ¬ ∀ (qt : Toolkit) (server : Qtfb.Server) (bounds : Size) (img : Image) (es : List Slot),
      PaintsRight qt img (Attached.start server bounds img) es := by
  intro h
  have hshows := (knows_run Toolkit.exact
    ⟨none, 1, 1, 4, 32, 1, [], 0, 0, 0, 0, 0, 0, 0, 0, false⟩ (Size.square 100) Image.hundred
    [.clientConnected, .frameReady 1 0 0 0 0, .clientDisconnected, .clientConnected]).shows
  rw [if_pos (by decide)] at hshows
  have hsent := (h Toolkit.exact ⟨none, 1, 1, 4, 32, 1, [], 0, 0, 0, 0, 0, 0, 0, 0, false⟩
    (Size.square 100) Image.hundred [.clientConnected, .frameReady 1 0 0 0 0,
      .clientDisconnected, .clientConnected, .paint] _ (List.prefix_refl _)).1 hshows
  exact absurd hsent (by decide)

end Rmcast.View
