import Rmcast.Client.EventLoop

/-!
# Messages in the buffer of the client

`poll` looks at the socket, and each time it reports data the loop lets
libvncclient handle one message. A read may go on beyond that message: when
it empties the socket and leaves a complete further message in the buffer,
nothing tells the loop about it. The message waits until the server sends
something else.
-/

namespace Rmcast.Client

open Loop Screen Word

/-- The buffer of the `rfbClient` holds a complete message. -/
def Net.Held (net : Net) : Prop :=
  ∃ m ∈ net.messages.head?, m ≤ net.buffered

/-- The bytes that are somewhere on their way are those of the messages, and
no message is empty. -/
structure Net.Consistent (net : Net) : Prop where
  total : net.flight + net.kernel + net.buffered = net.messages.sum
  pos : ∀ m ∈ net.messages, 0 < m

/-- A complete message waits while the main thread is blocked. -/
def Overlooked (l : EventLoop) : Prop := Blocked l ∧ l.net.Held

/-- `HandleRFBServerMessage` empties the socket, and what it has read beyond
its message contains the next one. -/
def Coalesces (l : EventLoop) : Event → Prop
  | .message _ taken =>
      taken = l.net.kernel ∧
        ∃ m ∈ l.net.messages.head?, ∃ m' ∈ l.net.messages.tail.head?,
          m + m' ≤ l.net.buffered + taken
  | _ => False

instance (l : EventLoop) : ∀ e, Decidable (Coalesces l e)
  | .message _ taken =>
      inferInstanceAs (Decidable (taken = l.net.kernel ∧
        ∃ m ∈ l.net.messages.head?, ∃ m' ∈ l.net.messages.tail.head?,
          m + m' ≤ l.net.buffered + taken))
  | .tick _ _ | .send _ | .arrive _ | .enter | .wake | .fail | .skip | .sensor _
  | .setMode _ | .repaint _ => inferInstanceAs (Decidable False)

/-- What a step does to the connection. -/
inductive NetMove (net : Net) : Event → Net → Prop
  | same (e : Event) : NetMove net e net
  | send (n : ℕ) (hn : n ≠ 0) : NetMove net (.send n)
      { net with flight := net.flight + n, messages := net.messages ++ [n] }
  | arrive (n : ℕ) (hn : n ≤ net.flight) : NetMove net (.arrive n)
      { net with flight := net.flight - n, kernel := net.kernel + n }
  | handle (calls : List Callback) (taken m : ℕ) (rest : List ℕ)
      (hm : net.messages = m :: rest) (ht : taken ≤ net.kernel)
      (hb : m ≤ net.buffered + taken) : NetMove net (.message calls taken)
      { net with
        kernel := net.kernel - taken
        buffered := net.buffered + taken - m
        messages := rest }

section Steps

variable {l l' : EventLoop} {e : Event}

theorem netMove_of_step (hstep : l.step e = some l') : NetMove l.net e l'.net := by
  cases goes_of_step hstep with
  | send n hn => exact .send n hn
  | arrive n hn => exact .arrive n hn
  | message calls taken m rest s hpc hm htaken hthere hs =>
      exact .handle calls taken m rest hm htaken hthere
  | enter | wake | fail | skip | tick | sensor | setMode | repaint => exact .same _

/-- The invariant: when the socket is empty, so is the buffer, up to a part of
a message. -/
structure Net.Drained (net : Net) : Prop where
  consistent : net.Consistent
  not_held : net.kernel = 0 → ¬ net.Held

/-- Without messages there are no bytes. -/
theorem Net.Consistent.buffered_eq_zero {net : Net} (h : net.Consistent)
    (hm : net.messages = []) : net.buffered = 0 := by
  have htotal := h.total
  rw [hm, List.sum_nil] at htotal
  omega

/-- A new message is not held: at most the one before it is. -/
theorem Net.Drained.send {net : Net} (h : net.Drained) {n : ℕ} (hn : n ≠ 0) :
    Net.Drained { net with flight := net.flight + n, messages := net.messages ++ [n] } := by
  refine ⟨⟨?_, ?_⟩, fun hk => ?_⟩
  · show net.flight + n + net.kernel + net.buffered = (net.messages ++ [n]).sum
    rw [List.sum_append, ← h.consistent.total, List.sum_singleton]
    ring
  · intro m hm
    rcases List.mem_append.mp hm with hm | hm
    · exact h.consistent.pos m hm
    · rw [List.mem_singleton.mp hm]
      exact Nat.pos_of_ne_zero hn
  · rintro ⟨m, hm, hle⟩
    cases hmsg : net.messages with
    | nil =>
        have hb := h.consistent.buffered_eq_zero hmsg
        simp only [hmsg, List.nil_append, List.head?_cons, Option.mem_some_iff] at hm
        rw [← hm] at hle
        exact hn (Nat.le_zero.mp (hle.trans hb.le))
    | cons x rest =>
        refine h.not_held hk ⟨m, ?_, hle⟩
        rw [hmsg]
        simp only [hmsg, List.cons_append, List.head?_cons] at hm
        exact hm

/-- After a message is handled: unless the socket is empty and the next message
is in the buffer as a whole. -/
theorem Net.Drained.handle {net : Net} (h : net.Drained) {taken m : ℕ} {rest : List ℕ}
    (hm : net.messages = m :: rest) (ht : taken ≤ net.kernel)
    (hb : m ≤ net.buffered + taken)
    (hc : ∀ m' rest', rest = m' :: rest' → taken = net.kernel →
      ¬ m + m' ≤ net.buffered + taken) :
    Net.Drained { net with
      kernel := net.kernel - taken
      buffered := net.buffered + taken - m
      messages := rest } := by
  have htotal := h.consistent.total
  rw [hm, List.sum_cons] at htotal
  refine ⟨⟨?_, ?_⟩, fun hk => ?_⟩
  · show net.flight + (net.kernel - taken) + (net.buffered + taken - m) = rest.sum
    omega
  · intro x hx
    exact h.consistent.pos x (by rw [hm]; exact List.mem_cons_of_mem _ hx)
  · rintro ⟨m', hm', hle⟩
    cases rest with
    | nil => cases hm'
    | cons x rest =>
        -- an empty socket means that the read has taken all of it
        obtain rfl : x = m' := Option.some.inj hm'
        have hall : taken = net.kernel := le_antisymm ht (Nat.sub_eq_zero_iff_le.mp hk)
        refine hc x rest rfl hall ?_
        rw [add_comm]
        exact Nat.add_le_of_le_sub hb hle

/-- **Step lemma.** -/
theorem Net.Drained.move {net net' : Net} (h : net.Drained)
    (hmove : NetMove net e net')
    (hc : ∀ calls taken m m' rest, e = .message calls taken →
      net.messages = m :: m' :: rest → taken = net.kernel →
      ¬ m + m' ≤ net.buffered + taken) : net'.Drained := by
  cases hmove with
  | same => exact h
  | send n hn => exact h.send hn
  | arrive n hn =>
      refine ⟨⟨?_, h.consistent.pos⟩, fun hk => h.not_held ?_⟩
      · show net.flight - n + (net.kernel + n) + net.buffered = net.messages.sum
        rw [← h.consistent.total]
        omega
      · exact (Nat.add_eq_zero_iff.mp hk).1
  | handle calls taken m rest hm ht hb =>
      apply h.handle hm ht hb
      intro m' rest' hrest
      exact hc calls taken m m' rest' rfl (hrest ▸ hm)

end Steps

/-- **No complete message is overlooked** in a run in which no read empties
the socket and leaves a complete further message in the buffer, if the
handshake has left none there. -/
theorem never_overlooked {d : Device} {o : Orientation} {env : Option (List Char)}
    {sw sh : ℤ} {net : Net} {l₀ : EventLoop} {es : List Event}
    (hnet : net.Consistent) (hheld : net.kernel = 0 → ¬ net.Held)
    (hstart : EventLoop.start d o env sw sh net = some l₀)
    (hes : EveryStep EventLoop.step (fun l e => ¬ Coalesces l e) l₀ es) :
    ∀ pre, pre <+: es → ∀ l, run EventLoop.step l₀ pre = some l → ¬ Overlooked l := by
  rintro pre ⟨rest, rfl⟩ l hrun ⟨hblocked, hl⟩
  obtain ⟨s, -, rfl⟩ := Option.map_eq_some_iff.mp hstart
  have hdrained : l.net.Drained := by
    refine run_keeps (fun l => l.net.Drained) ?_ ⟨hnet, hheld⟩ hes.of_append hrun
    intro l e l' h hc hstep
    refine h.move (netMove_of_step hstep) ?_
    rintro calls taken m m' rest rfl hm ht hle
    refine hc ⟨ht, m, ?_, m', ?_, hle⟩
    · rw [hm]
      rfl
    · rw [hm]
      rfl
  exact hdrained.not_held hblocked.idle.2 hl

/-- Two messages arrive together, and are read one at a time. -/
def twoMessages (taken : ℕ) : List Event :=
  [.enter, .send 16, .send 4, .arrive 20, .wake, .message [] taken,
   .tick 500000000 500000001, .enter]

theorem never_overlooked_one_by_one :
    ∃ l₀, EventLoop.start strip .Portrait none 5 1 {} = some l₀ ∧
      (∃ l, run EventLoop.step l₀ (twoMessages 16) = some l) ∧
      ∀ pre, pre <+: twoMessages 16 → ∀ l, run EventLoop.step l₀ pre = some l →
        ¬ Overlooked l := by
  obtain ⟨l₀, hstart⟩ : ∃ l₀, EventLoop.start strip .Portrait none 5 1 {} = some l₀ :=
    ⟨_, rfl⟩
  have hes : ∀ l₀ ∈ EventLoop.start strip .Portrait none 5 1 {},
      EveryStep EventLoop.step (fun l e => ¬ Coalesces l e) l₀ (twoMessages 16) ∧
      (run EventLoop.step l₀ (twoMessages 16)).isSome := by
    decide +kernel
  obtain ⟨hes, hrun⟩ := hes l₀ hstart
  refine ⟨l₀, hstart, Option.isSome_iff_exists.mp hrun,
    never_overlooked ⟨rfl, fun m hm => (List.not_mem_nil hm).elim⟩ ?_ hstart hes⟩
  rintro - ⟨m, hm, -⟩
  cases hm

/-- They are read together: the second one waits in the buffer, and the loop
sleeps without a timeout. -/
theorem second_message_overlooked :
    ¬ ∀ l₀, EventLoop.start strip .Portrait none 5 1 {} = some l₀ →
      ∀ l, run EventLoop.step l₀ (twoMessages 20) = some l → ¬ Overlooked l := by
  intro H
  obtain ⟨l₀, hstart⟩ : ∃ l₀, EventLoop.start strip .Portrait none 5 1 {} = some l₀ :=
    ⟨_, rfl⟩
  have hrun : ∀ l₀ ∈ EventLoop.start strip .Portrait none 5 1 {},
      ∃ l ∈ run EventLoop.step l₀ (twoMessages 20),
        l.pc = .polling (-1) ∧ l.net = { buffered := 4, messages := [4] } := by
    decide +kernel
  obtain ⟨l, hl, hpc, hnet⟩ := hrun l₀ hstart
  refine H l₀ hstart l hl ⟨⟨-1, hpc, by decide, by rw [hnet]⟩, 4, ?_, ?_⟩
  · rw [hnet]
    rfl
  · rw [hnet]

end Rmcast.Client
