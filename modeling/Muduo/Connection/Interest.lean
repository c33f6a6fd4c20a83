import Muduo.Connection.HalfClose

/-!
# What an open connection waits for

Until it is closed, a connection is registered for reading, and for writing exactly
while bytes wait in its output buffer. `sendInLoop` asks for write events when it
buffers what `::write` left over, and `handleWrite` gives them up when it has drained
the buffer. Errors of `::write`, and half-closing, change neither the buffer nor the
mask.
-/

namespace Muduo

namespace TcpConnection

variable {c : TcpConnection}

/-! ## Reading -/

/-- All bits of the read events are asked for. -/
def Reads (c : TcpConnection) : Prop :=
  c.channel_.events_ &&& Channel.kReadEvent = Channel.kReadEvent

theorem stable_reads : Stable Reads where
  emit := fun _ _ _ h => h
  input := fun _ _ h => h
  output := fun _ _ h => h
  enableWriting := by
    intro c h
    rw [Reads, onChannel, Channel.enableWriting, (Channel.update_sameObject _ _ _).events,
      BitVec.and_or_distrib_right, h]
    rfl
  disableWriting := by
    intro c h
    have hclear : ~~~Channel.kWriteEvent &&& Channel.kReadEvent = Channel.kReadEvent := rfl
    rw [Reads, onChannel, Channel.disableWriting, (Channel.update_sameObject _ _ _).events,
      BitVec.and_assoc, hclear, h]
  disconnecting := fun _ _ h => h

theorem reads_connectEstablished (c : TcpConnection) (calls : List UserCall) :
    Reads (c.connectEstablished calls) := by
  refine stable_reads.userCalls calls ?_
  rw [Reads, channel_emit, onChannel, Channel.enableReading,
    (Channel.update_sameObject _ _ _).events]
  ext i hi
  simp only [BitVec.getElem_and, BitVec.getElem_or]
  grind

theorem Reads.runHandler (h : Reads c) {r : ReadResult} {w : WriteResult} {k : Handler}
    (hk : k.closes r = false) : Reads (runHandler { read := r, write := w } c k) := by
  rcases runHandler_not_closing (w := w) hk c with he | ⟨b, es, he⟩
  · exact he ▸ stable_reads.handleWrite w h
  · exact he ▸ h

/-! ## Writing -/

theorem Coupled.shutdownInLoop (h : Coupled c) : Coupled c.shutdownInLoop := by
  unfold TcpConnection.shutdownInLoop
  split
  · exact h
  · exact h

theorem Coupled.finishDrain (h : Coupled c) : Coupled c.finishDrain := by
  unfold TcpConnection.finishDrain
  split
  · exact h.shutdownInLoop
  · exact h

theorem Coupled.handleWrite (h : Coupled c) (w : WriteResult) : Coupled (c.handleWrite w) := by
  unfold TcpConnection.handleWrite
  split
  · exact (h.writeOut w).finishDrain
  · exact h.writeOut w

theorem Coupled.userCall (h : Coupled c) (u : UserCall) : Coupled (c.userCall u) := by
  rcases userCall_cases c u with ⟨-, data, w, he⟩ | ⟨-, he⟩ | ⟨b, he⟩
  · exact he ▸ h.sendInLoop data w
  · exact he ▸ Coupled.shutdownInLoop h
  · exact he ▸ h

theorem Coupled.runHandler (h : Coupled c) {r : ReadResult} {w : WriteResult} {k : Handler}
    (hk : k.closes r = false) : Coupled (runHandler { read := r, write := w } c k) := by
  rcases runHandler_not_closing (w := w) hk c with he | ⟨b, es, he⟩
  · exact he ▸ h.handleWrite w
  · exact he ▸ h

/-- Registered in the kernel with the read events, and with the write event exactly
while bytes wait. -/
def InterestFits (c : TcpConnection) : Prop :=
  ∃ mask, c.poller.interest c.channel_.fd_ = some (mask, c.channel_.addr) ∧
    (mask.has EPOLLOUT = true ↔ c.outputBuffer_ ≠ []) ∧
    mask &&& Channel.kReadEvent = Channel.kReadEvent

theorem interestFits (ho : Open c) (hc : Coupled c) (hr : Reads c) : InterestFits c :=
  ⟨c.channel_.events_, ho.watched.interest, hc, hr⟩

end TcpConnection

namespace ThreadedConnection

open TcpConnection (Open Coupled Reads InterestFits)

variable {Tid : Type*} {s t : ThreadedConnection Tid} {l : ConnLabel Tid}

/-- The step runs neither `handleClose` nor `connectDestroyed`. -/
def BeforeClose (s : ThreadedConnection Tid) : ConnLabel Tid → Prop
  | .handler r _ => ∀ k ∈ s.todo.head?, k.closes r = false
  | .runFunctor _ => s.queue.functors.head? ≠ some .connectDestroyed
  | .destroy => False
  | _ => True

/-- Open on all four layers: buffer, mask, index and kernel. -/
structure Established (s : ThreadedConnection Tid) : Prop where
  isOpen : Open s.conn
  coupled : Coupled s.conn
  reads : Reads s.conn
  notDestroying : s.destroying = false

theorem Established.of_conn (h : Established s) (hc : t.conn = s.conn)
    (hd : t.destroying = s.destroying) : Established t :=
  ⟨hc ▸ h.isOpen, hc ▸ h.coupled, hc ▸ h.reads, hd ▸ h.notDestroying⟩

variable [DecidableEq Tid]

theorem Established.step (h : Established s) (hok : BeforeClose s l) (hst : s.step l = some t) :
    Established t := by
  obtain ⟨ho, hc, hr, hd⟩ := h
  cases (step_cases hst).2 with
  | store => exact ⟨TcpConnection.Open.mk (.inr rfl) ho.watched ho.reading ho.running, hc, hr, hd⟩
  | sendInLoop =>
    exact ⟨TcpConnection.stable_open.sendInLoop _ _ ho, hc.sendInLoop _ _,
      TcpConnection.stable_reads.sendInLoop _ _ hr, hd⟩
  | shutdownInLoop =>
    exact ⟨TcpConnection.stable_open.shutdownInLoop ho, hc.shutdownInLoop,
      TcpConnection.stable_reads.shutdownInLoop hr, hd⟩
  | connectDestroyed _ hn => exact absurd (by simp [(FunctorQueue.next_eq_some hn).1]) hok
  | @handler r w k ks htodo =>
    have hk : k.closes r = false := hok k (by simp [htodo])
    exact ⟨ho.runHandler_open hk, hc.runHandler hk, hr.runHandler hk, hd⟩
  | userCall u =>
    obtain ⟨_, _, _, _, he⟩ := s.userCall_eq u
    rw [he]
    exact ⟨TcpConnection.stable_open.userCall u ho, hc.userCall u,
      TcpConnection.stable_reads.userCall u hr, hd⟩
  | destroy => exact absurd hok id
  | destroyRest hdes => simp [hd] at hdes
  | _ => exact Established.of_conn ⟨ho, hc, hr, hd⟩ rfl rfl

/-- Pending output never waits unwatched, and a drained connection is not woken up for
writing. -/
theorem interest_fits_output (h : (machine Tid).Reach BeforeClose s) : InterestFits s.conn := by
  have hinv : Established s := by
    refine h.invariant (I := Established) ?_ ?_
    · rintro s ⟨c, hc, rfl⟩
      exact ⟨hc.connectEstablished [], TcpConnection.coupled_connectEstablished hc,
        TcpConnection.reads_connectEstablished c [], rfl⟩
    · intro s l t hs hok hst
      exact hs.step hok hst
  exact TcpConnection.interestFits hinv.isOpen hinv.coupled hinv.reads

/-- A partial write leaves two bytes behind, the connection is half-closed, an event of
the peer drains one byte and a `connectDestroyed` is queued but not run. -/
theorem interest_fits_output_partial :
    ∃ s : ThreadedConnection Nat, (machine Nat).Reach BeforeClose s ∧
      s.conn.outputBuffer_ = [3] ∧ InterestFits s.conn := by
  have h₀ : (machine Nat).Reach BeforeClose
      { conn := (TcpConnection.new 1 5).connectEstablished [] } :=
    .init ⟨_, TcpConnection.fresh_new 1 5, rfl⟩
  have h₁ := h₀.step (.userCall (.send [1, 2, 3] (.wrote 1))) (by trivial) rfl
  have h₂ := h₁.step (.userCall .shutdown) (by trivial) rfl
  have h₃ := h₂.step .pushDestroy (by trivial) rfl
  have h₄ := h₃.step (.dispatch EPOLLOUT) (by trivial) rfl
  have hwrite : ∀ k ∈ (TcpConnection.handlers EPOLLOUT).head?, k.closes (.error EAGAIN) = false := by
    decide
  have h₅ := h₄.step (.handler (.error EAGAIN) (.wrote 1)) (by exact hwrite) rfl
  exact ⟨_, h₅, rfl, interest_fits_output h₅⟩

end ThreadedConnection

end Muduo
