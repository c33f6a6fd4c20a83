import Muduo.Connection.HalfClose

/-!
# A shutdown is not forgotten

`shutdown` stores `kDisconnecting` and leaves the half-close to `shutdownInLoop`. When
that functor finds write events awaited it does nothing, and `handleWrite` half-closes
once it has drained the buffer. So as long as a connection is `kDisconnecting`, either
the socket has been half-closed, or the functor is still to come, or write events are
awaited; and they are awaited only while bytes wait in the buffer.
-/

namespace Muduo

namespace TcpConnection

variable {c : TcpConnection}

/-- Write events are awaited only while bytes wait. This survives closing as well. -/
def Drained (c : TcpConnection) : Prop :=
  c.channel_.isWriting = true → c.outputBuffer_ ≠ []

/-- `::shutdown(SHUT_WR)` has been issued. -/
def Issued (c : TcpConnection) : Prop := .shutdownWrite ∈ c.effects

/-- If a half-close is due, it has been issued or follows when the buffer is drained. -/
def Promised (c : TcpConnection) : Prop :=
  c.state_ = .kDisconnecting → Issued c ∨ c.channel_.isWriting = true

/-! ## Nothing is written for an empty buffer -/

theorem Drained.sendInLoop (h : Drained c) (data : List UInt8) (w : WriteResult) :
    Drained (c.sendInLoop data w) := by
  unfold TcpConnection.sendInLoop
  split_ifs with hs
  · exact h
  · obtain ⟨n, -, ho, hn, hr, -⟩ := writeDirect_progress c data w
    have hlen : (c.writeDirect data w).2.remaining ≤
        (data.drop (c.writeDirect data w).2.nwrote).length := by rw [hn, hr, List.length_drop]
    rcases bufferRest_cases _ data _ hlen with he | ⟨-, hne⟩
    · rwa [he, Drained, channel_writeDirect, ho]
    · exact fun _ => hne

theorem Drained.shutdownInLoop (h : Drained c) : Drained c.shutdownInLoop := by
  unfold TcpConnection.shutdownInLoop
  split
  · exact h
  · exact h

theorem Drained.handleWrite (h : Drained c) (w : WriteResult) : Drained (c.handleWrite w) := by
  unfold TcpConnection.handleWrite
  split_ifs with hd
  · have hq : Drained (c.writeOut w).1 := by
      intro hw
      simp [(writeOut_drained hd).1] at hw
    unfold finishDrain
    split
    · exact hq.shutdownInLoop
    · exact hq
  · obtain ⟨hch, ho⟩ := writeOut_kept (by simpa using hd)
    rwa [Drained, hch, ho]

theorem drained_disconnect (c : TcpConnection) : Drained c.disconnect := by
  have hn : c.disconnect.channel_.isNoneEvent = true := by
    simp [disconnect, onChannel, Channel.isNoneEvent]
  intro hw
  simp [isWriting_of_isNoneEvent hn] at hw

theorem Drained.removeChannel (h : Drained c) : Drained c.removeChannel := by
  rwa [Drained, Channel.isWriting, removeChannel_events, (removeChannel_rest c).2.1]

theorem Drained.userCall (h : Drained c) (u : UserCall) : Drained (c.userCall u) := by
  rcases userCall_cases c u with ⟨-, data, w, he⟩ | ⟨-, he⟩ | ⟨b, he⟩
  · exact he ▸ h.sendInLoop data w
  · exact he ▸ Drained.shutdownInLoop h
  · exact he ▸ h

theorem Drained.userCalls (h : Drained c) (calls : List UserCall) : Drained (c.userCalls calls) := by
  induction calls generalizing c with
  | nil => exact h
  | cons u us ih => exact ih (h.userCall u)

theorem Drained.runHandler (h : Drained c) (r : ReadResult) (w : WriteResult) (k : Handler) :
    Drained (runHandler { read := r, write := w } c k) := by
  cases hk : k.closes r with
  | true => exact runHandler_closing (w := w) hk c ▸ drained_disconnect c
  | false =>
    rcases runHandler_not_closing (w := w) hk c with he | ⟨b, es, he⟩
    · exact he ▸ h.handleWrite w
    · exact he ▸ h

/-! ## A half-close that is due -/

theorem stable_issued : Stable Issued where
  emit := fun _ _ _ h => List.mem_append_left _ h
  input := fun _ _ h => h
  output := fun _ _ h => h
  enableWriting := fun _ h => h
  disableWriting := fun _ h => h
  disconnecting := fun _ _ h => h

/-- `shutdownInLoop` half-closes, or leaves it to the drain of the buffer. -/
theorem promised_shutdownInLoop (c : TcpConnection) : Promised c.shutdownInLoop := by
  intro _
  unfold shutdownInLoop
  split_ifs with hw
  · exact .inr hw
  · exact .inl (by simp [Issued])

theorem promised_of_state (h : c.state_ ≠ .kDisconnecting) : Promised c := by
  intro hs
  exact absurd hs h

theorem Promised.sendInLoop (h : Promised c) (data : List UInt8) (w : WriteResult) :
    Promised (c.sendInLoop data w) := by
  intro hs
  have hstate : (c.sendInLoop data w).state_ = c.state_ :=
    (stableSending_state c.state_).sendInLoop data w rfl
  rcases h (hstate ▸ hs) with hi | hw
  · exact .inl (stable_issued.sendInLoop data w hi)
  · refine .inr ?_
    unfold TcpConnection.sendInLoop
    split_ifs with hd
    · exact hw
    · obtain ⟨n, -, -, hn, hr, -⟩ := writeDirect_progress c data w
      have hlen : (c.writeDirect data w).2.remaining ≤
          (data.drop (c.writeDirect data w).2.nwrote).length := by rw [hn, hr, List.length_drop]
      rcases bufferRest_cases _ data _ hlen with he | ⟨hw', -⟩
      · rwa [he, channel_writeDirect]
      · exact hw'

theorem Promised.handleWrite (h : Promised c) (w : WriteResult) : Promised (c.handleWrite w) := by
  have hstate := state_writeOut c w
  unfold TcpConnection.handleWrite
  split_ifs with hd
  · -- the drain is where the other half of the half-close happens
    unfold finishDrain
    split_ifs with hs
    · exact promised_shutdownInLoop _
    · exact promised_of_state hs
  · intro hs
    rw [(writeOut_kept (by simpa using hd)).1]
    exact (h (hstate ▸ hs)).imp_left (stable_issued.sending.writeOut w)

theorem Promised.userCall (h : Promised c) (u : UserCall) : Promised (c.userCall u) := by
  rcases userCall_cases c u with ⟨-, data, w, he⟩ | ⟨-, he⟩ | ⟨b, he⟩
  · exact he ▸ h.sendInLoop data w
  · exact he ▸ promised_shutdownInLoop _
  · exact he ▸ h

theorem promised_disconnected (hs : c.state_ = .kDisconnected) (calls : List UserCall) :
    Promised (c.userCalls calls) := by
  obtain ⟨b, hb⟩ := userCalls_of_disconnected hs calls
  rw [hb]
  exact promised_of_state (by simp [hs])

theorem Promised.removeChannel (h : Promised c) : Promised c.removeChannel := by
  obtain ⟨hs, -, he⟩ := removeChannel_rest c
  rwa [Promised, Issued, Channel.isWriting, removeChannel_events, hs, he]

theorem Promised.runHandler (h : Promised c) (r : ReadResult) (w : WriteResult) (k : Handler) :
    Promised (runHandler { read := r, write := w } c k) := by
  cases hk : k.closes r with
  | true =>
    rw [runHandler_closing hk]
    exact promised_of_state (by simp [disconnect])
  | false =>
    rcases runHandler_not_closing (w := w) hk c with he | ⟨b, es, he⟩
    · exact he ▸ h.handleWrite w
    · rw [he]
      exact fun hs => (h hs).imp_left (List.mem_append_left _)

end TcpConnection

namespace ThreadedConnection

open TcpConnection (Drained Promised)

variable {Tid : Type*} {s t : ThreadedConnection Tid} {l : ConnLabel Tid}

/-- A call of `shutdown` has stored `kDisconnecting`, and its functor has not run. -/
def ShutdownUnderWay (s : ThreadedConnection Tid) : Prop :=
  (∃ u, s.caller u = .queueing) ∨ .shutdownInLoop ∈ s.queue.all

/-- The half-close is under way, or the connection owes it nothing any more. -/
structure Remembered (s : ThreadedConnection Tid) : Prop where
  drained : Drained s.conn
  due : ShutdownUnderWay s ∨ Promised s.conn

theorem Remembered.of_eq (h : Remembered s) (hc : t.conn = s.conn)
    (hu : ShutdownUnderWay s → ShutdownUnderWay t) : Remembered t :=
  ⟨hc ▸ h.drained, hc ▸ h.due.imp_left hu⟩

/-- A step of the loop thread that leaves callers and functors alone. -/
theorem Remembered.of_conn (h : Remembered s) (hd : Drained t.conn)
    (hp : Promised s.conn → Promised t.conn) (hu : ShutdownUnderWay s → ShutdownUnderWay t) :
    Remembered t :=
  ⟨hd, h.due.imp hu hp⟩

/-- Only the run of `shutdownInLoop` takes it out of the queue. -/
theorem ShutdownUnderWay.of_next {f : ConnFunctor} {q : FunctorQueue ConnFunctor}
    (h : ShutdownUnderWay s) (hn : s.queue.next = some (f, q)) (hf : f ≠ .shutdownInLoop)
    (hq : t.queue = q) (hc : t.caller = s.caller) : ShutdownUnderWay t := by
  rcases h with ⟨u, h⟩ | h
  · exact .inl ⟨u, hc ▸ h⟩
  · rw [FunctorQueue.all_next hn] at h
    exact .inr (hq ▸ (List.mem_cons.mp h).resolve_left (Ne.symm hf))

theorem Remembered.destroyTest (h : Remembered s) : Remembered s.destroyTest := by
  have hu : ShutdownUnderWay s → ShutdownUnderWay s.destroyTest := by
    simp [ShutdownUnderWay]
  have hc : s.destroyTest.conn = s.conn ∨ s.destroyTest.conn = s.conn.removeChannel := by
    unfold ThreadedConnection.destroyTest
    split
    · exact .inl rfl
    · exact .inr rfl
  rcases hc with hc | hc
  · exact h.of_eq hc hu
  · exact h.of_conn (hc ▸ h.drained.removeChannel) (fun hp => hc ▸ hp.removeChannel) hu

variable [DecidableEq Tid]

theorem queueing_setCaller {u v : Tid} {pc : CallerPc} (h : s.caller v = .queueing)
    (hu : s.caller u ≠ .queueing) : (s.setCaller u pc).caller v = .queueing := by
  have hv : v ≠ u := by
    rintro rfl
    exact hu h
  simpa [setCaller, hv] using h

/-- A caller that is not about to queue the functor moves. -/
theorem ShutdownUnderWay.setCaller {u : Tid} {pc : CallerPc} (h : ShutdownUnderWay s)
    (hu : s.caller u ≠ .queueing) : ShutdownUnderWay (s.setCaller u pc) :=
  h.imp_left fun ⟨v, hv⟩ => ⟨v, queueing_setCaller hv hu⟩

theorem Remembered.step (h : Remembered s) (hst : s.step l = some t) : Remembered t := by
  cases (step_cases hst).2 with
  | send hc => exact h.of_eq rfl fun hu => hu.setCaller (by simp [hc])
  | @pushSend u x hc =>
    refine h.of_eq rfl fun hu => ?_
    have hidle : ShutdownUnderWay (s.setCaller u .idle) := hu.setCaller (by simp [hc])
    refine hidle.imp_right fun hm => ?_
    simpa using (show .shutdownInLoop ∈ s.queue.all from hm)
  | shutdown hc => exact h.of_eq rfl fun hu => hu.setCaller (by simp [hc])
  | @store u => exact ⟨h.drained, .inl (.inl ⟨u, by simp [setCaller]⟩)⟩
  | pushShutdown => exact ⟨h.drained, .inl (.inr (by simp))⟩
  | pushDestroy => exact h.of_eq rfl fun hu => hu.imp_right fun hm => by simpa using hm
  | swap _ hf => exact h.of_eq rfl fun hu => hu.imp_right fun hm => by rwa [s.queue.all_swap hf]
  | sendInLoop _ hn =>
    exact h.of_conn (h.drained.sendInLoop _ _) (fun hp => hp.sendInLoop _ _)
      fun hu => hu.of_next hn (by simp) rfl rfl
  | shutdownInLoop =>
    exact ⟨h.drained.shutdownInLoop, .inr (TcpConnection.promised_shutdownInLoop _)⟩
  | connectDestroyed _ hn =>
    refine Remembered.destroyTest (h.of_eq rfl fun hu => ?_)
    exact hu.of_next hn (by simp) rfl rfl
  | @handler r w k => exact h.of_conn (h.drained.runHandler r w k) (fun hp => hp.runHandler r w k) id
  | userCall u =>
    obtain ⟨_, _, _, _, he⟩ := s.userCall_eq u
    rw [he]
    exact h.of_conn (h.drained.userCall u) (fun hp => hp.userCall u) id
  | destroy => exact Remembered.destroyTest (h.of_eq rfl id)
  | @destroyRest calls c _ hc =>
    subst hc
    refine ⟨((TcpConnection.drained_disconnect s.conn).userCalls calls).removeChannel, .inr ?_⟩
    exact (TcpConnection.promised_disconnected rfl calls).removeChannel
  | _ => exact h.of_eq rfl id

/-- Where the connection is half-closed as far as its state goes, nothing is buffered and no
call of `shutdown` is under way, the socket has been half-closed. -/
theorem shutdown_issued (h : (machine Tid).Reachable s) (hs : s.conn.state_ = .kDisconnecting)
    (ho : s.conn.outputBuffer_ = []) (hq : .shutdownInLoop ∉ s.queue.all)
    (hc : ∀ u, s.caller u ≠ .queueing) : .shutdownWrite ∈ s.conn.effects := by
  have hinv : Remembered s := by
    refine h.invariant (I := Remembered) ?_ ?_
    · rintro s ⟨c, hc, rfl⟩
      have hs : (c.connectEstablished []).state_ ≠ .kDisconnecting := by
        simp [TcpConnection.connectEstablished, TcpConnection.userCalls]
      exact ⟨(TcpConnection.coupled_connectEstablished hc).mp,
        .inr (TcpConnection.promised_of_state hs)⟩
    · intro s l t hr _ hst
      exact hr.step hst
  have hnone : ¬ ShutdownUnderWay s := by
    rintro (⟨u, hu⟩ | hm)
    · exact hc u hu
    · exact hq hm
  rcases hinv.due.resolve_left hnone hs with hi | hw
  · exact hi
  · exact absurd ho (hinv.drained hw)

/-- The functor of a `shutdown` finds a byte buffered, and the drain half-closes instead. -/
theorem shutdown_issued_after_drain :
    ∃ s : ThreadedConnection Nat, (machine Nat).Reachable s ∧
      (s.conn.state_ = .kDisconnecting ∧ s.conn.outputBuffer_ = [] ∧
        .shutdownInLoop ∉ s.queue.all ∧ ∀ u, s.caller u ≠ .queueing) ∧
      .shutdownWrite ∈ s.conn.effects := by
  have h₀ : (machine Nat).Reachable { conn := (TcpConnection.new 1 5).connectEstablished [] } :=
    .init ⟨_, TcpConnection.fresh_new 1 5, rfl⟩
  have h₁ := h₀.step (.userCall (.send [1, 2] (.wrote 1))) trivial rfl
  have h₂ := h₁.step (.shutdown 7) trivial rfl
  have h₃ := h₂.step (.store 7) trivial rfl
  have h₄ := h₃.step (.pushShutdown 7) trivial rfl
  have h₅ := h₄.step .swap trivial rfl
  have h₆ := h₅.step (.runFunctor (.error EAGAIN)) trivial rfl
  have h₇ := h₆.step (.dispatch EPOLLOUT) trivial rfl
  have h₈ := h₇.step (.handler (.error EAGAIN) (.wrote 1)) trivial rfl
  have hq : ConnFunctor.shutdownInLoop ∉ ([] : List ConnFunctor) := by simp
  have hc : ∀ u, (Function.update (Function.update (Function.update (fun _ => CallerPc.idle)
      7 .storing) 7 .queueing) 7 .idle) u ≠ CallerPc.queueing := by
    intro u
    by_cases hu : u = 7
    · simp [hu]
    · simp [hu]
  exact ⟨_, h₈, ⟨rfl, rfl, hq, hc⟩, shutdown_issued h₈ rfl rfl hq hc⟩

end ThreadedConnection

end Muduo
