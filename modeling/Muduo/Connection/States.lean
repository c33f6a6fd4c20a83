import Muduo.Connection.HalfClose

/-!
# The course of `state_`

From construction on, `state_` is stored to by `connectEstablished`, `handleClose` and
`connectDestroyed` on the loop thread and by `shutdown` on any thread. Every store is
unconditional, and `shutdown` tests in a step of its own before. So its store may come
after `handleClose`, and it then takes the connection from `kDisconnected` back to
`kDisconnecting`. No other store ever goes back.
-/

namespace Muduo

/-- The place of a state in the life of a connection. -/
def StateE.rank : StateE → Nat
  | .kConnecting => 0
  | .kConnected => 1
  | .kDisconnecting => 2
  | .kDisconnected => 3

theorem StateE.rank_le (st : StateE) : st.rank ≤ 3 := by cases st <;> decide

theorem StateE.rank_le_of_ne {st : StateE} (h : st ≠ .kDisconnected) : st.rank ≤ 2 := by
  cases st <;> simp_all [rank]

/-- Each value is no earlier in the order than the one before. -/
def OnlyForward (trace : List StateE) : Prop := trace.Pairwise fun a b => a.rank ≤ b.rank

namespace TcpConnection

variable {c : TcpConnection}

theorem state_shutdownInLoop (c : TcpConnection) : c.shutdownInLoop.state_ = c.state_ := by
  unfold shutdownInLoop
  split <;> rfl

theorem state_handleWrite (c : TcpConnection) (w : WriteResult) :
    (c.handleWrite w).state_ = c.state_ := by
  unfold handleWrite finishDrain
  split_ifs
  · rw [state_shutdownInLoop, state_writeOut]
  · exact state_writeOut c w
  · exact state_writeOut c w

theorem state_runHandler {r : ReadResult} {w : WriteResult} {k : Handler} :
    (runHandler { read := r, write := w } c k).state_ = c.state_ ∨
      (runHandler { read := r, write := w } c k).state_ = .kDisconnected := by
  cases hk : k.closes r with
  | true => exact .inr (by rw [runHandler_closing hk]; rfl)
  | false =>
    rcases runHandler_not_closing (w := w) hk c with he | ⟨b, es, he⟩
    · exact .inl (by rw [he, state_handleWrite])
    · exact .inl (by rw [he])

/-- A user's call stores `kDisconnecting` over `kConnected` or nothing. -/
theorem state_userCall (c : TcpConnection) (u : UserCall) :
    (c.userCall u).state_ = c.state_ ∨
      (c.state_ = .kConnected ∧ (c.userCall u).state_ = .kDisconnecting) := by
  rcases userCall_cases c u with ⟨-, data, w, he⟩ | ⟨hs, he⟩ | ⟨b, he⟩
  · exact .inl (he ▸ (stableSending_state c.state_).sendInLoop data w rfl)
  · exact .inr ⟨hs, by rw [he, state_shutdownInLoop, state_setState]⟩
  · exact .inl (by rw [he])

end TcpConnection

namespace ThreadedConnection

variable {Tid : Type*} {s t : ThreadedConnection Tid} {l : ConnLabel Tid}

theorem state_destroyTest (s : ThreadedConnection Tid) :
    s.destroyTest.conn.state_ = s.conn.state_ := by
  unfold destroyTest
  split
  · rfl
  · exact (TcpConnection.removeChannel_rest _).1

variable [DecidableEq Tid]

/-- What a step can do to `state_`. -/
theorem state_of_step (h : s.step l = some t) :
    t.conn.state_ = s.conn.state_ ∨
      (s.conn.state_ = .kConnected ∧ t.conn.state_ = .kDisconnecting) ∨
      t.conn.state_ = .kDisconnected ∨
      ∃ u, l = .store u ∧ t.conn.state_ = .kDisconnecting := by
  cases (step_cases h).2 with
  | @store u => exact .inr (.inr (.inr ⟨u, rfl, rfl⟩))
  | sendInLoop => exact .inl ((TcpConnection.stableSending_state _).sendInLoop _ _ rfl)
  | shutdownInLoop => exact .inl (TcpConnection.state_shutdownInLoop _)
  | connectDestroyed => exact .inl (state_destroyTest _)
  | handler => exact TcpConnection.state_runHandler.imp_right fun h => .inr (.inl h)
  | userCall u =>
    obtain ⟨_, _, _, _, he⟩ := s.userCall_eq u
    rw [he]
    exact (TcpConnection.state_userCall s.conn u).imp_right .inl
  | destroy => exact .inl (state_destroyTest _)
  | @destroyRest calls c _ hc =>
    subst hc
    obtain ⟨b, hb⟩ := TcpConnection.userCalls_of_disconnected (c := s.conn.disconnect) rfl calls
    refine .inr (.inr (.inl ?_))
    rw [(TcpConnection.removeChannel_rest _).1, hb]
    rfl
  | _ => exact .inl rfl

/-- Only a store of `shutdown` that finds `kDisconnected` goes back. -/
theorem rank_of_step (h : s.step l = some t)
    (hok : ∀ u, l = .store u → s.conn.state_ ≠ .kDisconnected) :
    s.conn.state_.rank ≤ t.conn.state_.rank := by
  rcases state_of_step h with he | ⟨hs, ht⟩ | ht | ⟨u, hl, ht⟩
  · rw [he]
  · rw [hs, ht]
    decide
  · rw [ht]
    exact StateE.rank_le _
  · rw [ht]
    exact StateE.rank_le_of_ne (hok u hl)

end ThreadedConnection

/-! ## From construction on -/

/-- Steps of the loop thread, which follow `connectEstablished` in its functor queue. -/
def ConnLabel.onLoop {Tid : Type*} : ConnLabel Tid → Bool
  | .send .. | .pushSend _ | .shutdown _ | .store _ | .pushShutdown _ | .pushDestroy => false
  | .swap | .runFunctor _ | .dispatch _ | .handler .. | .userCall _ | .destroy | .destroyRest _ =>
    true

/-- A connection since its construction, with every value `state_` has had. -/
structure Lifetime (Tid : Type*) where
  base : ThreadedConnection Tid
  established : Bool := false
  trace : List StateE := [.kConnecting]

inductive LifeLabel (Tid : Type*) where
  | connectEstablished
  | other (l : ConnLabel Tid)
  deriving Repr

namespace Lifetime

variable {Tid : Type*} [DecidableEq Tid]

/-- The state after a step of the connection, with the new value of `state_` noted. -/
def record (s : Lifetime Tid) (base : ThreadedConnection Tid) : Lifetime Tid :=
  { s with base := base, trace := s.trace ++ [base.conn.state_] }

def step (s : Lifetime Tid) : LifeLabel Tid → Option (Lifetime Tid)
  | .connectEstablished =>
    if s.established = false then
      some { s.record { s.base with conn := s.base.conn.connectEstablished [] } with
        established := true }
    else none
  | .other l =>
    if l.onLoop = true ∧ s.established = false then none else (s.base.step l).map s.record

/-- A connection as constructed, known to other threads or not. -/
def machine (Tid : Type*) [DecidableEq Tid] : Machine (Lifetime Tid) (LifeLabel Tid) where
  init s := ∃ c, TcpConnection.Fresh c ∧ s = { base := { conn := c } }
  step := step

/-- `shutdown` does not store over `kDisconnected`. -/
def StoresInTime (s : Lifetime Tid) : LifeLabel Tid → Prop
  | .other (.store _) => s.base.conn.state_ ≠ .kDisconnected
  | _ => True

/-- So far `state_` has only moved forward, and it is `kConnecting` until the connection
is established. -/
structure Forward (s : Lifetime Tid) : Prop where
  ordered : OnlyForward s.trace
  bound : ∀ st ∈ s.trace, st.rank ≤ s.base.conn.state_.rank
  last : s.base.conn.state_ ∈ s.trace
  early : s.established = false →
    s.base.conn.state_ = .kConnecting ∧ ∀ u, s.base.caller u ≠ .storing

variable {s t : Lifetime Tid} {l : LifeLabel Tid}

theorem step_trace (h : s.step l = some t) : t.trace = s.trace ++ [t.base.conn.state_] := by
  cases l with
  | connectEstablished =>
    simp only [step, Option.ite_none_right_eq_some, Option.some.injEq] at h
    rw [← h.2]
    rfl
  | other l =>
    simp only [step, Option.ite_none_left_eq_some, Option.map_eq_some_iff] at h
    obtain ⟨-, b, -, rfl⟩ := h
    rfl

theorem onlyForward_concat {trace : List StateE} {st : StateE} (h : OnlyForward trace)
    (hb : ∀ x ∈ trace, x.rank ≤ st.rank) : OnlyForward (trace ++ [st]) :=
  List.pairwise_append.mpr ⟨h, List.pairwise_singleton _ _, fun x hx y hy => by
    rw [List.mem_singleton.mp hy]
    exact hb x hx⟩

/-- The trace stays in order when the new value is no earlier than the old. -/
theorem Forward.extend (h : Forward s) (hst : s.step l = some t)
    (hr : s.base.conn.state_.rank ≤ t.base.conn.state_.rank)
    (he : t.established = false →
      t.base.conn.state_ = .kConnecting ∧ ∀ u, t.base.caller u ≠ .storing) : Forward t := by
  have htr := step_trace hst
  have hb : ∀ st ∈ s.trace, st.rank ≤ t.base.conn.state_.rank := by
    intro st hm
    exact (h.bound st hm).trans hr
  refine ⟨htr ▸ onlyForward_concat h.ordered hb, ?_, htr ▸ by simp, he⟩
  intro st hm
  rw [htr] at hm
  rcases List.mem_append.mp hm with hm | hm
  · exact hb st hm
  · rw [List.mem_singleton.mp hm]

/-- Before the connection is established, other threads change nothing that matters. -/
theorem early_of_step {b b' : ThreadedConnection Tid} {l : ConnLabel Tid} (hst : b.step l = some b')
    (hl : l.onLoop = false) (hs : b.conn.state_ = .kConnecting) (hc : ∀ u, b.caller u ≠ .storing) :
    b'.conn.state_ = .kConnecting ∧ ∀ u, b'.caller u ≠ .storing := by
  have hset : ∀ (v : Tid) (pc : CallerPc), pc ≠ .storing →
      ∀ u, (b.setCaller v pc).caller u ≠ .storing := by
    intro v pc hpc u
    by_cases hu : u = v
    · simp [ThreadedConnection.setCaller, hu, hpc]
    · simpa [ThreadedConnection.setCaller, hu] using hc u
  cases (ThreadedConnection.step_cases hst).2 with
  | send _ hcon => simp [hs] at hcon
  | sendRefused | shutdownRefused => exact ⟨hs, hc⟩
  | shutdown _ hcon => simp [hs] at hcon
  | store hu => exact absurd hu (hc _)
  | pushSend => exact ⟨hs, hset _ _ (by simp)⟩
  | pushShutdown => exact ⟨hs, hset _ _ (by simp)⟩
  | pushDestroy => exact ⟨hs, hc⟩
  | _ => simp [ConnLabel.onLoop] at hl

theorem Forward.step (h : Forward s) (hok : StoresInTime s l) (hst : s.step l = some t) :
    Forward t := by
  cases l with
  | connectEstablished =>
    have hst' := hst
    simp only [Lifetime.step, Option.ite_none_right_eq_some, Option.some.injEq] at hst'
    obtain ⟨hn, rfl⟩ := hst'
    refine h.extend hst ?_ (fun he => by simp at he)
    rw [(h.early hn).1]
    exact Nat.zero_le _
  | other l =>
    have hst' := hst
    simp only [Lifetime.step, Option.ite_none_left_eq_some, Option.map_eq_some_iff] at hst'
    obtain ⟨hl, b, hb, rfl⟩ := hst'
    refine h.extend hst (ThreadedConnection.rank_of_step hb ?_) ?_
    · rintro u rfl
      exact hok
    · intro he
      have hoff : l.onLoop = false := by
        by_contra hon
        exact hl ⟨by simpa using hon, he⟩
      exact early_of_step hb hoff (h.early he).1 (h.early he).2

omit [DecidableEq Tid] in
theorem forward_init {c : TcpConnection} (hc : TcpConnection.Fresh c) :
    Forward ({ base := { conn := c } } : Lifetime Tid) := by
  refine ⟨List.pairwise_singleton _ _, ?_, ?_, fun _ => ⟨hc.state, by simp⟩⟩
  · simp [hc.state]
  · simp [hc.state]

/-- A late store takes the state back. -/
theorem not_forward_of_late (h : Forward s) (hok : ¬ StoresInTime s l) (hst : s.step l = some t) :
    ¬ OnlyForward t.trace := by
  cases l with
  | connectEstablished => exact absurd trivial hok
  | other l =>
    cases l with
    | store u =>
      have hd : s.base.conn.state_ = .kDisconnected := not_not.mp hok
      have ht : t.base.conn.state_ = .kDisconnecting := by
        simp only [Lifetime.step, Option.ite_none_left_eq_some, Option.map_eq_some_iff] at hst
        obtain ⟨-, b, hb, rfl⟩ := hst
        cases (ThreadedConnection.step_cases hb).2 with
        | store => rfl
      rw [step_trace hst, ht]
      intro hf
      have hle := (List.pairwise_append.mp hf).2.2 _ (hd ▸ h.last) _ (List.mem_singleton_self _)
      simp [StateE.rank] at hle
    | _ => exact absurd trivial hok

/-- `state_` only moves forward, and never leaves `kDisconnected`, exactly in the runs in
which no `shutdown` stores over `kDisconnected`. -/
theorem only_forward_iff {c : TcpConnection} {ls : List (LifeLabel Tid)}
    (hc : TcpConnection.Fresh c)
    (hrun : (machine Tid).run { base := { conn := c } } ls = some t) :
    OnlyForward t.trace ↔ (machine Tid).Along StoresInTime { base := { conn := c } } ls := by
  refine Machine.run_iff_along (J := Forward) (P := fun s => OnlyForward s.trace)
    (Q := fun s => ¬ OnlyForward s.trace) ?_ ?_ ?_ (fun _ h => h.ordered) (fun _ h => h)
    (forward_init hc) hrun
  · intro s l t h hok hst
    exact h.step hok hst
  · intro s l t h hok hst
    exact not_forward_of_late h hok hst
  · intro s l t h hst hf
    rw [step_trace hst] at hf
    exact h (List.pairwise_append.mp hf).1

/-- Half-closed by another thread and then closed by the peer. -/
theorem only_forward_iff_half_closed :
    ∃ t, (machine Nat).run { base := { conn := TcpConnection.new 1 5 } }
        [.connectEstablished, .other (.shutdown 1), .other (.store 1), .other (.pushShutdown 1),
          .other (.dispatch EPOLLHUP), .other (.handler (.error EAGAIN) (.error EAGAIN))] = some t ∧
      (OnlyForward t.trace ↔
        (machine Nat).Along StoresInTime { base := { conn := TcpConnection.new 1 5 } }
          [.connectEstablished, .other (.shutdown 1), .other (.store 1), .other (.pushShutdown 1),
            .other (.dispatch EPOLLHUP),
            .other (.handler (.error EAGAIN) (.error EAGAIN))]) :=
  ⟨_, rfl, only_forward_iff (TcpConnection.fresh_new 1 5) rfl⟩

/-- The peer closes between the test and the store of another thread's `shutdown`. -/
theorem kDisconnected_left :
    ∃ t, (machine Nat).run { base := { conn := TcpConnection.new 1 5 } }
        [.connectEstablished, .other (.shutdown 1), .other (.dispatch EPOLLHUP),
          .other (.handler (.error EAGAIN) (.error EAGAIN)), .other (.store 1)] = some t ∧
      t.trace = [.kConnecting, .kConnected, .kConnected, .kConnected, .kDisconnected,
        .kDisconnecting] ∧
      ¬ OnlyForward t.trace := by
  have hback : ¬ OnlyForward [.kConnecting, .kConnected, .kConnected, .kConnected, .kDisconnected,
      .kDisconnecting] := by simp [OnlyForward, StateE.rank]
  exact ⟨_, rfl, rfl, hback⟩

end Lifetime

end Muduo
