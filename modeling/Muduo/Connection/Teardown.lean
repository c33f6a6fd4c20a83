import Muduo.Connection.Notifications
import Muduo.Connection.Threads

/-!
# Destroying a connection

`connectDestroyed` disables the channel of a connected connection alone and removes the
channel in any case, so it relies on every other way down having disabled the channel
before. A connection that is half-closed, or whose `state_` another thread sets back to
`kDisconnecting`, breaks this.
-/

namespace Muduo

namespace TcpConnection

/-- Nothing but the input buffer and the list of effects changed. -/
def Mute (c c' : TcpConnection) : Prop :=
  ∃ b es, c' = { c with inputBuffer_ := b, effects := c.effects ++ es }

/-- Told to be down, silent, and known to the poller. After a second `handleClose` the
channel is watched again, with an empty mask. -/
structure Down (c : TcpConnection) : Prop where
  state : c.state_ = .kDisconnected
  silent : c.channel_.isNoneEvent = true
  known : Parked c.poller c.channel_ ∨ Watched c.poller c.channel_
  told : .down ∈ c.notes
  running : c.aborted = none

/-- Told to be down, and unknown to the poller. -/
structure Gone (c : TcpConnection) : Prop where
  state : c.state_ ≠ .kConnected
  silent : c.channel_.isNoneEvent = true
  absent : Absent c.poller c.channel_
  told : .down ∈ c.notes
  running : c.aborted = none

variable {c c' c'' : TcpConnection}

theorem Mute.refl (c : TcpConnection) : Mute c c := ⟨c.inputBuffer_, [], by simp⟩

theorem mute_emit (c : TcpConnection) (e : Effect) : Mute c (c.emit e) :=
  ⟨c.inputBuffer_, [e], rfl⟩

theorem notes_append (c : TcpConnection) (b : List UInt8) (es : List Effect) :
    ({ c with inputBuffer_ := b, effects := c.effects ++ es } : TcpConnection).notes =
      c.notes ++ es.filterMap Effect.note := by
  simp [notes]

theorem Down.mute (h : Down c) (hm : Mute c c') : Down c' := by
  obtain ⟨b, es, rfl⟩ := hm
  refine ⟨h.state, h.silent, h.known, ?_, h.running⟩
  rw [notes_append]
  exact List.mem_append_left _ h.told

theorem Gone.mute (h : Gone c) (hm : Mute c c') : Gone c' := by
  obtain ⟨b, es, rfl⟩ := hm
  refine ⟨h.state, h.silent, h.absent, ?_, h.running⟩
  rw [notes_append]
  exact List.mem_append_left _ h.told

theorem Mute.state (hm : Mute c c') : c'.state_ = c.state_ := by
  obtain ⟨b, es, rfl⟩ := hm
  rfl

/-! ## What a silent channel leaves undone -/

theorem mute_userCall (hs : c.state_ ≠ .kConnected) (u : UserCall) : Mute c (c.userCall u) := by
  obtain ⟨b, hb⟩ := userCall_of_not_connected hs u
  exact ⟨b, [], by simp [hb]⟩

theorem mute_shutdownInLoop (c : TcpConnection) : Mute c c.shutdownInLoop := by
  unfold shutdownInLoop
  split
  · exact .refl c
  · exact mute_emit c _

theorem mute_runHandler (hn : c.channel_.isNoneEvent = true) {h : Handler} {r : ReadResult}
    {w : WriteResult} (hc : h.closes r = false) :
    Mute c (runHandler { read := r, write := w } c h) := by
  rcases runHandler_not_closing (w := w) hc c with he | ⟨b, es, he⟩
  · rw [he, handleWrite_of_not_writing (isWriting_of_isNoneEvent hn)]
    exact .refl c
  · exact ⟨b, es, he⟩

/-! ## The ways down -/

theorem Open.disconnect_down (h : Open c) : Down c.disconnect := by
  obtain ⟨hs, hp, hn, hr⟩ := h.disconnect
  exact ⟨hs, hn, .inl hp, by simp, hr⟩

/-- A second `handleClose` adds a parked channel again, and parks a watched one. -/
theorem Down.disconnect (h : Down c) : Down c.disconnect := by
  refine ⟨rfl, ?_, ?_, by simp, h.running⟩
  · simp [TcpConnection.disconnect, onChannel, Channel.isNoneEvent]
  · rcases h.known with hk | hk
    · exact .inr (Channel.update_parked ⟨hk.index, hk.channels, hk.interest⟩)
    · exact .inl (Channel.disableAll_watched hk)

theorem Down.removeChannel (h : Down c) :
    Gone c.removeChannel ∧ c.removeChannel.state_ = .kDisconnected := by
  obtain ⟨p, ch, hc, habs, hsame⟩ := removeChannel_of_registered h.known h.silent
  rw [hc]
  refine ⟨⟨by simp [h.state], ?_, habs, h.told, h.running⟩, h.state⟩
  simpa [Channel.isNoneEvent, hsame.events] using h.silent

theorem Down.userCalls (h : Down c) (calls : List UserCall) : Down (c.userCalls calls) := by
  obtain ⟨b, hb⟩ := userCalls_of_disconnected h.state calls
  exact h.mute ⟨b, [], by simp [hb]⟩

end TcpConnection

namespace ThreadedConnection

open TcpConnection (Open Down Gone Fresh)

variable {Tid : Type*} {s t : ThreadedConnection Tid} {l : ConnLabel Tid}

/-- `connectDestroyed` does not test `state_` while it is `kDisconnecting`; `shutdown` does
not store over `kDisconnected`, or it comes after everything; and no handler closes the
connection once it is destroyed. -/
def TearsDown (s : ThreadedConnection Tid) : ConnLabel Tid → Prop
  | .runFunctor _ =>
    s.queue.functors.head? = some .connectDestroyed → s.conn.state_ ≠ .kDisconnecting
  | .destroy => s.conn.state_ ≠ .kDisconnecting
  | .store _ => s.conn.state_ ≠ .kDisconnected ∨ (s.destroyed ≠ none ∧ ¬ InFlight s)
  | .handler r _ => s.destroyed ≠ none → ∀ h ∈ s.todo.head?, h.closes r = false
  | _ => True

/-- Where the connection stands on its way down. -/
inductive Phase (s : ThreadedConnection Tid) : Prop where
  | alive : Open s.conn → s.destroyed = none → Phase s
  | down : Down s.conn → s.destroying = false → s.destroyed = none → Phase s
  | gone : Gone s.conn → s.destroying = false → s.destroyed = some .kDisconnected →
      (s.conn.state_ = .kDisconnected ∨ ¬ InFlight s) → Phase s

/-- Every run of `connectDestroyed`: queued, under way, or done. -/
def tickets (s : ThreadedConnection Tid) : Nat :=
  s.queue.all.count .connectDestroyed + s.destroying.toNat + s.destroyed.isSome.toNat

/-- `connectDestroyed` is issued once. -/
structure IssuedOnce (s : ThreadedConnection Tid) : Prop where
  most : s.tickets ≤ 1
  issued : s.destroyIssued = false → s.tickets = 0

theorem tickets_push (f : ConnFunctor) (q : FunctorQueue ConnFunctor) :
    (q.push f).all.count .connectDestroyed =
      q.all.count .connectDestroyed + if f = .connectDestroyed then 1 else 0 := by
  rw [FunctorQueue.all_push, List.count_append]
  by_cases hf : f = .connectDestroyed <;> simp [hf]

theorem tickets_destroyTest (s : ThreadedConnection Tid) (hd : s.destroying = false)
    (hn : s.destroyed = none) :
    s.destroyTest.tickets = s.queue.all.count .connectDestroyed + 1 := by
  unfold destroyTest tickets
  split <;> simp [hd, hn]

theorem issued_destroyTest (s : ThreadedConnection Tid) :
    s.destroyTest.destroyIssued = s.destroyIssued := by
  unfold destroyTest
  split <;> rfl

theorem tickets_userCall (s : ThreadedConnection Tid) (u : UserCall) :
    (s.userCall u).tickets = s.tickets ∧ (s.userCall u).destroyIssued = s.destroyIssued := by
  obtain ⟨_, _, _, _, h⟩ := s.userCall_eq u
  rw [h]
  exact ⟨rfl, rfl⟩

theorem tickets_next {f : ConnFunctor} {q : FunctorQueue ConnFunctor}
    (hn : s.queue.next = some (f, q)) :
    s.queue.all.count .connectDestroyed =
      q.all.count .connectDestroyed + if f = .connectDestroyed then 1 else 0 := by
  rw [FunctorQueue.all_next hn, List.count_cons]
  by_cases hf : f = .connectDestroyed <;> simp [hf]

theorem IssuedOnce.of_eq (h : IssuedOnce s) (ht : t.tickets = s.tickets)
    (hi : t.destroyIssued = s.destroyIssued) : IssuedOnce t :=
  ⟨ht ▸ h.most, fun hf => ht ▸ h.issued (hi ▸ hf)⟩

/-- While `connectDestroyed` is queued or can still be issued, it has not begun. -/
theorem IssuedOnce.not_begun (h : IssuedOnce s)
    (hs : s.destroyIssued = false ∨ .connectDestroyed ∈ s.queue.all) :
    s.destroying = false ∧ s.destroyed = none := by
  have hsum : s.destroying.toNat + s.destroyed.isSome.toNat = 0 := by
    have hm := h.most
    rcases hs with hs | hs
    · have := h.issued hs
      unfold tickets at this
      omega
    · have := List.count_pos_iff.mpr hs
      unfold tickets at hm
      omega
  constructor
  · cases hd : s.destroying with
    | true => simp [hd] at hsum
    | false => rfl
  · cases hd : s.destroyed with
    | some st => simp [hd] at hsum
    | none => rfl

/-! ### The phases -/

theorem phase_destroyTest (h : Phase s) (hb : s.destroying = false ∧ s.destroyed = none)
    (hs : s.conn.state_ ≠ .kDisconnecting) : Phase s.destroyTest := by
  unfold destroyTest
  cases h with
  | alive ho hn =>
    rw [if_pos (ho.state.resolve_right hs)]
    exact .alive ho hn
  | down hd hdes hn =>
    rw [if_neg (by simp [hd.state])]
    obtain ⟨hg, hst⟩ := hd.removeChannel
    exact .gone hg hdes (congrArg some hd.state) (.inl hst)
  | gone _ _ hd => simp [hb.2] at hd

/-- The callers move and the queue changes, and no new send gets under way. -/
theorem Phase.of_conn (h : Phase s) (hc : t.conn = s.conn) (hdes : t.destroying = s.destroying)
    (hd : t.destroyed = s.destroyed) (hf : s.conn.state_ ≠ .kConnected → InFlight t → InFlight s) :
    Phase t := by
  cases h with
  | alive ho hn => exact .alive (hc ▸ ho) (hd ▸ hn)
  | down ho hs hn => exact .down (hc ▸ ho) (hdes ▸ hs) (hd ▸ hn)
  | gone ho hs hn hor =>
    exact .gone (hc ▸ ho) (hdes ▸ hs) (hd ▸ hn) (hc ▸ hor.imp_right (mt (hf ho.state)))

theorem Phase.of_mute (h : Phase s) (ho : Open s.conn → Open t.conn)
    (hm : s.conn.state_ ≠ .kConnected → s.conn.channel_.isNoneEvent = true →
      s.conn.Mute t.conn) (hdes : t.destroying = s.destroying)
    (hd : t.destroyed = s.destroyed) (hf : s.conn.state_ ≠ .kConnected → InFlight t → InFlight s) :
    Phase t := by
  cases h with
  | alive ha hn => exact .alive (ho ha) (hd ▸ hn)
  | down ha hs hn => exact .down (ha.mute (hm (by simp [ha.state]) ha.silent)) (hdes ▸ hs) (hd ▸ hn)
  | gone ha hs hn hor =>
    have hmute := hm ha.state ha.silent
    exact .gone (ha.mute hmute) (hdes ▸ hs) (hd ▸ hn)
      (hmute.state ▸ hor.imp_right (mt (hf ha.state)))

/-- `handleClose` on an open connection, or again on one that is down. -/
theorem Phase.closing (h : Phase s) (hd : s.destroyed = none) (hdes : s.destroying = false)
    (hc : t.conn = s.conn.disconnect.emit .closeCallback) (htdes : t.destroying = s.destroying)
    (htd : t.destroyed = s.destroyed) : Phase t := by
  refine .down ?_ (htdes ▸ hdes) (htd ▸ hd)
  have hdown : Down s.conn.disconnect := by
    cases h with
    | alive ho _ => exact ho.disconnect_down
    | down ho _ _ => exact ho.disconnect
    | gone _ _ hn _ => simp [hd] at hn
  exact hc ▸ hdown.mute (TcpConnection.mute_emit _ _)

/-- The store of another thread's `shutdown`. -/
theorem Phase.store (h : Phase s)
    (hok : s.conn.state_ ≠ .kDisconnected ∨ (s.destroyed ≠ none ∧ ¬ InFlight s))
    (hc : t.conn = s.conn.setState .kDisconnecting) (hdes : t.destroying = s.destroying)
    (hd : t.destroyed = s.destroyed) (hf : s.conn.state_ ≠ .kConnected → InFlight t → InFlight s) :
    Phase t := by
  cases h with
  | alive ho hn =>
    exact .alive (hc ▸ ⟨.inr rfl, ho.watched, ho.reading, ho.running⟩) (hd ▸ hn)
  | down ho _ hn =>
    rcases hok with hs | hs
    · exact absurd ho.state hs
    · exact absurd hn hs.1
  | gone hg hs hn hor =>
    have hnone : ¬ InFlight s := by
      rcases hok with hs | hs
      · exact hor.resolve_left hs
      · exact hs.2
    exact .gone (hc ▸ ⟨by simp, hg.silent, hg.absent, hg.told, hg.running⟩) (hdes ▸ hs) (hd ▸ hn)
      (.inr (mt (hf hg.state) hnone))

/-- Once down, the functor of a send finds `kDisconnected` and gives up. -/
theorem Phase.sendInLoop (h : Phase s) (hfl : InFlight s) {data : List UInt8} {w : WriteResult}
    (hc : t.conn = s.conn.sendInLoop data w) (hdes : t.destroying = s.destroying)
    (hd : t.destroyed = s.destroyed) : Phase t := by
  have hgive : s.conn.state_ = .kDisconnected → t.conn = s.conn :=
    fun hs => hc.trans (TcpConnection.sendInLoop_of_disconnected hs data w)
  cases h with
  | alive ho hn => exact .alive (hc ▸ TcpConnection.stable_open.sendInLoop data w ho) (hd ▸ hn)
  | down ho hs hn => exact .down (hgive ho.state ▸ ho) (hdes ▸ hs) (hd ▸ hn)
  | gone hg hs hn hor =>
    have hst := hor.resolve_right (not_not.mpr hfl)
    exact .gone (hgive hst ▸ hg) (hdes ▸ hs) (hd ▸ hn) (.inl (hgive hst ▸ hst))

/-! ### Runs -/

variable [DecidableEq Tid]

theorem IssuedOnce.step (h : IssuedOnce s) (hst : s.step l = some t) : IssuedOnce t := by
  cases (step_cases hst).2 with
  | pushSend | pushShutdown => exact h.of_eq (by simp [tickets, setCaller]) rfl
  | pushDestroy hi =>
    have h₀ := h.issued hi
    refine ⟨?_, fun hf => by simp at hf⟩
    simp only [tickets, tickets_push, if_true] at h₀ ⊢
    omega
  | swap hi hf => exact h.of_eq (by simp only [tickets, s.queue.all_swap hf]) rfl
  | sendInLoop hi hn => exact h.of_eq (by simp [tickets, tickets_next hn]) rfl
  | shutdownInLoop hi hn => exact h.of_eq (by simp [tickets, tickets_next hn]) rfl
  | connectDestroyed hi hn =>
    have hbegun := h.not_begun (.inr (by simp [FunctorQueue.all_next hn]))
    refine h.of_eq ((tickets_destroyTest _ (by exact hbegun.1) (by exact hbegun.2)).trans ?_)
      (issued_destroyTest _)
    rw [tickets, tickets_next hn, hbegun.1, hbegun.2]
    rfl
  | userCall u => exact h.of_eq (tickets_userCall s u).1 (tickets_userCall s u).2
  | destroy hd hi =>
    have hbegun := h.not_begun (.inl hi)
    have h₀ := h.issued hi
    refine ⟨(tickets_destroyTest _ (by exact hbegun.1) (by exact hbegun.2)).trans_le ?_,
      fun hf => by simp [issued_destroyTest] at hf⟩
    simp only [tickets] at h₀ ⊢
    omega
  | destroyRest hd =>
    have hm := h.most
    have hnone : s.destroyed = none := by
      by_contra hne
      have hsome := Option.isSome_iff_ne_none.mpr hne
      simp only [tickets, hd, hsome, Bool.toNat_true] at hm
      omega
    exact h.of_eq (by simp [tickets, hd, hnone]) rfl
  | _ => exact h.of_eq rfl rfl

theorem Phase.step (h : Phase s) (hi : IssuedOnce s) (hok : TearsDown s l)
    (hst : s.step l = some t) : Phase t := by
  have hf := fun hs => inFlight_of_step hst hs
  cases (step_cases hst).2 with
  | send | pushSend | shutdown | pushShutdown | pushDestroy | swap | dispatch =>
    exact h.of_conn rfl rfl rfl hf
  | sendRefused | shutdownRefused => exact h
  | store => exact h.store hok rfl rfl rfl hf
  | @sendInLoop w x q hidle hn =>
    have hfl : InFlight s :=
      .inr ⟨x, by rw [FunctorQueue.all_next hn]; exact List.mem_cons_self⟩
    exact h.sendInLoop hfl rfl rfl rfl
  | shutdownInLoop =>
    exact h.of_mute TcpConnection.stable_open.shutdownInLoop
      (fun _ _ => TcpConnection.mute_shutdownInLoop _) rfl rfl hf
  | connectDestroyed hidle hn =>
    have hbegun := hi.not_begun (.inr (by simp [FunctorQueue.all_next hn]))
    refine phase_destroyTest ?_ hbegun (hok (by simp [(FunctorQueue.next_eq_some hn).1]))
    exact h.of_conn rfl rfl rfl fun _ h' => h'.of_next hn rfl rfl
  | @handler r w k ks htodo hdes =>
    by_cases hc : k.closes r = true
    · have hd : s.destroyed = none := by
        by_contra hne
        have hopen := hok hne k (by simp [htodo])
        simp [hc] at hopen
      exact h.closing hd hdes (TcpConnection.runHandler_closing hc _) rfl rfl
    · have hc' : k.closes r = false := by simpa using hc
      exact h.of_mute (fun ho => ho.runHandler_open hc')
        (fun _ hn => TcpConnection.mute_runHandler hn hc') rfl rfl hf
  | userCall u =>
    have hsame : (s.userCall u).destroying = s.destroying ∧
        (s.userCall u).destroyed = s.destroyed := by
      obtain ⟨_, _, _, _, h⟩ := s.userCall_eq u
      rw [h]
      exact ⟨rfl, rfl⟩
    exact h.of_mute (TcpConnection.stable_open.userCall u)
      (fun hs _ => TcpConnection.mute_userCall hs u) hsame.1 hsame.2 hf
  | destroy hd his =>
    exact phase_destroyTest (h.of_conn rfl rfl rfl fun _ h' => h') (hi.not_begun (.inl his)) hok
  | @destroyRest calls c hd hc =>
    cases h with
    | alive ho hn =>
      obtain ⟨hg, hs⟩ := (ho.disconnect_down.userCalls calls).removeChannel
      rw [← hc] at hg hs
      exact .gone hg rfl (congrArg some hs) (.inl hs)
    | down _ hdes _ => simp [hd] at hdes
    | gone _ hdes _ _ => simp [hd] at hdes

/-- When `connectDestroyed` returns, and ever after, the connection is disconnected as far
as it is concerned, its user has been told, and neither the poller nor the kernel knows
its descriptor; no assertion fails on the way. -/
theorem destroyed_cleanly (h : (machine Tid).Reach TearsDown s) :
    s.conn.aborted = none ∧ ∀ st, s.destroyed = some st →
      st = .kDisconnected ∧ .down ∈ s.conn.notes ∧
        s.conn.poller.channels_ s.conn.channel_.fd_ = none ∧
        s.conn.poller.interest s.conn.channel_.fd_ = none := by
  have hinv : Phase s ∧ IssuedOnce s := by
    refine h.invariant (I := fun s => Phase s ∧ IssuedOnce s) ?_ ?_
    · rintro s ⟨c, hc, rfl⟩
      exact ⟨.alive (hc.connectEstablished []) rfl, ⟨by simp [tickets, FunctorQueue.all],
        fun _ => by simp [tickets, FunctorQueue.all]⟩⟩
    · rintro s l t ⟨hp, hi⟩ hok hst
      exact ⟨hp.step hi hok hst, hi.step hst⟩
  cases hinv.1 with
  | alive ho hn => exact ⟨ho.running, fun st hst => by simp [hn] at hst⟩
  | down hd _ hn => exact ⟨hd.running, fun st hst => by simp [hn] at hst⟩
  | gone hg _ hn _ =>
    refine ⟨hg.running, fun st hst => ⟨?_, hg.told, hg.absent.channels, hg.absent.interest⟩⟩
    exact Option.some.inj (hst.symm.trans hn)

/-- The peer closes, the server queues `connectDestroyed`, and the loop runs it. -/
theorem destroyed_cleanly_after_close :
    ∃ s : ThreadedConnection Nat, (machine Nat).Reach TearsDown s ∧
      s.destroyed = some .kDisconnected ∧ s.conn.aborted = none ∧
      ∀ st, s.destroyed = some st → st = .kDisconnected ∧ .down ∈ s.conn.notes ∧
        s.conn.poller.channels_ s.conn.channel_.fd_ = none ∧
        s.conn.poller.interest s.conn.channel_.fd_ = none := by
  have h₀ : (machine Nat).Reach TearsDown
      { conn := (TcpConnection.new 1 5).connectEstablished [] } :=
    .init ⟨_, TcpConnection.fresh_new 1 5, rfl⟩
  have h₁ := h₀.step (.dispatch EPOLLHUP) (by trivial) rfl
  have h₂ := h₁.step (.handler (.error EAGAIN) (.error EAGAIN)) (by exact fun h => absurd rfl h) rfl
  have h₃ := h₂.step .pushDestroy (by trivial) rfl
  have h₄ := h₃.step .swap (by trivial) rfl
  have h₅ := h₄.step (.runFunctor (.error EAGAIN)) (by exact fun _ => by decide) rfl
  exact ⟨_, h₅, rfl, destroyed_cleanly h₅⟩

/-- The server is destroyed while the connection is half-closed: the channel still reads
when it is removed. And where another thread's `shutdown` stores over `kDisconnected`, a
send that is still queued registers the channel again after its removal. -/
theorem destroyed_while_disconnecting :
    (∃ s : ThreadedConnection Nat,
      (machine Nat).run { conn := (TcpConnection.new 1 5).connectEstablished [] }
        [.userCall .shutdown, .destroy] = some s ∧
      s.conn.aborted = some .isNoneEvent) ∧
    ∃ s : ThreadedConnection Nat,
      (machine Nat).run { conn := (TcpConnection.new 1 5).connectEstablished [] }
        [.send 1 [104], .shutdown 2, .dispatch EPOLLHUP,
          .handler (.error EAGAIN) (.error EAGAIN), .pushDestroy, .store 2, .pushSend 1, .swap,
          .runFunctor (.error EAGAIN), .runFunctor (.error EAGAIN)] = some s ∧
      s.destroyed = some .kDisconnecting ∧
      s.conn.poller.interest s.conn.channel_.fd_ = some (EPOLLOUT, 1) :=
  ⟨⟨_, rfl, rfl⟩, ⟨_, rfl, rfl, rfl⟩⟩

end ThreadedConnection

end Muduo
