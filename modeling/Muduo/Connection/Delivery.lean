import Mathlib.Data.List.Range
import Muduo.Connection.Shutdown
import Muduo.EventLoop.Progress

/-!
# What is sent is delivered

As long as a connection stays open, its loop goes round and the socket takes bytes now and
then, every byte of every `send` is written in the end, and a `shutdown` ends in the
half-close of the socket.

Bytes leave the output buffer in the order in which they entered it, so those of later
sends cannot hold up those of an earlier one. Before the half-close the buffer must run
empty, though. It does, because once `state_` is `kDisconnecting` no send gets under way,
and those that are under way are finitely many: each has a number, and runs once.
-/

namespace Muduo

namespace TcpConnection

variable {c : TcpConnection}

/-- While write events are awaited, `handleWrite` writes what `::write` takes. -/
theorem accepted_handleWrite (hw : c.channel_.isWriting = true) (k : ℕ) :
    (c.handleWrite (.wrote k)).accepted = c.accepted ++ c.outputBuffer_.take k := by
  have hout : (c.writeOut (.wrote k)).1.accepted = c.accepted ++ c.outputBuffer_.take k := by
    simp only [writeOut, hw, if_true]
    split
    · split
      · rw [(still_stopWriting _).1]
        simp [accepted, Effect.accepted, List.take_eq_take_iff]
      · simp [accepted, Effect.accepted, List.take_eq_take_iff]
    · simp [Effect.accepted, List.take_eq_take_iff]
  unfold handleWrite finishDrain
  split
  · split
    · rw [(still_shutdownInLoop _).1, hout]
    · exact hout
  · exact hout

theorem stable_accepted (xs : List UInt8) : Stable fun c => xs <+: c.accepted where
  emit := fun c e _ h => h.trans (accepted_emit c e ▸ List.prefix_append _ _)
  input := fun _ _ h => h
  output := fun _ _ h => h
  enableWriting := fun _ h => h
  disableWriting := fun _ h => h
  disconnecting := fun _ _ h => h

end TcpConnection

/-- The send that the functor carries. -/
def ConnFunctor.send? : ConnFunctor → Option Send
  | .sendInLoop x => some x
  | .shutdownInLoop | .connectDestroyed => none

namespace ThreadedConnection

open TcpConnection (Promised Issued)

variable {Tid : Type*}

@[simp] theorem executed_destroyTest (s : ThreadedConnection Tid) :
    s.destroyTest.executed = s.executed := by
  unfold destroyTest
  split <;> rfl

@[simp] theorem sends_destroyTest (s : ThreadedConnection Tid) :
    s.destroyTest.sends = s.sends := by
  unfold destroyTest
  split <;> rfl

/-! ## Every send runs once -/

/-- The sends that have run and those that are queued, in order. -/
def queuedSends (s : ThreadedConnection Tid) : List Send :=
  s.executed ++ s.queue.all.filterMap ConnFunctor.send?

/-- Sends are numbered as they see `kConnected`, and each is in one place. -/
structure Numbered (s : ThreadedConnection Tid) : Prop where
  once : (s.queuedSends.map Send.id).Nodup
  bound : ∀ x ∈ s.queuedSends, x.id < s.sends
  sending : ∀ u x, s.caller u = .sending x → x.id < s.sends ∧ ∀ y ∈ s.queuedSends, y.id ≠ x.id
  apart : ∀ u v x y, s.caller u = .sending x → s.caller v = .sending y → x.id = y.id → u = v

variable {s t : ThreadedConnection Tid} {l : ConnLabel Tid}

theorem Numbered.of_eq (h : Numbered s) (hq : t.queuedSends = s.queuedSends)
    (hs : t.sends = s.sends) (hc : ∀ u x, t.caller u = .sending x → s.caller u = .sending x) :
    Numbered t where
  once := hq ▸ h.once
  bound := by rw [hq, hs]; exact h.bound
  sending := fun u x hx => by rw [hq, hs]; exact h.sending u x (hc u x hx)
  apart := fun u v x y hx hy => h.apart u v x y (hc u x hx) (hc v y hy)

/-- One more send is queued or run, under a number that no other has. -/
theorem Numbered.add (h : Numbered s) {x : Send} (hq : t.queuedSends.Perm (x :: s.queuedSends))
    (hs : s.sends ≤ t.sends) (hx : x.id < t.sends) (hnew : ∀ y ∈ s.queuedSends, y.id ≠ x.id)
    (hc : ∀ u y, t.caller u = .sending y → s.caller u = .sending y ∧ y.id ≠ x.id) :
    Numbered t where
  once := by
    refine (hq.map Send.id).nodup_iff.mpr (List.nodup_cons.mpr ⟨?_, h.once⟩)
    rintro hm
    obtain ⟨y, hy, he⟩ := List.mem_map.mp hm
    exact hnew y hy he
  bound := by
    intro y hy
    rcases List.mem_cons.mp (hq.mem_iff.mp hy) with rfl | hy
    · exact hx
    · exact (h.bound y hy).trans_le hs
  sending := by
    intro u y hy
    obtain ⟨hy, hne⟩ := hc u y hy
    obtain ⟨hlt, hapart⟩ := h.sending u y hy
    refine ⟨hlt.trans_le hs, fun z hz => ?_⟩
    rcases List.mem_cons.mp (hq.mem_iff.mp hz) with rfl | hz
    · exact hne.symm
    · exact hapart z hz
  apart := fun u v y z hy hz => h.apart u v y z (hc u y hy).1 (hc v z hz).1

variable [DecidableEq Tid]

theorem Numbered.step (h : Numbered s) (hst : s.step l = some t) : Numbered t := by
  cases (step_cases hst).2 with
  | @send u data =>
    -- the number `s.sends` is new
    obtain ⟨ho, hb, hse, ha⟩ := h
    have hcaller : ∀ v x, (s.setCaller u (.sending ⟨s.sends, data⟩)).caller v = .sending x →
        v = u ∧ x = ⟨s.sends, data⟩ ∨ v ≠ u ∧ s.caller v = .sending x := by
      intro v x hx
      by_cases hv : v = u
      · subst hv
        exact .inl ⟨rfl, by simpa [setCaller, eq_comm] using hx⟩
      · exact .inr ⟨hv, by simpa [setCaller, hv] using hx⟩
    refine ⟨ho, fun y hy => Nat.lt_succ_of_lt (hb y hy), ?_, ?_⟩
    · intro v x hx
      rcases hcaller v x hx with ⟨-, rfl⟩ | ⟨-, hx⟩
      · exact ⟨Nat.lt_succ_self _, fun y hy => (hb y hy).ne⟩
      · exact ⟨Nat.lt_succ_of_lt (hse v x hx).1, (hse v x hx).2⟩
    · intro v w x y hx hy hid
      rcases hcaller v x hx with ⟨hv, rfl⟩ | ⟨-, hx'⟩
      · rcases hcaller w y hy with ⟨hw, rfl⟩ | ⟨-, hy'⟩
        · exact hv.trans hw.symm
        · exact absurd hid.symm (hse w y hy').1.ne
      · rcases hcaller w y hy with ⟨-, rfl⟩ | ⟨-, hy'⟩
        · exact absurd hid (hse v x hx').1.ne
        · exact ha v w x y hx' hy' hid
  | @pushSend u x hc =>
    obtain ⟨hlt, hnew⟩ := h.sending u x hc
    refine h.add (x := x) ?_ le_rfl hlt hnew ?_
    · have hq : (s.queuedSends ++ [x]).Perm (x :: s.queuedSends) := List.perm_append_singleton _ _
      simpa [queuedSends, setCaller, ConnFunctor.send?] using hq
    · intro v y hy
      have hv : v ≠ u := by
        rintro rfl
        simp [setCaller] at hy
      have hy : s.caller v = .sending y := caller_of_setCaller (by simp) hy
      exact ⟨hy, fun hid => hv (h.apart v u y x hy hc hid)⟩
  | shutdown | store | pushShutdown =>
    refine h.of_eq ?_ rfl fun v x hx => caller_of_setCaller (by simp) hx
    simp [queuedSends, setCaller, ConnFunctor.send?]
  | pushDestroy => exact h.of_eq (by simp [queuedSends, ConnFunctor.send?]) rfl fun _ _ hx => hx
  | swap _ hf => exact h.of_eq (by simp [queuedSends, s.queue.all_swap hf]) rfl fun _ _ hx => hx
  | sendInLoop _ hn =>
    refine h.of_eq ?_ rfl fun _ _ hx => hx
    simp [queuedSends, FunctorQueue.all_next hn, ConnFunctor.send?]
  | shutdownInLoop _ hn =>
    refine h.of_eq ?_ rfl fun _ _ hx => hx
    simp only [queuedSends, FunctorQueue.all_next hn]
    rfl
  | connectDestroyed _ hn =>
    refine h.of_eq ?_ (by simp) fun u x hx => by simpa using hx
    simp only [queuedSends, executed_destroyTest, queue_destroyTest, FunctorQueue.all_next hn]
    rfl
  | userCall u =>
    by_cases hs : s.conn.state_ = .kConnected
    · cases u with
      | retrieve n => exact h.of_eq rfl rfl fun _ _ hx => hx
      | shutdown =>
        rw [userCall_shutdown hs]
        exact h.of_eq rfl rfl fun _ _ hx => hx
      | send data w =>
        rw [userCall_send hs]
        refine h.add (x := ⟨s.sends, data⟩) ?_ (Nat.le_succ _) (Nat.lt_succ_self _)
          (fun y hy => (h.bound y hy).ne) fun v y hy => ⟨hy, (h.sending v y hy).1.ne⟩
        simp only [queuedSends, List.append_assoc, List.singleton_append]
        exact List.perm_middle
    · obtain ⟨b, hb⟩ := userCall_of_not_connected hs u
      rw [hb]
      exact h.of_eq rfl rfl fun _ _ hx => hx
  | destroy =>
    exact h.of_eq (by simp [queuedSends]) (by simp) fun u x hx => by simpa using hx
  | _ => exact h.of_eq rfl rfl fun _ _ hx => hx

theorem numbered (h : (machine Tid).Reachable s) : Numbered s := by
  refine h.invariant ?_ fun _ _ _ hs _ hst => hs.step hst
  rintro s ⟨c, -, rfl⟩
  exact ⟨List.nodup_nil, fun x hx => by simp [queuedSends, FunctorQueue.all] at hx,
    fun u x hx => by simp at hx, fun u v x y hx => by simp at hx⟩

omit [DecidableEq Tid] in
/-- No more sends have run than have been made. -/
theorem Numbered.length_executed (h : Numbered s) : s.executed.length ≤ s.sends := by
  have hsub : s.queuedSends.map Send.id ⊆ List.range s.sends := by
    intro i hi
    obtain ⟨x, hx, rfl⟩ := List.mem_map.mp hi
    exact List.mem_range.mpr (h.bound x hx)
  have hlen := (h.once.subperm hsub).length_le
  simp only [queuedSends, List.length_map, List.length_append, List.length_range] at hlen
  omega

/-! ## What a step does to the queue -/

omit [DecidableEq Tid] in
@[simp] theorem queue_runFunctor (w : WriteResult) (f : ConnFunctor) :
    (s.runFunctor w f).queue = s.queue := by
  cases f with
  | sendInLoop | shutdownInLoop => rfl
  | connectDestroyed => exact queue_destroyTest s

/-- A functor is pushed, a batch is swapped in, the next functor runs, or the queue stays. -/
theorem queue_step (hst : s.step l = some t) :
    t.queue = s.queue ∨ (∃ f, t.queue = s.queue.push f) ∨
      (s.queue.functors = [] ∧ t.queue = s.queue.swap) ∨
      ∃ w f q, l = .runFunctor w ∧ s.queue.next = some (f, q) ∧
        t = { s with queue := q }.runFunctor w f := by
  cases (step_cases hst).2 with
  | pushSend | pushShutdown | pushDestroy => exact .inr (.inl ⟨_, rfl⟩)
  | swap _ hf => exact .inr (.inr (.inl ⟨hf, rfl⟩))
  | sendInLoop _ hn | shutdownInLoop _ hn | connectDestroyed _ hn =>
    exact .inr (.inr (.inr ⟨_, _, _, rfl, hn, rfl⟩))
  | userCall u => exact .inl (queue_userCall s u)
  | destroy => exact .inl (queue_destroyTest _)
  | _ => exact .inl rfl

/-- A functor of the batch stays there until it runs. -/
theorem functors_step (hst : s.step l = some t) {f : ConnFunctor} (hf : f ∈ s.queue.functors) :
    f ∈ t.queue.functors ∨
      ∃ w q, s.queue.next = some (f, q) ∧ t = { s with queue := q }.runFunctor w f := by
  rcases queue_step hst with hq | ⟨g, hq⟩ | ⟨hnil, -⟩ | ⟨w, g, q, -, hn, rfl⟩
  · exact .inl (hq ▸ hf)
  · exact .inl (hq ▸ hf)
  · simp [hnil] at hf
  · rw [(FunctorQueue.next_eq_some hn).1] at hf
    rcases List.mem_cons.mp hf with rfl | hf
    · exact .inr ⟨w, q, hn, rfl⟩
    · exact .inl (by simpa using hf)

/-- What is queued stays queued until it runs. -/
theorem all_step (hst : s.step l = some t) {f : ConnFunctor} (hf : f ∈ s.queue.all) :
    f ∈ t.queue.all ∨
      ∃ w q, s.queue.next = some (f, q) ∧ t = { s with queue := q }.runFunctor w f := by
  rcases queue_step hst with hq | ⟨g, hq⟩ | ⟨hnil, hq⟩ | ⟨w, g, q, -, hn, rfl⟩
  · exact .inl (hq ▸ hf)
  · exact .inl (by simp [hq, hf])
  · exact .inl (by rwa [hq, s.queue.all_swap hnil])
  · rw [FunctorQueue.all_next hn] at hf
    rcases List.mem_cons.mp hf with rfl | hf
    · exact .inr ⟨w, q, hn, rfl⟩
    · exact .inl (by simpa using hf)

/-! ## What a step does to the stream -/

theorem executed_step (hst : s.step l = some t) : s.executed <+: t.executed := by
  cases (step_cases hst).2 with
  | sendInLoop => exact List.prefix_append _ _
  | connectDestroyed => exact (executed_destroyTest _).symm ▸ List.prefix_rfl
  | userCall u =>
    by_cases hs : s.conn.state_ = .kConnected
    · cases u with
      | retrieve n => exact List.prefix_rfl
      | shutdown => exact userCall_shutdown hs ▸ List.prefix_rfl
      | send data w =>
        rw [userCall_send hs]
        exact List.prefix_append _ _
    · obtain ⟨b, hb⟩ := userCall_of_not_connected hs u
      exact hb ▸ List.prefix_rfl
  | destroy => exact (executed_destroyTest _).symm ▸ List.prefix_rfl
  | _ => exact List.prefix_rfl

/-- An open connection keeps its stream, its books and the numbers of its sends. -/
structure Streams (s : ThreadedConnection Tid) : Prop where
  booked : Booked s
  carries : s.conn.Carries (s.executed.flatMap Send.data)
  numbered : Numbered s

theorem streams (h : (machine Tid).Reach StaysOpen s) : Streams s := by
  have hbook : Booked s ∧ s.conn.Carries (s.executed.flatMap Send.data) := by
    refine h.invariant (I := fun s => Booked s ∧ s.conn.Carries (s.executed.flatMap Send.data))
      ?_ ?_
    · rintro s ⟨c, hc, rfl⟩
      exact ⟨(sound_init hc).booked, (sound_init hc).carries⟩
    · intro s l t hs hok hst
      exact ⟨hs.1.step hok hst, carries_step hs.2 hs.1 hok hst⟩
  exact ⟨hbook.1, hbook.2, numbered h.reachable⟩

omit [DecidableEq Tid] in
/-- Bytes of sends that have run are written or wait in the buffer. -/
theorem Streams.length (h : Streams s) :
    s.conn.accepted.length + s.conn.outputBuffer_.length =
      (s.executed.flatMap Send.data).length := by
  rw [← List.length_append, h.carries.stream]

/-- What the socket has accepted stays accepted. -/
theorem accepted_step (hok : StaysOpen s l) (hb : Booked s) (hst : s.step l = some t) :
    s.conn.accepted <+: t.conn.accepted := by
  have hkeeps := TcpConnection.stable_accepted s.conn.accepted
  have hs : s.conn.accepted <+: s.conn.accepted := List.prefix_rfl
  cases (step_cases hst).2 with
  | sendInLoop => exact hkeeps.sendInLoop _ _ hs
  | shutdownInLoop => exact hkeeps.shutdownInLoop hs
  | connectDestroyed _ hn => exact absurd (by simp [FunctorQueue.all_next hn]) hb.noDestroy.2
  | @handler r w k ks htodo =>
    have hk : k.closes r = false := by
      rcases hok.next htodo with rfl | rfl
      · cases r with
        | received bytes => simpa [TcpConnection.Handler.closes] using hok.2
        | error e => rfl
      · rfl
    rcases TcpConnection.runHandler_not_closing (w := w) hk s.conn with he | ⟨b, es, he⟩
    · exact he ▸ hkeeps.handleWrite w hs
    · rw [he]
      simp [TcpConnection.accepted]
  | userCall u =>
    obtain ⟨_, _, _, _, he⟩ := s.userCall_eq u
    exact he ▸ hkeeps.userCall u hs
  | destroy => exact hok.elim
  | destroyRest hdes => simp [hb.noDestroy.1] at hdes
  | _ => exact hs

/-- The loop thread handles a write event, and the socket takes some bytes. -/
def Productive (s : ThreadedConnection Tid) (l : ConnLabel Tid) : Prop :=
  s.todo.head? = some .write ∧ ∃ r k, l = .handler r (.wrote k) ∧ 0 < k

/-- A productive step shortens what waits. -/
theorem productive_step (h : Streams s) (hl : Productive s l) (hok : StaysOpen s l)
    (hst : s.step l = some t) (hw : s.conn.channel_.isWriting = true) :
    t.executed = s.executed ∧ s.conn.accepted.length < t.conn.accepted.length ∧
      t.conn.outputBuffer_.length < s.conn.outputBuffer_.length := by
  obtain ⟨htodo, r, k, rfl, hk⟩ := hl
  have hlen := h.length
  have ht : Streams t := ⟨h.booked.step hok hst, carries_step h.carries h.booked hok hst,
    h.numbered.step hst⟩
  have hlen' := ht.length
  have hne : s.conn.outputBuffer_ ≠ [] := h.carries.coupled.mp hw
  cases (step_cases hst).2 with
  | handler hs =>
    obtain rfl := by simpa [hs] using htodo
    have hacc := congrArg List.length (TcpConnection.accepted_handleWrite hw k)
    have hpos := List.length_pos_iff.mpr hne
    simp only [List.length_append, List.length_take] at hacc
    simp only [TcpConnection.runHandler] at hlen'
    refine ⟨rfl, ?_, ?_⟩
    · simp only [TcpConnection.runHandler]
      omega
    · simp only [TcpConnection.runHandler]
      omega

omit [DecidableEq Tid] in
/-- While bytes of sends that have run are not accepted, write events are awaited. -/
theorem Streams.isWriting (h : Streams s) {xs : List Send} (hp : xs <+: s.executed)
    (hlen : s.conn.accepted.length < (xs.flatMap Send.data).length) :
    s.conn.channel_.isWriting = true := by
  obtain ⟨ys, hys⟩ := hp
  have hall := h.length
  rw [← hys, List.flatMap_append, List.length_append] at hall
  refine h.carries.coupled.mpr (List.length_pos_iff.mp ?_)
  omega

/-! ## Executions that keep going -/

/-- The loop goes round, and the socket does not refuse bytes for ever while write events are
awaited. -/
structure KeepsGoing (e : (machine Tid).Execution StaysOpen) : Prop where
  rounds : ∀ n, ∃ m, n ≤ m ∧ e.label m = some .swap
  writes : ∀ n, (∀ m, n ≤ m → (e.state m).conn.channel_.isWriting = true) →
    ∃ m l, n ≤ m ∧ e.label m = some l ∧ Productive (e.state m) l

/-- A thread inside `shutdown` goes on to queue its functor. -/
def QueuesShutdown (e : (machine Tid).Execution StaysOpen) : Prop :=
  ∀ n u, (e.state n).caller u = .queueing → ∃ m, n ≤ m ∧ e.label m = some (.pushShutdown u)

variable {e : (machine Tid).Execution StaysOpen}

/-- What is queued runs, and `P` is what its run leads to. -/
theorem KeepsGoing.called (hgo : KeepsGoing e) {P : ThreadedConnection Tid → Prop}
    {f : ConnFunctor} {n : ℕ}
    (keeps : ∀ s l t, Streams s → StaysOpen s l → s.step l = some t → P s → P t)
    (runs : ∀ s w q, Streams s → s.queue.next = some (f, q) →
      P ({ s with queue := q }.runFunctor w f)) (hf : f ∈ (e.state n).queue.all) :
    ∃ m, n ≤ m ∧ P (e.state m) := by
  refine FunctorQueue.eventually_called (P := P) (J := fun s => f ∈ s.queue.all ∨ P s)
    ThreadedConnection.queue (fun l => l = .swap) f ?_ ?_ ?_ ?_ ?_ (.inl hf)
  · rintro s l t hs hok hst (hmem | hP)
    · refine (all_step hst hmem).imp_right ?_
      rintro ⟨w, q, hn, rfl⟩
      exact runs s w q (streams hs) hn
    · exact .inr (keeps s l t (streams hs) hok hst hP)
  · exact fun s _ hJ hP => hJ.resolve_right hP
  · rintro s l t rfl hst
    cases (step_cases hst).2 with
    | swap _ hnil => exact ⟨hnil, rfl⟩
  · rintro s l t hs - hst - - hmem
    refine (functors_step hst hmem).imp_right ?_
    rintro ⟨w, q, hn, rfl⟩
    exact runs s w q (streams hs) hn
  · intro k
    obtain ⟨m, hm, hl⟩ := hgo.rounds k
    exact ⟨m, _, hm, hl, rfl⟩

/-- A send that has returned is written in the end, with all that was sent before it. -/
theorem KeepsGoing.delivered (hgo : KeepsGoing e) {n : ℕ} {x : Send}
    (hx : x ∈ (e.state n).returned) :
    ∃ m xs, n ≤ m ∧ x ∈ xs ∧ xs <+: (e.state m).executed ∧
      xs.flatMap Send.data <+: (e.state m).conn.accepted := by
  obtain ⟨i, hi, hrun⟩ : ∃ i, n ≤ i ∧ x ∈ (e.state i).executed := by
    rcases (streams (e.reach n)).booked.covered x hx with h | h
    · exact ⟨n, le_rfl, h⟩
    · refine hgo.called (P := fun s => x ∈ s.executed) ?_ ?_ h
      · exact fun s l t _ _ hst hm => (executed_step hst).subset hm
      · exact fun s w q _ _ => by simp [runFunctor]
  obtain ⟨xs, hxs⟩ : ∃ xs, (e.state i).executed = xs := ⟨_, rfl⟩
  have hkeeps : ∀ m, i ≤ m → xs <+: (e.state m).executed := by
    intro m hm
    exact e.stays (J := fun s => xs <+: s.executed)
      (fun _ _ _ _ _ hst hs => hs.trans (executed_step hst)) hm (hxs ▸ List.prefix_rfl)
  obtain ⟨m, hm, hlen⟩ : ∃ m, i ≤ m ∧
      (xs.flatMap Send.data).length ≤ (e.state m).conn.accepted.length := by
    refine e.eventually (J := fun s => xs <+: s.executed)
      (P := fun s => (xs.flatMap Send.data).length ≤ s.conn.accepted.length) Productive
      (fun s => (xs.flatMap Send.data).length - s.conn.accepted.length) ?_ ?_ ?_
      (hkeeps i le_rfl) ?_
    · exact fun _ _ _ _ _ hst hs => hs.trans (executed_step hst)
    · intro s l t hs hok hst hp hlt _ hl
      have hw := (streams hs).isWriting hp (Nat.not_le.mp hlt)
      have := (productive_step (streams hs) hl hok hst hw).2.1
      omega
    · intro s l t hs hok hst _ _ _
      have := (accepted_step hok (streams hs).booked hst).length_le
      omega
    · intro k hk hnever
      refine hgo.writes k fun m hm => ?_
      have hlt := hnever m (hk.trans hm)
      exact (streams (e.reach m)).isWriting (hkeeps m (hk.trans hm)) (Nat.not_le.mp hlt)
  have hs := streams (e.reach m)
  refine ⟨m, xs, hi.trans hm, hxs ▸ hrun, hkeeps m hm, ?_⟩
  obtain ⟨ys, hys⟩ := hkeeps m hm
  have hdata : xs.flatMap Send.data <+: (e.state m).executed.flatMap Send.data := by
    rw [← hys, List.flatMap_append]
    exact List.prefix_append _ _
  have hacc : (e.state m).conn.accepted <+: (e.state m).executed.flatMap Send.data :=
    ⟨_, hs.carries.stream⟩
  exact List.prefix_of_prefix_length_le hdata hacc hlen

/-! ## The half-close -/

/-- `shutdown` has been called, and what it owes does not hang on a functor any more. -/
structure Closing (s : ThreadedConnection Tid) : Prop where
  state : s.conn.state_ = .kDisconnecting
  promised : Promised s.conn

theorem disconnecting_step (hs : s.conn.state_ = .kDisconnecting) (hb : Booked s)
    (hok : StaysOpen s l) (hst : s.step l = some t) : t.conn.state_ = .kDisconnecting := by
  cases (step_cases hst).2 with
  | store => rfl
  | sendInLoop => exact stable_disconnecting.sendInLoop _ _ hs
  | shutdownInLoop => exact stable_disconnecting.shutdownInLoop hs
  | connectDestroyed _ hn => exact absurd (by simp [FunctorQueue.all_next hn]) hb.noDestroy.2
  | handler htodo => exact disconnecting_runHandler hs (hok.next htodo) hok.2
  | userCall u =>
    obtain ⟨_, _, _, _, he⟩ := s.userCall_eq u
    exact he ▸ stable_disconnecting.userCall u hs
  | destroy => exact hok.elim
  | destroyRest hdes => simp [hb.noDestroy.1] at hdes
  | _ => exact hs

theorem Closing.step (h : Closing s) (hb : Booked s) (hok : StaysOpen s l)
    (hst : s.step l = some t) : Closing t := by
  refine ⟨disconnecting_step h.state hb hok hst, ?_⟩
  have hp := h.promised
  cases (step_cases hst).2 with
  | store => exact fun _ => hp h.state
  | sendInLoop => exact hp.sendInLoop _ _
  | shutdownInLoop => exact TcpConnection.promised_shutdownInLoop _
  | connectDestroyed _ hn => exact absurd (by simp [FunctorQueue.all_next hn]) hb.noDestroy.2
  | @handler r w k => exact hp.runHandler r w k
  | userCall u =>
    obtain ⟨_, _, _, _, he⟩ := s.userCall_eq u
    exact he ▸ hp.userCall u
  | destroy => exact hok.elim
  | destroyRest hdes => simp [hb.noDestroy.1] at hdes
  | _ => exact hp

theorem remembered (h : (machine Tid).Reachable s) : Remembered s := by
  refine h.invariant ?_ fun _ _ _ hs _ hst => hs.step hst
  rintro s ⟨c, hc, rfl⟩
  have hs : (c.connectEstablished []).state_ ≠ .kDisconnecting := by
    simp [TcpConnection.connectEstablished, TcpConnection.userCalls]
  exact ⟨(TcpConnection.coupled_connectEstablished hc).mp,
    .inr (TcpConnection.promised_of_state hs)⟩

theorem mem_all_pushShutdown {u : Tid} (hst : s.step (.pushShutdown u) = some t) :
    .shutdownInLoop ∈ t.queue.all := by
  cases (step_cases hst).2 with
  | pushShutdown => simp

/-- The functor of a `shutdown` runs. -/
theorem closing_eventually (hgo : KeepsGoing e) (hqueues : QueuesShutdown e) {n : ℕ}
    (hs : (e.state n).conn.state_ = .kDisconnecting) : ∃ m, n ≤ m ∧ Closing (e.state m) := by
  have hstate : ∀ m, n ≤ m → (e.state m).conn.state_ = .kDisconnecting := by
    intro m hm
    exact e.stays (J := fun s => s.conn.state_ = .kDisconnecting)
      (fun _ _ _ hr hok hst hs => disconnecting_step hs (streams hr).booked hok hst) hm hs
  have hcalled : ∀ m, n ≤ m → .shutdownInLoop ∈ (e.state m).queue.all →
      ∃ k, m ≤ k ∧ Closing (e.state k) := by
    intro m hm hmem
    refine hgo.called (fun _ _ _ hr hok hst h => h.step hr.booked hok hst) ?_ hmem
    intro s w q hr hn
    have hd := hr.booked.stored (.inr (by simp [FunctorQueue.all_next hn]))
    exact ⟨stable_disconnecting.shutdownInLoop hd, TcpConnection.promised_shutdownInLoop _⟩
  rcases (remembered (e.reach n).reachable).due with (⟨u, hu⟩ | hmem) | hp
  · obtain ⟨m, hm, hl⟩ := hqueues n u hu
    have hnext := e.step_of_label hl
    obtain ⟨k, hk, hclosing⟩ := hcalled (m + 1) (by omega) (mem_all_pushShutdown hnext.2)
    exact ⟨k, by omega, hclosing⟩
  · exact hcalled n le_rfl hmem
  · exact ⟨n, le_rfl, hs, hp⟩

/-- Sends that may still run, and bytes that wait. -/
def closeRank (s : ThreadedConnection Tid) : ℕ ×ₗ ℕ :=
  toLex (s.sends - s.executed.length, s.conn.outputBuffer_.length)

/-- No send gets under way any more. -/
theorem sends_step (hs : s.conn.state_ = .kDisconnecting) (hst : s.step l = some t) :
    t.sends = s.sends := by
  have hne : s.conn.state_ ≠ .kConnected := by simp [hs]
  cases (step_cases hst).2 with
  | send _ hs' => exact absurd hs' hne
  | connectDestroyed | destroy => exact sends_destroyTest _
  | userCall u =>
    obtain ⟨b, hb⟩ := userCall_of_not_connected hne u
    rw [hb]
  | _ => rfl

/-- A send that runs late may fill the buffer again, but it is one less to run. -/
theorem closeRank_step (h : Streams s) (ht : Streams t) (hs : s.conn.state_ = .kDisconnecting)
    (hok : StaysOpen s l) (hst : s.step l = some t) : closeRank t ≤ closeRank s := by
  have hsends := sends_step hs hst
  have hle := ht.numbered.length_executed
  have hex := executed_step hst
  have hacc := (accepted_step hok h.booked hst).length_le
  have hlen := h.length
  have hlen' := ht.length
  rw [closeRank, closeRank, Prod.Lex.toLex_le_toLex]
  by_cases hsame : t.executed = s.executed
  · rw [hsame] at hlen'
    exact .inr ⟨by simp [hsends, hsame], by simp only; omega⟩
  · have hlt : s.executed.length < t.executed.length :=
      lt_of_le_of_ne hex.length_le fun he => hsame (hex.eq_of_length he).symm
    exact .inl (by simp only; omega)

/-- A connection on which `shutdown` has been called is half-closed in the end, however many
sends are still under way. -/
theorem KeepsGoing.half_closes (hgo : KeepsGoing e) (hqueues : QueuesShutdown e) {n : ℕ}
    (hs : (e.state n).conn.state_ = .kDisconnecting) :
    ∃ m, n ≤ m ∧ .shutdownWrite ∈ (e.state m).conn.effects := by
  obtain ⟨i, hi, hclosing⟩ := closing_eventually hgo hqueues hs
  have hkeeps : ∀ s l t, (machine Tid).Reach StaysOpen s → StaysOpen s l →
      (machine Tid).step s l = some t → Closing s → Closing t :=
    fun _ _ _ hr hok hst h => h.step (streams hr).booked hok hst
  have hwriting : ∀ s : ThreadedConnection Tid, Closing s → .shutdownWrite ∉ s.conn.effects →
      s.conn.channel_.isWriting = true := fun _ h hn => (h.promised h.state).resolve_left hn
  obtain ⟨m, hm, hissued⟩ : ∃ m, i ≤ m ∧ .shutdownWrite ∈ (e.state m).conn.effects := by
    refine e.eventually (P := fun s => .shutdownWrite ∈ s.conn.effects) Productive closeRank
      hkeeps ?_ ?_ hclosing ?_
    · intro s l t hr hok hst h hn _ hl
      obtain ⟨hex, -, hlt⟩ := productive_step (streams hr) hl hok hst (hwriting s h hn)
      rw [closeRank, closeRank, Prod.Lex.toLex_lt_toLex]
      exact .inr ⟨by simp [hex, sends_step h.state hst], hlt⟩
    · intro s l t hr hok hst h _ _
      exact closeRank_step (streams hr) (streams (.step l hr hok hst)) h.state hok hst
    · intro k hk hnever
      refine hgo.writes k fun m hm => ?_
      exact hwriting _ (e.stays hkeeps (hk.trans hm) hclosing) (hnever m (hk.trans hm))
  exact ⟨m, hi.trans hm, hissued⟩

end ThreadedConnection

end Muduo
