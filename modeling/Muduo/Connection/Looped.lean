import Muduo.Connection.Delivery
import Muduo.EventLoop.Rounds
import Muduo.Library.Product

/-!
# A connection and its loop

The connection and the event loop, each a machine so far, are put together. A functor that
the connection queues is an entry of the loop's own queue, among those of all others; the
loop's calls run it; and the connection's handlers run where the loop has found its channel
active. Each thread and the loop thread do one thing at a time.

The connection knew its loop only through a queue of its own, which was swapped now and
then. Here that picture is shown to be right: the connection's queue is always the part of
the loop's that is its own, and the loop is never kept waiting except by user code. What
was assumed of the loop then follows from the loop.
-/

namespace Muduo

/-- The functor that a thread is about to queue. -/
def CallerPc.functor? : CallerPc → Option ConnFunctor
  | .sending x => some (.sendInLoop x)
  | .queueing => some .shutdownInLoop
  | .idle | .storing => none

/-- The next channel to be handled is not the one of `wakeupFd_`. -/
def LoopPc.atOther : LoopPc → Bool
  | .dispatching (.other :: _) => true
  | _ => false

/-- The loop, whose functors are those of the connection and, as `none`, all others; and the
connection. Before it is established the connection has no part in what the loop does. -/
abbrev LoopedConnection (Tid : Type*) :=
  EventLoop (Option ConnFunctor) Tid × ThreadedConnection Tid

namespace LoopedConnection

variable {Tid : Type*}

/-- The functor that the loop calls next is the connection's. -/
def nextOwn (s : LoopedConnection Tid) : Bool :=
  (s.1.queue.functors.head?.bind Queued.functor).isSome

/-- User code runs on the loop thread, and is not inside `queueInLoop`. -/
def inUserCode (s : LoopedConnection Tid) : Bool := s.1.pc.userCode && s.1.self == .idle

variable [DecidableEq Tid]

/-- Which steps belong together, and when. -/
def together (s : LoopedConnection Tid) :
    Machine.Joint (LoopLabel (Option ConnFunctor) Tid) (ConnLabel Tid) → Bool
  -- the loop goes on when the connection's handlers and callbacks have returned
  | .left .call => decide s.2.idle && !s.nextOwn
  | .left .enter | .left .resetQuit | .left .testQuit | .left (.pollReturn _) | .left .handle
  | .left .handlerReturns | .left .setCalling | .left .functorReturns | .left .endBatch =>
    decide s.2.idle
  | .left .swap => false
  -- threads and user code that are busy with something else
  | .left (.push t f) => f == none && s.2.caller t == .idle
  | .left (.selfPush f) => f == none
  | .left (.storeQuit t) | .left (.join t) => s.2.caller t == .idle
  | .left (.wake _) | .left .selfTest | .left .selfWake | .left .selfQuit => true
  -- the connection's code where it does not reach the loop
  | .right (.send t _) | .right (.shutdown t) | .right (.store t) => s.1.thread t == .idle
  | .right (.handler _ _) | .right (.userCall _) | .right .destroy | .right (.destroyRest _) =>
    s.inUserCode
  | .right (.pushSend _) | .right (.pushShutdown _) | .right .pushDestroy | .right .swap
  | .right (.runFunctor _) | .right (.dispatch _) => false
  -- a functor of the connection is queued
  | .both (.push t f) (.pushSend u) | .both (.push t f) (.pushShutdown u) =>
    t == u && f == (s.2.caller u).functor?
  | .both (.push t f) .pushDestroy => f == some .connectDestroyed && s.2.caller t == .idle
  | .both (.selfPush f) .pushDestroy => f == some .connectDestroyed
  -- the loop runs the connection's code
  | .both .swap .swap => true
  | .both .call (.runFunctor _) => s.nextOwn
  | .both .handle (.dispatch _) => s.1.pc.atOther
  | .both _ _ => false

/-- Every interleaving of the threads with the loop. -/
def machine (Tid : Type*) [DecidableEq Tid] : Machine (LoopedConnection Tid)
    (Machine.Joint (LoopLabel (Option ConnFunctor) Tid) (ConnLabel Tid)) :=
  (EventLoop.machine (Option ConnFunctor) Tid).sync (ThreadedConnection.machine Tid)
    fun s j => together s j = true

/-! ## The connection's part of the queue -/

/-- The functors of the connection among those of the loop. -/
def own (q : FunctorQueue (Queued (Option ConnFunctor) Tid)) : FunctorQueue ConnFunctor where
  pendingFunctors_ := q.pendingFunctors_.filterMap Queued.functor
  functors := q.functors.filterMap Queued.functor

variable {s t : LoopedConnection Tid}
  {j : Machine.Joint (LoopLabel (Option ConnFunctor) Tid) (ConnLabel Tid)}
  {q q' : FunctorQueue (Queued (Option ConnFunctor) Tid)} {x : Queued (Option ConnFunctor) Tid}

omit [DecidableEq Tid] in
theorem own_push_other (hx : x.functor = none) : own (q.push x) = own q := by
  simp [own, FunctorQueue.push, hx]

omit [DecidableEq Tid] in
theorem own_push {f : ConnFunctor} (hx : x.functor = some f) :
    own (q.push x) = (own q).push f := by
  simp [own, FunctorQueue.push, hx]

omit [DecidableEq Tid] in
theorem own_next_other (hn : q.next = some (x, q')) (hx : x.functor = none) : own q' = own q := by
  obtain ⟨hf, hp⟩ := FunctorQueue.next_eq_some hn
  simp [own, hf, hp, hx]

omit [DecidableEq Tid] in
theorem own_next {f : ConnFunctor} (hn : q.next = some (x, q')) (hx : x.functor = some f) :
    (own q).next = some (f, own q') := by
  obtain ⟨hf, hp⟩ := FunctorQueue.next_eq_some hn
  simp [own, FunctorQueue.next, hf, hp, hx]

omit [DecidableEq Tid] in
theorem nextOwn_iff (hn : s.1.queue.next = some (x, q)) :
    s.nextOwn = x.functor.isSome := by
  simp [nextOwn, (FunctorQueue.next_eq_some hn).1]

/-- The connection's queue is its part of the loop's. -/
def Linked (s : LoopedConnection Tid) : Prop := s.2.queue = own s.1.queue

omit [DecidableEq Tid] in
theorem Linked.push (h : Linked s) {f : ConnFunctor} (hx : x.functor = some f) :
    s.2.queue.push f = own (s.1.queue.push x) := by
  rw [h, own_push hx]

omit [DecidableEq Tid] in
/-- Where the next functor is the connection's, both sides agree on it. -/
theorem Linked.next (h : Linked s) (hn : s.1.queue.next = some (x, q)) (hown : s.nextOwn = true) :
    ∃ f, x.functor = some f ∧ s.2.queue.next = some (f, own q) := by
  rw [nextOwn_iff hn] at hown
  obtain ⟨f, hf⟩ := Option.isSome_iff_exists.mp hown
  exact ⟨f, hf, h ▸ own_next hn hf⟩

section Sides

variable {l : LoopLabel (Option ConnFunctor) Tid} {k : ConnLabel Tid}
  {u : EventLoop (Option ConnFunctor) Tid} {v : ThreadedConnection Tid}

theorem Linked.of_left (h : Linked s) (hj : s.together (.left l) = true)
    (hst : s.1.step l = some u) : Linked (u, s.2) := by
  -- `together` is unfolded as a whole: equations for all pairs of patterns would be slow to make
  cases EventLoop.step_cases hst with
  | push f =>
    obtain ⟨rfl, -⟩ : f = none ∧ _ := by simpa [together.eq_def] using hj
    exact h.trans (own_push_other rfl).symm
  | selfPush f =>
    obtain rfl : f = none := by simpa [together.eq_def] using hj
    exact h.trans (own_push_other rfl).symm
  | swap => simp [together.eq_def] at hj
  | call _ hn =>
    simp only [together.eq_def, nextOwn_iff hn, Bool.and_eq_true, Bool.not_eq_true',
      Option.isSome_eq_false_iff, Option.isNone_iff_eq_none] at hj
    exact h.trans (own_next_other hn hj.2).symm
  | _ => exact h

theorem Linked.of_right (h : Linked s) (hj : s.together (.right k) = true)
    (hst : s.2.step k = some v) : Linked (s.1, v) := by
  cases (ThreadedConnection.step_cases hst).2 with
  | pushSend | pushShutdown | pushDestroy | swap | sendInLoop | shutdownInLoop
  | connectDestroyed | dispatch => simp [together.eq_def] at hj
  | userCall u => exact (ThreadedConnection.queue_userCall _ u).trans h
  | destroy => exact (ThreadedConnection.queue_destroyTest _).trans h
  | _ => exact h

theorem Linked.of_both (h : Linked s) (hj : s.together (.both l k) = true)
    (hl : s.1.step l = some u) (hk : s.2.step k = some v) : Linked (u, v) := by
  cases (ThreadedConnection.step_cases hk).2 with
  | pushSend hc | pushShutdown hc =>
    cases EventLoop.step_cases hl with
    | push f =>
      obtain ⟨rfl, rfl⟩ : _ ∧ f = _ := by simpa [together.eq_def, hc, CallerPc.functor?] using hj
      exact h.push rfl
    | _ => simp [together.eq_def] at hj
  | pushDestroy =>
    cases EventLoop.step_cases hl with
    | push f =>
      obtain ⟨rfl, -⟩ : f = _ ∧ _ := by simpa [together.eq_def] using hj
      exact h.push rfl
    | selfPush f =>
      obtain rfl : f = _ := by simpa [together.eq_def] using hj
      exact h.push rfl
    | _ => simp [together.eq_def] at hj
  | swap =>
    cases EventLoop.step_cases hl with
    | swap => exact congrArg FunctorQueue.swap h
    | _ => simp [together.eq_def] at hj
  | sendInLoop _ hn' | shutdownInLoop _ hn' =>
    cases EventLoop.step_cases hl with
    | call _ hn =>
      obtain ⟨f, -, hnext⟩ := h.next hn hj
      exact (Prod.mk.inj (Option.some.inj (hn'.symm.trans hnext))).2
    | _ => simp [together.eq_def] at hj
  | connectDestroyed _ hn' =>
    cases EventLoop.step_cases hl with
    | call _ hn =>
      obtain ⟨f, -, hnext⟩ := h.next hn hj
      have hq := (Prod.mk.inj (Option.some.inj (hn'.symm.trans hnext))).2
      exact (ThreadedConnection.queue_destroyTest _).trans hq
    | _ => simp [together.eq_def] at hj
  | dispatch =>
    cases EventLoop.step_cases hl with
    | handle | handleRead => exact h
    | _ => simp [together.eq_def] at hj
  | _ => cases l <;> simp [together.eq_def] at hj

theorem Linked.step (h : Linked s) (hst : (machine Tid).step s j = some t) : Linked t := by
  obtain ⟨u, v⟩ := t
  cases j with
  | left l =>
    obtain ⟨hj, hl, rfl⟩ := Machine.step_sync_left.mp hst
    exact h.of_left hj hl
  | right k =>
    obtain ⟨hj, rfl, hk⟩ := Machine.step_sync_right.mp hst
    exact h.of_right hj hk
  | both l k =>
    obtain ⟨hj, hl, hk⟩ := Machine.step_sync_both.mp hst
    exact h.of_both hj hl hk

theorem linked (h : (machine Tid).Reachable s) : Linked s := by
  refine h.invariant ?_ fun _ _ _ hs _ hst => hs.step hst
  rintro ⟨u, v⟩ ⟨rfl, c, -, rfl⟩
  rfl

end Sides

/-! ## The connection does not hold up its loop -/

theorem consistent (h : (machine Tid).Reachable s) : EventLoop.Consistent s.1 :=
  EventLoop.consistent (h.mono fun _ _ _ => Machine.both_true).fst

/-- The loop's step, with the connection's part in it. -/
def withConnection (s : LoopedConnection Tid) (w : WriteResult) :
    LoopLabel (Option ConnFunctor) Tid →
      Machine.Joint (LoopLabel (Option ConnFunctor) Tid) (ConnLabel Tid)
  | .swap => .both .swap .swap
  | .call => if s.nextOwn then .both .call (.runFunctor w) else .left .call
  | l => .left l

omit [DecidableEq Tid] in
@[simp] theorem left_withConnection (w : WriteResult) (l : LoopLabel (Option ConnFunctor) Tid) :
    (s.withConnection w l).left? = some l := by
  cases l with
  | call => cases h : s.nextOwn <;> simp [withConnection, h, Machine.Joint.left?]
  | _ => rfl

/-- The loop takes no step of its own while the connection's handlers or callbacks run. -/
theorem idle_of_ofLoop (hst : (machine Tid).step s j = some t)
    {l : LoopLabel (Option ConnFunctor) Tid} (hleft : j.left? = some l) (hl : l.ofLoop = true) :
    s.2.idle := by
  obtain ⟨u, v⟩ := t
  cases j with
  | left l' =>
    obtain rfl := Option.some.inj hleft
    have hj := (Machine.step_sync_left.mp hst).1
    cases l' <;> simp_all [together.eq_def, LoopLabel.ofLoop]
  | right k => contradiction
  | both l' k =>
    obtain rfl := Option.some.inj hleft
    obtain ⟨hj, -, hk⟩ := Machine.step_sync_both.mp hst
    cases (ThreadedConnection.step_cases hk).2 with
    | swap hi | sendInLoop hi | shutdownInLoop hi | connectDestroyed hi | dispatch hi => exact hi
    | _ => cases l' <;> simp_all [together.eq_def, LoopLabel.ofLoop]

/-- After the start of a dispatch its handlers are to be run. -/
theorem after_dispatch {revents : EventMask}
    (hst : (machine Tid).step s (.both .handle (.dispatch revents)) = some t) :
    t.2.todo = TcpConnection.handlers revents ∧ ∃ rest, t.1.pc = .inHandler rest := by
  obtain ⟨u, v⟩ := t
  obtain ⟨hj, hl, hk⟩ := Machine.step_sync_both.mp hst
  have hloop : s.1.step .handle = some u := hl
  cases (ThreadedConnection.step_cases hk).2 with
  | dispatch =>
    cases EventLoop.step_cases hloop with
    | handle => exact ⟨rfl, _, rfl⟩
    | handleRead hpc => simp [together.eq_def, LoopPc.atOther, hpc] at hj

/-- The write handler of a dispatch stays to be run until it runs. -/
theorem write_mem_todo_step (hst : (machine Tid).step s j = some t) (hw : .write ∈ s.2.todo) :
    .write ∈ t.2.todo ∨
      ∃ r w, j = .right (.handler r w) ∧ s.2.todo.head? = some .write := by
  have hconn {k : ConnLabel Tid} {v : ThreadedConnection Tid} (hk : s.2.step k = some v) :
      .write ∈ v.todo ∨ ∃ r w, k = .handler r w ∧ s.2.todo.head? = some .write := by
    cases (ThreadedConnection.step_cases hk).2 with
    | dispatch hi => simp [hi.1] at hw
    | handler htodo =>
      rw [htodo] at hw
      rcases List.mem_cons.mp hw with rfl | hw
      · exact .inr ⟨_, _, rfl, by rw [htodo]; rfl⟩
      · exact .inl hw
    | connectDestroyed | destroy =>
      left
      unfold ThreadedConnection.destroyTest
      split <;> exact hw
    | userCall u =>
      obtain ⟨_, _, _, _, he⟩ := s.2.userCall_eq u
      exact .inl (he ▸ hw)
    | _ => exact .inl hw
  cases j with
  | left l => exact .inl ((Machine.step_sync_left.mp hst).2.2 ▸ hw)
  | right k =>
    refine (hconn (Machine.step_sync_right.mp hst).2.2).imp_right ?_
    rintro ⟨r, w, rfl, hhead⟩
    exact ⟨r, w, rfl, hhead⟩
  | both l k =>
    obtain ⟨hj, -, hk⟩ := Machine.step_sync_both.mp hst
    refine .inl ((hconn hk).resolve_right ?_)
    rintro ⟨r, w, rfl, -⟩
    cases l <;> simp [together.eq_def] at hj

/-! ## What is sent is delivered -/

theorem eq_of_swap {j : Machine.Joint (LoopLabel (Option ConnFunctor) Tid) (ConnLabel Tid)}
    (hj : s.together j = true) (hl : j.left? = some .swap) : j = .both .swap .swap := by
  cases j with
  | left l =>
    obtain rfl := Option.some.inj hl
    simp [together.eq_def] at hj
  | right k => contradiction
  | both l k =>
    obtain rfl := Option.some.inj hl
    cases k with
    | swap => rfl
    | _ => simp [together.eq_def] at hj

/-- The kernel watches the connection's descriptor for write events. -/
def writeAwaited (s : LoopedConnection Tid) : Bool :=
  (s.2.conn.poller.interest s.2.conn.channel_.fd_).any fun i => i.1.has EPOLLOUT

variable {ok : EventLoop (Option ConnFunctor) Tid → LoopLabel (Option ConnFunctor) Tid → Prop}
  {e : (machine Tid).Execution (Machine.Both ok ThreadedConnection.StaysOpen)}

/-- The loop is fair and its polls return, a descriptor that is watched for write events is
reported for them again and again, and then the socket takes some bytes. -/
structure KeepsGoing (e : (machine Tid).Execution (Machine.Both ok ThreadedConnection.StaysOpen)) :
    Prop where
  loop : EventLoop.Fair e.fst
  polls : EventLoop.PollsReturn e.fst
  reports : ∀ n, (∀ m, n ≤ m → (e.state m).writeAwaited = true) →
    ∃ m revents, n ≤ m ∧ e.label m = some (.both .handle (.dispatch revents)) ∧
      revents.has EPOLLOUT = true
  takes : ∀ n r w, e.label n = some (.right (.handler r w)) →
    (e.state n).2.todo.head? = some .write → ∃ k, 0 < k ∧ w = .wrote k

/-- While bytes wait, the kernel watches for write events; they are reported and dispatched, and
the loop does not go on before the write handler has run. -/
theorem KeepsGoing.writes (hgo : KeepsGoing e) {n : ℕ}
    (hwriting : ∀ m, n ≤ m → (e.state m).2.conn.channel_.isWriting = true) :
    ∃ m k, n ≤ m ∧ e.snd.label m = some k ∧ ThreadedConnection.Productive (e.state m).2 k := by
  have hawaited : ∀ m, n ≤ m → (e.state m).writeAwaited = true := by
    intro m hm
    have hopen := (ThreadedConnection.streams (e.snd.reach m)).carries.isOpen
    have hinterest : (e.state m).2.conn.poller.interest (e.state m).2.conn.channel_.fd_ =
        some ((e.state m).2.conn.channel_.events_, (e.state m).2.conn.channel_.addr) :=
      hopen.watched.interest
    rw [writeAwaited, hinterest]
    exact hwriting m hm
  obtain ⟨m, revents, hm, hl, hout⟩ := hgo.reports n hawaited
  have hnext := e.step_of_label hl
  obtain ⟨htodo, rest, hpc⟩ := after_dispatch hnext.2
  have hin : .write ∈ (e.state (m + 1)).2.todo := by
    simp [htodo, TcpConnection.handlers, hout]
  have hawake : EventLoop.Awake (e.fst.state (m + 1)) := by
    have hpc : (e.fst.state (m + 1)).pc = .inHandler rest := hpc
    simp [EventLoop.Awake, hpc]
  obtain ⟨k, l, hk, hleft, hofLoop⟩ := hgo.loop.loop (m + 1) hawake
  have hdone : .write ∉ (e.state k).2.todo := by
    obtain ⟨j, hj, hleft⟩ := Option.bind_eq_some_iff.mp hleft
    have hnext := e.step_of_label hj
    simp [(idle_of_ofLoop hnext.2 hleft hofLoop).1]
  obtain ⟨i, j, hi, hlabel, hst, hbefore, hafter⟩ := Machine.Execution.exists_step (e := e)
    (Q := fun s => .write ∉ s.2.todo) hk (fun h => h hin) hdone
  obtain ⟨r, w, rfl, hhead⟩ := (write_mem_todo_step hst (not_not.mp hbefore)).resolve_left hafter
  obtain ⟨b, hb, rfl⟩ := hgo.takes i r w hlabel hhead
  refine ⟨i, _, by omega, ?_, hhead, r, b, rfl, hb⟩
  simp [Machine.Execution.snd, hlabel, Machine.Joint.right?]

/-- The rounds that the connection needs are those of its loop, for as long as it goes round. -/
theorem KeepsGoing.returns_or_serves (hgo : KeepsGoing e) (n : ℕ) :
    (∃ m, n ≤ m ∧ (e.state m).1.pc = .returned) ∨ ThreadedConnection.KeepsGoing e.snd := by
  by_cases hret : ∃ m, n ≤ m ∧ (e.state m).1.pc = .returned
  · exact .inl hret
  refine .inr ⟨fun k => ?_, fun k => hgo.writes⟩
  obtain ⟨m, hm, hl | hr⟩ := EventLoop.swaps_again hgo.loop hgo.polls (max n k)
  · obtain ⟨j, hj, hleft⟩ := Option.bind_eq_some_iff.mp hl
    have hnext := e.step_of_label hj
    obtain rfl := eq_of_swap (Option.ite_none_right_eq_some.mp hnext.2).1 hleft
    exact ⟨m, le_of_max_le_right hm, by simp [Machine.Execution.snd, hj, Machine.Joint.right?]⟩
  · exact absurd ⟨m, le_of_max_le_left hm, hr⟩ hret

/-- Unless its loop returns, a send that has returned is written in the end, with all that was
sent before it. -/
theorem delivered_eventually (hgo : KeepsGoing e) {n : ℕ} {x : Send}
    (hx : x ∈ (e.state n).2.returned) :
    ∃ m, n ≤ m ∧ ((e.state m).1.pc = .returned ∨ ∃ xs, x ∈ xs ∧ xs <+: (e.state m).2.executed ∧
      xs.flatMap Send.data <+: (e.state m).2.conn.accepted) := by
  rcases hgo.returns_or_serves n with ⟨m, hm, hret⟩ | hserves
  · exact ⟨m, hm, .inl hret⟩
  · obtain ⟨m, xs, hm, h⟩ := hserves.delivered hx
    exact ⟨m, hm, .inr ⟨xs, h⟩⟩

/-- Unless its loop returns, a connection on which `shutdown` has been called is half-closed in
the end, however many sends are still under way. -/
theorem half_closes_eventually (hgo : KeepsGoing e)
    (hqueues : ThreadedConnection.QueuesShutdown e.snd) {n : ℕ}
    (hs : (e.state n).2.conn.state_ = .kDisconnecting) :
    ∃ m, n ≤ m ∧
      ((e.state m).1.pc = .returned ∨ .shutdownWrite ∈ (e.state m).2.conn.effects) := by
  rcases hgo.returns_or_serves n with ⟨m, hm, hret⟩ | hserves
  · exact ⟨m, hm, .inl hret⟩
  · obtain ⟨m, hm, h⟩ := hserves.half_closes hqueues hs
    exact ⟨m, hm, .inr h⟩

/-! ## A loop without work -/

/-- The connection has nothing to do either. -/
structure Resting (c : ThreadedConnection Tid) : Prop where
  alive : c.conn.aborted = none
  idle : c.idle
  empty : c.queue = {}

theorem step_idle (hs : EventLoop.Idling s.1) (hc : Resting s.2)
    {l : LoopLabel (Option ConnFunctor) Tid} (hl : s.1.idleStep = some l) :
    Machine.Both EventLoop.QueuesInLoop ThreadedConnection.StaysOpen s
        (s.withConnection (.wrote 0) l) ∧
      ∃ u, (machine Tid).step s (s.withConnection (.wrote 0) l) = some (u, s.2) ∧
        EventLoop.Idling u := by
  obtain ⟨u, hu, hidle⟩ := hs.step hl
  have hok := EventLoop.queuesInLoop_of_ofLoop (s := s.1) (EventLoop.ofLoop_idleStep hl)
  suffices h : Machine.Both EventLoop.QueuesInLoop ThreadedConnection.StaysOpen s
      (s.withConnection (.wrote 0) l) ∧
      (machine Tid).step s (s.withConnection (.wrote 0) l) = some (u, s.2) from
    ⟨h.1, u, h.2, hidle⟩
  unfold EventLoop.idleStep at hl
  split at hl <;> cases hl
  case h_4 =>
    have hswap : s.2.queue.swap = s.2.queue := by rw [hc.empty, FunctorQueue.swap]
    have hnil : s.2.queue.functors = [] := by rw [hc.empty]
    have hk : s.2.step .swap = some s.2 := by
      simp [ThreadedConnection.step, hc.alive, ThreadedConnection.move,
        ThreadedConnection.loopStep, hc.idle, hnil, hswap]
    exact ⟨⟨trivial, trivial⟩, Machine.step_sync_both.mpr ⟨rfl, hu, hk⟩⟩
  all_goals exact ⟨hok, Machine.step_sync_left.mpr ⟨by simp [together.eq_def, hc.idle], hu, rfl⟩⟩

instance (c : ThreadedConnection Tid) (k : ConnLabel Tid) :
    Decidable (ThreadedConnection.StaysOpen c k) :=
  match k with
  | .handler r _ =>
    inferInstanceAs
      (Decidable ((∀ h ∈ c.todo.head?, h = .read ∨ h = .write) ∧ r ≠ .received []))
  | .runFunctor w => inferInstanceAs (Decidable (w.faults = false))
  | .userCall (.send _ w) => inferInstanceAs (Decidable (w.faults = false))
  | .pushDestroy | .destroy => isFalse id
  | .send .. | .pushSend _ | .shutdown _ | .store _ | .pushShutdown _ | .swap | .dispatch _
  | .userCall .shutdown | .userCall (.retrieve _) | .destroyRest _ => isTrue trivial

set_option maxRecDepth 1000 in
/-- A thread sends two bytes and shuts down while the loop polls. The socket takes the bytes one
by one, and from then on the loop goes round without work. -/
theorem exists_keepsGoing :
    ∃ e : (machine Unit).Execution
        (Machine.Both EventLoop.QueuesInLoop ThreadedConnection.StaysOpen),
      KeepsGoing e ∧ ThreadedConnection.QueuesShutdown e.snd ∧
      (∀ m, (e.state m).1.pc ≠ .returned) ∧
      (e.state 5).2.returned = [⟨0, [104, 105]⟩] ∧ (e.state 5).2.executed = [] ∧
      (e.state 8).2.conn.state_ = .kDisconnecting ∧
      (e.state 8).2.conn.effects = [.connectionCallback true] := by
  have along : (machine Unit).Along
      (Machine.Both EventLoop.QueuesInLoop ThreadedConnection.StaysOpen)
      ({}, { conn := (TcpConnection.new 1 5).connectEstablished [] })
      [.left .enter, .left .resetQuit, .left .testQuit, .right (.send () [104, 105]),
        .both (.push () (some (.sendInLoop ⟨0, [104, 105]⟩))) (.pushSend ()), .left (.wake ()),
        .right (.shutdown ()), .right (.store ()),
        .both (.push () (some .shutdownInLoop)) (.pushShutdown ()), .left (.wake ()),
        .left (.pollReturn [.wakeup]), .left .handle, .left .setCalling, .both .swap .swap,
        .both .call (.runFunctor (.wrote 1)), .left .functorReturns,
        .both .call (.runFunctor (.error EAGAIN)), .left .functorReturns, .left .endBatch,
        .left .testQuit, .left (.pollReturn [.other]), .both .handle (.dispatch EPOLLOUT),
        .right (.handler (.error EAGAIN) (.wrote 1)), .left .handlerReturns] :=
    Machine.along_of_runIf rfl
  have hinit : (machine Unit).init
      ({}, { conn := (TcpConnection.new 1 5).connectEstablished [] }) :=
    ⟨rfl, _, TcpConnection.fresh_new 1 5, rfl⟩
  let I : LoopedConnection Unit → Prop := fun s =>
    EventLoop.Idling s.1 ∧ Resting s.2 ∧ s.2.caller () = .idle ∧
      s.writeAwaited = false
  let e := Machine.Execution.ofRun I
    (fun _ s => s.1.idleStep.map (withConnection s (.wrote 0))) hinit along rfl
    ⟨⟨rfl, ⟨rfl, rfl⟩, fun _ => rfl, rfl⟩, ⟨rfl, ⟨rfl, rfl⟩, rfl⟩, rfl, rfl⟩ (by
      rintro n s j ⟨hidle, hrest⟩ hj
      obtain ⟨l, hl, rfl⟩ := Option.map_eq_some_iff.mp hj
      obtain ⟨hok, u, hu, hidle⟩ := step_idle hidle hrest.1 hl
      exact ⟨hok, (u, s.2), hu, hidle, hrest⟩)
  have hend : ∀ n, 24 ≤ n → I (e.state n) := fun n hn => Machine.Execution.state_ofRun hn
  have hnext : ∀ n, 24 ≤ n → e.fst.label n = (e.state n).1.idleStep := by
    intro n hn
    have hl : e.label n = (e.state n).1.idleStep.map (withConnection (e.state n) (.wrote 0)) :=
      Machine.Execution.label_ofRun hn
    have hleft : e.fst.label n = (e.label n).bind Machine.Joint.left? := rfl
    rw [hleft, hl, Option.bind_map]
    simp
  have hstart : (e.state 5).2.returned = [⟨0, [104, 105]⟩] ∧ (e.state 5).2.executed = [] ∧
      (e.state 8).2.conn.state_ = .kDisconnecting ∧
      (e.state 8).2.conn.effects = [.connectionCallback true] := by
    simp only [e, Machine.Execution.ofRun]
    decide
  have hstays : ∀ m, (e.state m).1.pc ≠ .returned := by
    intro m
    have hmid : ∀ m < 24, (e.state m).1.pc ≠ .returned := by
      simp only [e, Machine.Execution.ofRun]
      decide
    rcases Nat.lt_or_ge m 24 with hm | hm
    · exact hmid m hm
    · exact (hend m hm).1.stays
  refine ⟨e, ⟨⟨?_, ?_⟩, ?_, ?_, ?_⟩, ?_, hstays, hstart⟩
  · intro n _
    rcases Nat.lt_or_ge n 24 with h | h
    · exact ⟨23, _, by omega, rfl, rfl⟩
    · obtain ⟨l, hl⟩ := Option.isSome_iff_exists.mp (hend n h).1.going
      exact ⟨n, l, le_rfl, (hnext n h).trans hl, EventLoop.ofLoop_idleStep hl⟩
  · intro n u hu
    by_cases h₅ : n ≤ 5
    · exact ⟨5, h₅, rfl⟩
    by_cases h₉ : n ≤ 9
    · exact ⟨9, h₉, rfl⟩
    · have hmid : ∀ n < 24, 9 < n → (e.state n).1.thread () = .idle := by
        simp only [e, Machine.Execution.ofRun]
        decide
      rcases Nat.lt_or_ge n 24 with hn | hn
      · exact absurd (hmid n hn (by omega)) hu
      · exact absurd ((hend n hn).1.threads u) hu
  · intro n hn
    by_cases h₁₀ : n ≤ 10
    · exact ⟨10, _, h₁₀, rfl⟩
    by_cases h₂₀ : n ≤ 20
    · exact ⟨20, _, h₂₀, rfl⟩
    · have hmid : ∀ n < 24, 20 < n → (e.state n).1.pc ≠ .polling := by
        simp only [e, Machine.Execution.ofRun]
        decide
      rcases Nat.lt_or_ge n 24 with h | h
      · exact absurd hn (hmid n h (by omega))
      · have hn : (e.state n).1.pc = .polling := hn
        exact ⟨n, [], le_rfl, by rw [hnext n h, EventLoop.idleStep, hn]⟩
  · intro n hw
    have hquiet := (hend (n + 24) (by omega)).2.2.2
    rw [hw (n + 24) (by omega)] at hquiet
    contradiction
  · intro n r w hl hhead
    have hmid : ∀ n < 24, (e.state n).2.todo.head? = some .write → n = 22 := by
      simp only [e, Machine.Execution.ofRun]
      decide
    rcases Nat.lt_or_ge n 24 with hn | hn
    · obtain rfl := hmid n hn hhead
      cases hl
      exact ⟨1, Nat.one_pos, rfl⟩
    · simp [(hend n hn).2.1.idle.1] at hhead
  · intro n u (hu : (e.state n).2.caller u = .queueing)
    by_cases h : n ≤ 8
    · exact ⟨8, h, rfl⟩
    · have hmid : ∀ n < 24, 8 < n → (e.state n).2.caller () ≠ .queueing := by
        simp only [e, Machine.Execution.ofRun]
        decide
      rcases Nat.lt_or_ge n 24 with hn | hn
      · exact absurd hu (hmid n hn (by omega))
      · simp [(hend n hn).2.2.1] at hu

theorem delivered_eventually_while_polling :
    ∃ e : (machine Unit).Execution
        (Machine.Both EventLoop.QueuesInLoop ThreadedConnection.StaysOpen),
      (e.state 5).2.executed = [] ∧ ∃ m, 5 ≤ m ∧ ∃ xs, ⟨0, [104, 105]⟩ ∈ xs ∧
        xs <+: (e.state m).2.executed ∧ xs.flatMap Send.data <+: (e.state m).2.conn.accepted := by
  obtain ⟨e, hgo, -, hstays, hret, hnone, -⟩ := exists_keepsGoing
  obtain ⟨m, hm, h⟩ := delivered_eventually hgo (n := 5) (x := ⟨0, [104, 105]⟩) (by simp [hret])
  exact ⟨e, hnone, m, hm, h.resolve_left (hstays m)⟩

theorem half_closes_eventually_after_drain :
    ∃ e : (machine Unit).Execution
        (Machine.Both EventLoop.QueuesInLoop ThreadedConnection.StaysOpen),
      .shutdownWrite ∉ (e.state 8).2.conn.effects ∧
      ∃ m, 8 ≤ m ∧ .shutdownWrite ∈ (e.state m).2.conn.effects := by
  obtain ⟨e, hgo, hqueues, hstays, -, -, hstate, heff⟩ := exists_keepsGoing
  obtain ⟨m, hm, h⟩ := half_closes_eventually hgo hqueues hstate
  exact ⟨e, by simp [heff], m, hm, h.resolve_left (hstays m)⟩

end LoopedConnection

end Muduo
