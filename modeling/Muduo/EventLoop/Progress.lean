import Muduo.EventLoop.QuitRequest
import Muduo.EventLoop.Wakeup
import Muduo.Library.Fairness

/-!
# Queued functors are called

Safety says where a functor may run; this module says that it does run. A functor waits
for the rest of the batch that is running, for at most one return of `poll`, and for the
functors queued before it. The rank of the loop counts these, in this order: no thread can
push a functor back, and every step of `loop()` itself lowers the rank.

`poll` is no obstacle either: while functors are queued its counter is up, or the thread
that queued one is about to raise it. For the same reason `loop()` comes to its end when
it has been asked to quit.
-/

namespace Muduo

/-- Steps of `loop()` itself, neither of another thread nor of user code. -/
def LoopLabel.ofLoop {F Tid : Type*} : LoopLabel F Tid → Bool
  | .push .. | .wake _ | .storeQuit _ | .join _ | .selfPush _ | .selfTest | .selfWake
  | .selfQuit => false
  | .enter | .resetQuit | .testQuit | .pollReturn _ | .handle | .handlerReturns | .setCalling
  | .swap | .call | .functorReturns | .endBatch => true

def LoopLabel.ofPoll {F Tid : Type*} : LoopLabel F Tid → Bool
  | .pollReturn _ => true
  | _ => false

/-- What is left of the loop thread's own call of `queueInLoop`. -/
def SelfPc.load : SelfPc → ℕ
  | .idle => 0
  | .waking => 1
  | .pushed => 2

/-! ## Batches that come round -/

/-- A functor that waits in a queue is called between the next two swaps of the queue. `P`
is what its call leads to, and it waits as long as there is no `P`. -/
theorem FunctorQueue.eventually_called {State Label F : Type*} {M : Machine State Label}
    {ok : State → Label → Prop} {e : M.Execution ok} {J P : State → Prop}
    (queue : State → FunctorQueue F) (swap : Label → Prop) (f : F)
    (keeps : ∀ s l t, M.Reach ok s → ok s l → M.step s l = some t → J s → J t)
    (waits : ∀ s, M.Reach ok s → J s → ¬ P s → f ∈ (queue s).all)
    (swaps : ∀ s l t, swap l → M.step s l = some t →
      (queue s).functors = [] ∧ queue t = (queue s).swap)
    (batch : ∀ s l t, M.Reach ok s → ok s l → M.step s l = some t → J s → ¬ P s →
      f ∈ (queue s).functors → f ∈ (queue t).functors ∨ P t)
    (rounds : ∀ n, ∃ m l, n ≤ m ∧ e.label m = some l ∧ swap l) {n : ℕ} (hn : J (e.state n)) :
    ∃ m, n ≤ m ∧ P (e.state m) := by
  classical
  refine e.eventually (P := P) (fun _ => swap)
    (fun s => if f ∈ (queue s).functors then 0 else 1) keeps ?_ ?_ hn fun k _ _ => rounds k
  · intro s l t hs _ hst hJ hP _ hl
    obtain ⟨hempty, hqueue⟩ := swaps s l t hl hst
    have hwait := waits s hs hJ hP
    rw [FunctorQueue.all, hempty, List.nil_append] at hwait
    simp [hempty, hqueue, hwait]
  · intro s l t hs hok hst hJ hP hPt
    by_cases hf : f ∈ (queue s).functors
    · have hf' := (batch s l t hs hok hst hJ hP hf).resolve_right hPt
      simp [hf, hf']
    · simp only [hf, if_false]
      split <;> omega

namespace EventLoop

variable {F Tid : Type*}

/-! ## The rank of a loop with `k` functors to call -/

/-- The first `k` functors have left `pendingFunctors_`, or leave it before the next poll. -/
def Taken (k : ℕ) (s : EventLoop F Tid) : Prop :=
  k ≤ s.executed.length + s.queue.functors.length ∨ s.pc.beforeSwap = true

instance (k : ℕ) (s : EventLoop F Tid) : Decidable (s.Taken k) := inferInstanceAs (Decidable (_ ∨ _))

/-- The polls that must return before the first `k` functors can be called. -/
def pollsLeft (k : ℕ) (s : EventLoop F Tid) : ℕ := if s.Taken k then 0 else 1

/-- The steps of `loop()` until `poll` returns or the `k`-th functor is called. -/
def stepsLeft (k : ℕ) (s : EventLoop F Tid) : ℕ :=
  let calls := k - s.executed.length
  match s.pc with
  | .outside => 4
  | .entered => 3
  | .whileTest => 2
  | .polling => 1
  | .dispatching rest => 2 * calls + 5 + 2 * rest.length
  | .inHandler rest => 2 * calls + 6 + 2 * rest.length
  | .swapping => 2 * calls + 4
  | .running => 2 * calls + 3
  | .inFunctor => 2 * calls + 4
  | .returned => 0

def rank (k : ℕ) (s : EventLoop F Tid) : ℕ ×ₗ ℕ := toLex (s.pollsLeft k, s.stepsLeft k)

variable [DecidableEq Tid] {s t : EventLoop F Tid} {l : LoopLabel F Tid} {k : ℕ}

theorem pushes_prefix_step (hst : s.step l = some t) : s.pushes <+: t.pushes := by
  cases step_cases hst with
  | push | selfPush => exact List.prefix_append _ _
  | _ => exact List.prefix_rfl

theorem executed_le_step (hst : s.step l = some t) : s.executed.length ≤ t.executed.length := by
  cases step_cases hst with
  | call => simp
  | _ => exact le_rfl

/-- Called functors are the first ones that were queued. -/
theorem calls_follow_pushes (h : (machine F Tid).Reachable s) :
    s.executed.map Executed.item <+: s.pushes := by
  rw [← pushes_balanced h, List.append_assoc]
  exact List.prefix_append _ _

theorem length_balanced (h : (machine F Tid).Reachable s) :
    s.executed.length + (s.queue.functors.length + s.queue.pendingFunctors_.length) =
      s.pushes.length := by
  simpa using congrArg List.length (pushes_balanced h)

/-- Outside its loop over a batch the loop has no batch. -/
theorem length_functors (h : (machine F Tid).Reachable s) (hr : s.pc ≠ .running)
    (hf : s.pc ≠ .inFunctor) : s.queue.functors.length = 0 := by
  rw [(consistent h).batch hr hf, List.length_nil]

/-- What has been taken is not put back. -/
theorem Taken.step (h : (machine F Tid).Reachable s) (hk : k ≤ s.pushes.length)
    (hs : s.Taken k) (hst : s.step l = some t) : t.Taken k := by
  have hlen := length_balanced h
  have hbatch := length_functors h
  unfold Taken at hs ⊢
  cases step_cases hst with
  | push | wake | storeQuit | join | selfPush | selfTest | selfWake | selfQuit => exact hs
  | enter hpc | resetQuit hpc | goOn hpc | functorReturns hpc | endBatch hpc =>
    exact .inl (hs.resolve_right (by simp [hpc, LoopPc.beforeSwap]))
  | pollReturn | handleRead | handle | handlerReturns | setCalling | leave => exact .inr rfl
  | swap hpc =>
    have hnone := hbatch (by simp [hpc]) (by simp [hpc])
    simp only [FunctorQueue.functors_swap]
    omega
  | call hpc hn =>
    have hle := hs.resolve_right (by simp [hpc, LoopPc.beforeSwap])
    rw [(FunctorQueue.next_eq_some hn).1, List.length_cons] at hle
    simp only [List.length_append, List.length_singleton]
    omega

theorem pollsLeft_step (h : (machine F Tid).Reachable s) (hk : k ≤ s.pushes.length)
    (hst : s.step l = some t) : t.pollsLeft k ≤ s.pollsLeft k := by
  unfold pollsLeft
  by_cases hs : s.Taken k
  · simp [hs, hs.step h hk hst]
  · split <;> omega

/-- A poll that returns is the last one. -/
theorem pollsLeft_pollReturn (h : (machine F Tid).Reachable s) (hst : s.step l = some t)
    (hl : l.ofPoll = true) (hs : s.executed.length < k) : t.pollsLeft k < s.pollsLeft k := by
  have hbatch := length_functors h
  cases step_cases hst with
  | @pollReturn active hpc =>
    have hnone := hbatch (by simp [hpc]) (by simp [hpc])
    have hwait : ¬ s.Taken k := by
      simp only [Taken, hpc, LoopPc.beforeSwap]
      grind
    have htaken : Taken k { s with pc := .dispatching active } := .inr rfl
    rw [pollsLeft, pollsLeft, if_neg hwait, if_pos htaken]
    exact Nat.zero_lt_one
  | _ => simp [LoopLabel.ofPoll] at hl

/-- Every other step of `loop()` is a step towards the call. -/
theorem stepsLeft_step (hst : s.step l = some t) (hl : l.ofLoop = true)
    (hp : l.ofPoll = false) (ht : t.executed.length < k) (hret : t.pc ≠ .returned) :
    t.stepsLeft k < s.stepsLeft k := by
  unfold stepsLeft
  cases step_cases hst with
  | push | wake | storeQuit | join | selfPush | selfTest | selfWake | selfQuit =>
    simp [LoopLabel.ofLoop] at hl
  | leave => exact absurd rfl hret
  | pollReturn => simp [LoopLabel.ofPoll] at hp
  | call hpc =>
    simp only [List.length_append, List.length_singleton] at ht
    simp only [hpc, List.length_append, List.length_singleton]
    omega
  | enter hpc | resetQuit hpc | goOn hpc | setCalling hpc | swap hpc | functorReturns hpc
  | endBatch hpc | handlerReturns hpc => simp [hpc]
  | handleRead hpc =>
    simp only [hpc, List.length_cons, handleRead]
    omega
  | handle hpc =>
    simp only [hpc, List.length_cons]
    omega

theorem rank_of_thread (hst : s.step l = some t) (hl : l.ofLoop = false) :
    t.rank k = s.rank k := by
  cases step_cases hst <;> first | rfl | simp [LoopLabel.ofLoop] at hl

/-- No thread can push a functor back, and every step of `loop()` brings its call nearer. -/
theorem rank_of_loop (h : (machine F Tid).Reachable s) (hk : k ≤ s.pushes.length)
    (hst : s.step l = some t) (hl : l.ofLoop = true) (ht : t.executed.length < k)
    (hret : t.pc ≠ .returned) : t.rank k < s.rank k := by
  have hle := pollsLeft_step h hk hst
  simp only [rank, Prod.Lex.toLex_lt_toLex]
  cases hp : l.ofPoll with
  | true =>
    exact .inl (pollsLeft_pollReturn h hst hp ((executed_le_step hst).trans_lt ht))
  | false =>
    have hlt := stepsLeft_step hst hl hp ht hret
    omega

/-! ## The batch after the push -/

/-- Batches are told apart by the number of swaps before them. -/
structure NextBatch (s : EventLoop F Tid) : Prop where
  pending : ∀ x ∈ s.queue.pendingFunctors_, x.batch = s.swaps
  functors : ∀ x ∈ s.queue.functors, x.batch + 1 = s.swaps
  executed : ∀ e ∈ s.executed, e.batch = e.item.batch + 1

theorem NextBatch.step (h : NextBatch s) (hc : Consistent s) (hst : s.step l = some t) :
    NextBatch t := by
  obtain ⟨hp, hf, he⟩ := h
  cases step_cases hst with
  | push | selfPush => exact ⟨forall_pending_enqueue hp rfl, hf, he⟩
  | swap hpc =>
    have hempty := hc.batch (by simp [hpc]) (by simp [hpc])
    refine ⟨?_, fun x hx => congrArg (· + 1) (hp x hx), he⟩
    simp [hempty]
  | @call f q hpc hn =>
    obtain ⟨hfs, hps⟩ := FunctorQueue.next_eq_some hn
    refine ⟨fun x hx => hp x (hps ▸ hx), fun x hx => hf x (by simp [hfs, hx]), ?_⟩
    intro e hm
    rcases List.mem_append.mp hm with hm | hm
    · exact he e hm
    · obtain rfl := List.mem_singleton.mp hm
      exact (hf f (by simp [hfs])).symm
  | _ => exact ⟨hp, hf, he⟩

theorem nextBatch (h : (machine F Tid).Reachable s) : NextBatch s := by
  have hinv : NextBatch s ∧ Consistent s := by
    refine h.invariant (I := fun s => NextBatch s ∧ Consistent s) ?_ ?_
    · rintro s rfl
      exact ⟨⟨by simp, by simp, by simp⟩, consistent_init⟩
    · rintro s l t ⟨hn, hc⟩ - hst
      exact ⟨hn.step hc hst, hc.step hst⟩
  exact hinv.1

/-- The functors that some state has queued are called once as many have been called. -/
theorem prefix_executed (h : (machine F Tid).Reachable t) (hp : s.pushes <+: t.pushes)
    (hlen : s.pushes.length ≤ t.executed.length) :
    s.pushes <+: t.executed.map Executed.item :=
  List.prefix_of_prefix_length_le hp (calls_follow_pushes h) (by simpa using hlen)

/-- A functor is called in the very next batch. When `poll` has returned twice, everything
queued before has been called, whatever the threads did in between. -/
theorem called_in_next_batch (h : (machine F Tid).Reachable s) {ls : List (LoopLabel F Tid)}
    (hrun : (machine F Tid).run s ls = some t) :
    (∀ e ∈ t.executed, e.batch = e.item.batch + 1) ∧
      (2 ≤ ls.countP LoopLabel.ofPoll → s.pushes <+: t.executed.map Executed.item) := by
  have along := Machine.along_true (M := machine F Tid) s ls
  have ht : (machine F Tid).Reachable t := h.run along hrun
  refine ⟨(nextBatch ht).executed, ?_⟩
  intro htwo
  have hpushes : s.pushes <+: t.pushes :=
    Machine.run_invariant (I := fun u => s.pushes <+: u.pushes)
      (fun _ _ _ hu hst => hu.trans (pushes_prefix_step hst)) List.prefix_rfl hrun
  refine prefix_executed ht hpushes ?_
  by_contra hwait
  have hle : ls.countP LoopLabel.ofPoll + t.pollsLeft s.pushes.length ≤
      s.pollsLeft s.pushes.length := by
    refine Machine.countP_add_rank_le
      (J := fun u => (machine F Tid).Reachable u ∧ s.pushes.length ≤ u.pushes.length)
      (P := fun u => s.pushes.length ≤ u.executed.length) LoopLabel.ofPoll
      (pollsLeft s.pushes.length) ?_ ?_ ?_ ?_ ⟨h, le_rfl⟩ along hrun hwait
    · intro u l v hu hok hst
      exact ⟨.step l hu.1 hok hst, hu.2.trans (pushes_prefix_step hst).length_le⟩
    · exact fun u l v _ _ hst hu => hu.trans (executed_le_step hst)
    · exact fun u l v hu hst hn hl => pollsLeft_pollReturn hu.1 hst hl (by omega)
    · exact fun u l v hu hst _ => pollsLeft_step hu.1 hu.2 hst
  have hone : s.pollsLeft s.pushes.length ≤ 1 := by
    unfold pollsLeft
    split <;> omega
  omega

/-- Two threads queue functors while batches run. -/
theorem called_in_next_batch_late_pushes :
    ∃ s t : EventLoop String Nat, (machine String Nat).Reachable s ∧
      (machine String Nat).run s
        [.wake 0, .functorReturns, .endBatch, .testQuit, .pollReturn [.wakeup], .handle,
          .setCalling, .swap, .push 1 "c", .call, .functorReturns, .endBatch, .testQuit,
          .wake 1, .pollReturn [.wakeup]] = some t ∧
      s.pushes.map Queued.functor = ["a", "b"] ∧
      (∀ e ∈ t.executed, e.batch = e.item.batch + 1) ∧
      s.pushes <+: t.executed.map Executed.item := by
  obtain ⟨s, hs, hreach⟩ : ∃ s : EventLoop String Nat, (machine String Nat).run {}
      [.enter, .resetQuit, .testQuit, .push 0 "a", .wake 0, .pollReturn [], .setCalling, .swap,
        .call, .push 0 "b"] = some s ∧ (machine String Nat).Reachable s :=
    Machine.exists_run rfl rfl fun _ _ h => h
  obtain rfl := Option.some.inj hs
  have hrun := called_in_next_batch hreach (show (machine String Nat).run _
    [.wake 0, .functorReturns, .endBatch, .testQuit, .pollReturn [.wakeup], .handle,
      .setCalling, .swap, .push 1 "c", .call, .functorReturns, .endBatch, .testQuit, .wake 1,
      .pollReturn [.wakeup]] = some _ from rfl)
  exact ⟨_, _, hreach, rfl, rfl, hrun.1, hrun.2 (by decide)⟩

/-! ## Fair executions -/

/-- The loop's thread has something to do. It waits in `poll` only while the counter is zero. -/
def Awake (s : EventLoop F Tid) : Prop :=
  s.pc ≠ .returned ∧ (s.pc = .polling → 0 < s.wakeupFd_)

variable {ok : EventLoop F Tid → LoopLabel F Tid → Prop} {e : (machine F Tid).Execution ok}

/-- The loop's thread goes on with `loop()` while it is awake, so handlers and functors
return; and a thread that is inside `queueInLoop` or `quit` gets to its `wakeup()`. -/
structure Fair (e : (machine F Tid).Execution ok) : Prop where
  loop : ∀ n, Awake (e.state n) → ∃ m l, n ≤ m ∧ e.label m = some l ∧ l.ofLoop = true
  wake : ∀ n u, (e.state n).thread u ≠ .idle → ∃ m, n ≤ m ∧ e.label m = some (.wake u)

/-- A loop that sleeps goes on where someone is about to wake it up. -/
theorem Fair.goes_on (hfair : Fair e) {n : ℕ} (hret : ∀ m, n ≤ m → (e.state m).pc ≠ .returned)
    (hwoken : (e.state n).pc = .polling →
      0 < (e.state n).wakeupFd_ ∨ ∃ u, (e.state n).thread u ≠ .idle) :
    ∃ m l, n ≤ m ∧ e.label m = some l ∧ l.ofLoop = true := by
  by_cases hawake : Awake (e.state n)
  · exact hfair.loop n hawake
  have hasleep : (e.state n).pc = .polling ∧ (e.state n).wakeupFd_ = 0 := by
    have := hret n le_rfl
    grind [Awake]
  obtain ⟨u, hu⟩ := (hwoken hasleep.1).resolve_left (by omega)
  obtain ⟨m, hnm, hm⟩ := hfair.wake n u hu
  -- whatever else happened in the meantime, the loop is awake after the write
  have hup : Awake (e.state (m + 1)) := by
    have hnext := e.step_of_label hm
    have hst : (e.state m).step (.wake u) = some (e.state (m + 1)) := hnext.2
    obtain ⟨-, hstate⟩ := Option.ite_none_right_eq_some.mp hst
    refine ⟨hret _ (by omega), fun _ => ?_⟩
    rw [← Option.some.inj hstate]
    exact signal_pos _
  obtain ⟨i, l, hi, hl⟩ := hfair.loop (m + 1) hup
  exact ⟨i, l, by omega, hl⟩

/-- Where functors wait and the loop sleeps, a thread is about to wake it up. -/
theorem woken_of_waiting (h : (machine F Tid).Reach QueuesInLoop s)
    (hwait : s.executed.length < s.pushes.length) (hpoll : s.pc = .polling) :
    0 < s.wakeupFd_ ∨ ∃ u, s.thread u ≠ .idle := by
  have hqueued : s.queue.pendingFunctors_ ≠ [] := by
    have hlen := length_balanced h.reachable
    have hbatch := length_functors h.reachable (by simp [hpoll]) (by simp [hpoll])
    rw [← List.length_pos_iff]
    omega
  have hwoken := (announced h).woken (consistent h.reachable) hpoll hqueued
  exact hwoken.imp_right fun ⟨u, hu⟩ => ⟨u, by simp [hu]⟩

/-- Every functor is called in the end, unless the loop returns. -/
theorem called_eventually {e : (machine F Tid).Execution QueuesInLoop} (hfair : Fair e) (n : ℕ) :
    ∃ m, n ≤ m ∧ ((e.state n).pushes <+: (e.state m).executed.map Executed.item ∨
      (e.state m).pc = .returned) := by
  have hpushes : ∀ m, n ≤ m → (e.state n).pushes <+: (e.state m).pushes := by
    intro m hm
    exact e.stays (J := fun s => (e.state n).pushes <+: s.pushes)
      (fun _ _ _ _ _ hst hs => hs.trans (pushes_prefix_step hst)) hm List.prefix_rfl
  obtain ⟨m, hm, hdone⟩ : ∃ m, n ≤ m ∧
      ((e.state n).pushes.length ≤ (e.state m).executed.length ∨ (e.state m).pc = .returned) := by
    refine e.eventually (J := fun s => (e.state n).pushes.length ≤ s.pushes.length)
      (P := fun s => (e.state n).pushes.length ≤ s.executed.length ∨ s.pc = .returned)
      (fun _ l => l.ofLoop = true) (rank (e.state n).pushes.length) ?_ ?_ ?_ le_rfl ?_
    · exact fun _ _ _ _ _ hst hs => hs.trans (pushes_prefix_step hst).length_le
    · intro s l t hs _ hst hk _ ht hl
      exact rank_of_loop hs.reachable hk hst hl (by grind) (by grind)
    · intro s l t hs _ hst hk _ ht
      cases hl : l.ofLoop with
      | true => exact (rank_of_loop hs.reachable hk hst hl (by grind) (by grind)).le
      | false => exact (rank_of_thread hst hl).le
    · intro k hk hnever
      have hret : ∀ m, k ≤ m → (e.state m).pc ≠ .returned :=
        fun m hm h => hnever m (hk.trans hm) (.inr h)
      have hlen := (hpushes k hk).length_le
      exact hfair.goes_on hret (woken_of_waiting (e.reach k) (by have := hnever k hk; omega))
  refine ⟨m, hm, hdone.imp_left fun hle => ?_⟩
  exact prefix_executed (e.reach m).reachable (hpushes m hm) hle

/-- A thread queues a functor and quits while the loop polls. The loop is fair up to its
return, and then it need not do anything. -/
theorem exists_fair :
    ∃ e : (machine String Unit).Execution QueuesInLoop, Fair e ∧
      (e.state 6).pushes.map Queued.functor = ["work"] ∧ (e.state 6).pc = .polling ∧
      (e.state 6).quit_ = true := by
  have along : (machine String Unit).Along QueuesInLoop {}
      [.enter, .resetQuit, .testQuit, .push () "work", .wake (), .storeQuit (), .wake (),
        .pollReturn [.wakeup], .handle, .setCalling, .swap, .call, .functorReturns, .endBatch,
        .testQuit] :=
    Machine.along_of_forall (by simp [QueuesInLoop])
  let I : EventLoop String Unit → Prop := fun u => u.pc = .returned ∧ u.thread () = .idle
  let e := Machine.Execution.ofRun I (fun _ _ => none) rfl along rfl ⟨rfl, rfl⟩ (by simp)
  have hend : ∀ n, 15 ≤ n → I (e.state n) := fun n hn => Machine.Execution.state_ofRun (I := I) hn
  refine ⟨e, ⟨?_, ?_⟩, rfl, rfl, rfl⟩
  · intro n hn
    by_cases h : n ≤ 14
    · exact ⟨14, _, h, rfl, rfl⟩
    · exact absurd (hend n (by omega)).1 hn.1
  · intro n u hu
    by_cases h : n ≤ 6
    · exact ⟨6, h, rfl⟩
    · have hidle : ∀ n < 15, 6 < n → (e.state n).thread () = .idle := by
        simp only [e, Machine.Execution.ofRun]
        decide
      rcases Nat.lt_or_ge n 15 with hn | hn
      · exact absurd (hidle n hn (by omega)) hu
      · exact absurd (hend n hn).2 hu

theorem called_eventually_polling :
    ∃ e : (machine String Unit).Execution QueuesInLoop,
      (e.state 6).pushes.map Queued.functor = ["work"] ∧
      ∃ m, 6 ≤ m ∧ ((e.state 6).pushes <+: (e.state m).executed.map Executed.item ∨
        (e.state m).pc = .returned) := by
  obtain ⟨e, hfair, hpushes, -, -⟩ := exists_fair
  exact ⟨e, hpushes, called_eventually hfair 6⟩

/-! ## The end of `loop()` -/

/-- A loop that was asked to quit does not sleep on. -/
def QuitAnnounced (s : EventLoop F Tid) : Prop :=
  s.quit_ = true → s.pc = .polling → 0 < s.wakeupFd_ ∨ ∃ u, s.thread u ≠ .idle

theorem QuitAnnounced.step (h : QuitAnnounced s) (hst : s.step l = some t) : QuitAnnounced t := by
  cases step_cases hst with
  | @push u | @storeQuit u => exact fun _ _ => .inr ⟨u, by simp [setThread]⟩
  | wake | selfWake => exact fun _ _ => .inl (signal_pos _)
  | join | selfTest => exact h
  | selfPush f hu =>
    intro _ (hpoll : s.pc = .polling)
    simp [hpoll, LoopPc.userCode] at hu
  | selfQuit hu =>
    intro _ (hpoll : s.pc = .polling)
    simp [hpoll, LoopPc.userCode] at hu
  | goOn _ hq => exact fun hq' => absurd hq' (by simp [hq])
  | _ => exact fun _ hpoll => absurd hpoll (by simp)

theorem quitAnnounced (h : (machine F Tid).Reachable s) : QuitAnnounced s := by
  refine h.invariant ?_ fun _ _ _ hs _ hst => hs.step hst
  rintro s rfl hq
  contradiction

/-- How far a loop that does not poll again is from its end. -/
def endRank (s : EventLoop F Tid) : ℕ ×ₗ ℕ :=
  match s.pc with
  | .polling => toLex (3, 0)
  | .dispatching rest => toLex (2, 2 * rest.length)
  | .inHandler rest => toLex (2, 2 * rest.length + 1)
  | .swapping => toLex (1, 0)
  | .running => toLex (0, 2 * s.queue.functors.length + 1)
  | .inFunctor => toLex (0, 2 * s.queue.functors.length + 2)
  | .outside | .entered | .whileTest | .returned => toLex (0, 0)

theorem endRank_of_thread (hst : s.step l = some t) (hl : l.ofLoop = false) :
    t.endRank = s.endRank := by
  cases step_cases hst <;> first | rfl | simp [LoopLabel.ofLoop] at hl

theorem endRank_of_loop (hst : s.step l = some t) (hl : l.ofLoop = true) (hq : s.quit_ = true)
    (hp : s.pc.pastReset = true) (hret : t.pc ≠ .returned) : t.endRank < s.endRank := by
  unfold endRank
  cases step_cases hst with
  | push | wake | storeQuit | join | selfPush | selfTest | selfWake | selfQuit =>
    simp [LoopLabel.ofLoop] at hl
  | leave => exact absurd rfl hret
  | goOn _ hq' => simp [hq] at hq'
  | enter hpc | resetQuit hpc => simp [hpc, LoopPc.pastReset] at hp
  | call hpc hn =>
    simp only [hpc, (FunctorQueue.next_eq_some hn).1, List.length_cons]
    exact Prod.Lex.toLex_lt_toLex.mpr (.inr ⟨rfl, by simp only; omega⟩)
  | handle hpc =>
    simp only [hpc, List.length_cons]
    exact Prod.Lex.toLex_lt_toLex.mpr (.inr ⟨rfl, by simp only; omega⟩)
  | _ => simp [*, Prod.Lex.toLex_lt_toLex]

/-- A loop that has been asked to quit, by whichever thread, comes to its end. -/
theorem quit_ends_loop (hfair : Fair e) {n : ℕ} (hq : (e.state n).quit_ = true)
    (hp : (e.state n).pc.pastReset = true) : ∃ m, n ≤ m ∧ (e.state m).pc = .returned := by
  have hkeeps : ∀ s l t, (machine F Tid).Reach ok s → ok s l →
      (machine F Tid).step s l = some t → s.quit_ = true ∧ s.pc.pastReset = true →
      t.quit_ = true ∧ t.pc.pastReset = true := by
    intro s l t _ _ hst hs
    obtain ⟨hp, hq⟩ := quit_stays hst hs.2
    exact ⟨hq hs.1, hp⟩
  refine e.eventually (P := fun s => s.pc = .returned) (fun _ l => l.ofLoop = true) endRank hkeeps
    ?_ ?_ ⟨hq, hp⟩ ?_
  · intro s l t _ _ hst hs _ ht hl
    exact endRank_of_loop hst hl hs.1 hs.2 ht
  · intro s l t _ _ hst hs _ ht
    cases hl : l.ofLoop with
    | true => exact (endRank_of_loop hst hl hs.1 hs.2 ht).le
    | false => exact (endRank_of_thread hst hl).le
  · intro k hk hnever
    obtain ⟨hq, -⟩ := e.stays hkeeps hk ⟨hq, hp⟩
    exact hfair.goes_on (fun m hm => hnever m (hk.trans hm))
      (quitAnnounced (e.reach k).reachable hq)

theorem quit_ends_loop_polling :
    ∃ e : (machine String Unit).Execution QueuesInLoop,
      (e.state 6).pc = .polling ∧ (e.state 6).quit_ = true ∧
      ∃ m, 6 ≤ m ∧ (e.state m).pc = .returned := by
  obtain ⟨e, hfair, -, hpc, hq⟩ := exists_fair
  exact ⟨e, hpc, hq, quit_ends_loop hfair hq (by rw [hpc]; rfl)⟩

/-! ## Draining the queue -/

/-- Steps with which the program finishes what it has begun: no functor is queued any more,
nobody quits, and `poll` returns for `wakeupFd_` alone and not because its time is up. -/
def Unaided (_ : EventLoop F Tid) : LoopLabel F Tid → Prop
  | .push .. | .storeQuit _ | .join _ | .selfPush _ | .selfQuit | .enter => False
  | .pollReturn active => active = [.wakeup]
  | .wake _ | .selfTest | .selfWake | .resetQuit | .testQuit | .handle | .handlerReturns
  | .setCalling | .swap | .call | .functorReturns | .endBatch => True

instance (s : EventLoop F Tid) : DecidablePred (Unaided s)
  | .push .. | .storeQuit _ | .join _ | .selfPush _ | .selfQuit | .enter => instDecidableFalse
  | .pollReturn active => instDecidableEqList active [.wakeup]
  | .wake _ | .selfTest | .selfWake | .resetQuit | .testQuit | .handle | .handlerReturns
  | .setCalling | .swap | .call | .functorReturns | .endBatch => instDecidableTrue

theorem pushes_unaided (hst : s.step l = some t) (hl : Unaided s l) : t.pushes = s.pushes := by
  cases step_cases hst with
  | push | selfPush => exact hl.elim
  | _ => rfl

/-- The loop is inside `loop()` and does not leave it at its next test. -/
structure Looping (s : EventLoop F Tid) : Prop where
  entered : s.pc ≠ .outside
  stays : s.pc ≠ .returned
  goes_on : s.pc ≠ .entered → s.quit_ = false

theorem Looping.step (h : Looping s) (hst : s.step l = some t) (hl : Unaided s l) : Looping t := by
  obtain ⟨he, hs, hq⟩ := h
  cases step_cases hst with
  | push | storeQuit | join | selfPush | selfQuit | enter => exact hl.elim
  | wake | selfTest | selfWake => exact ⟨he, hs, hq⟩
  | resetQuit => exact ⟨by simp, by simp, fun _ => rfl⟩
  | leave hpc h => exact absurd (hq (by simp [hpc])) (by simp [h])
  | goOn hpc | pollReturn hpc | handleRead hpc | handle hpc | handlerReturns hpc | setCalling hpc
  | swap hpc | call hpc | functorReturns hpc | endBatch hpc =>
    exact ⟨by simp, by simp, fun _ => hq (by simp [hpc])⟩

/-- What an unaided loop still has to do to drain its queue. -/
def load (s : EventLoop F Tid) : ℕ :=
  let p := 4 * s.queue.pendingFunctors_.length
  let f := 4 * s.queue.functors.length
  let lap := if s.queue.pendingFunctors_ = [] then 0 else p + 10
  match s.pc with
  | .entered => p + 10
  | .whileTest => p + 9
  | .polling => p + 7 + if s.wakeupFd_ = 0 then 1 else 0
  | .dispatching rest => p + 2 + 4 * rest.length
  | .inHandler rest => p + 3 + 4 * rest.length + s.self.load
  | .swapping => p + 1
  | .running => lap + f
  | .inFunctor => lap + f + 1 + s.self.load
  | .outside | .returned => 0

/-- The loop thread's own call of `queueInLoop` goes on to its end. -/
theorem self_unaided (hu : s.pc.userCode = true) (hloop : Looping s) (hself : s.self ≠ .idle) :
    ∃ l t, (machine F Tid).step s l = some t ∧ Unaided s l ∧ t.load < s.load := by
  have hpc : (∃ rest, s.pc = .inHandler rest) ∨ s.pc = .inFunctor := by
    have := hloop.entered
    have := hloop.stays
    cases h : s.pc <;> simp_all [LoopPc.userCode]
  cases hs : s.self with
  | idle => exact absurd hs hself
  | pushed =>
    refine ⟨.selfTest, _, if_pos hs, trivial, ?_⟩
    have hle : (if s.callingPendingFunctors_ then SelfPc.waking else .idle).load ≤ 1 := by
      split <;> simp [SelfPc.load]
    have htwo : SelfPc.pushed.load = 2 := rfl
    rcases hpc with ⟨rest, hpc⟩ | hpc <;> simp only [load, hpc, hs] <;> omega
  | waking =>
    refine ⟨.selfWake, _, if_pos hs, trivial, ?_⟩
    rcases hpc with ⟨rest, hpc⟩ | hpc <;> simp [load, hpc, hs, SelfPc.load, wakeup]

/-- An unaided loop with functors queued has a step, and the step brings it nearer to its
goal. -/
theorem load_unaided (hc : Consistent s) (ha : Announced s) (hloop : Looping s)
    (hwait : s.queue.all ≠ []) :
    ∃ l t, (machine F Tid).step s l = some t ∧ Unaided s l ∧ t.load < s.load := by
  by_cases hself : s.self = .idle
  case neg => exact self_unaided (hc.self hself) hloop hself
  have hnone : s.pc ≠ .running → s.pc ≠ .inFunctor → s.queue.functors = [] := hc.batch
  have hpending : s.queue.functors = [] → s.queue.pendingFunctors_ ≠ [] := by
    intro hf hp
    exact hwait (by simp [FunctorQueue.all, hf, hp])
  cases hpc : s.pc with
  | outside => exact absurd hpc hloop.entered
  | returned => exact absurd hpc hloop.stays
  | entered => exact ⟨.resetQuit, _, if_pos hpc, trivial, by simp [load, hpc]⟩
  | whileTest =>
    have hq := hloop.goes_on (by simp [hpc])
    refine ⟨.testQuit, { s with pc := .polling }, ?_, trivial, ?_⟩
    · simp [machine, step, loopStep, hpc, hq]
    · simp only [load, hpc]
      split <;> omega
  | polling =>
    have hqueued := hpending (hnone (by simp [hpc]) (by simp [hpc]))
    by_cases hup : 0 < s.wakeupFd_
    · refine ⟨.pollReturn [.wakeup], _, if_pos ⟨hpc, fun _ => hup⟩, rfl, ?_⟩
      simp only [load, hpc, List.length_singleton]
      omega
    · obtain ⟨u, hu⟩ := (ha.woken hc hpc hqueued).resolve_left hup
      refine ⟨.wake u, _, if_pos (by simp [hu]), trivial, ?_⟩
      have hpos := signal_pos s.wakeupFd_
      simp only [load, hpc, setThread, wakeup]
      grind
  | dispatching rest =>
    cases rest with
    | nil => exact ⟨.setCalling, _, if_pos hpc, trivial, by simp [load, hpc]⟩
    | cons a rest =>
      cases a with
      | wakeup =>
        refine ⟨.handle, { s.handleRead with pc := .dispatching rest }, ?_, trivial, ?_⟩
        · simp [machine, step, loopStep, hpc]
        · simp [load, hpc]
      | other =>
        refine ⟨.handle, { s with pc := .inHandler rest }, ?_, trivial, ?_⟩
        · simp [machine, step, loopStep, hpc]
        · simp only [load, hpc, hself, SelfPc.load, List.length_cons]
          omega
  | inHandler rest =>
    refine ⟨.handlerReturns, { s with pc := .dispatching rest }, ?_, trivial, ?_⟩
    · simp [machine, step, loopStep, hpc, hself]
    · simp only [load, hpc]
      omega
  | swapping =>
    refine ⟨.swap, _, if_pos hpc, trivial, ?_⟩
    simp [load, hpc, hnone (by simp [hpc]) (by simp [hpc])]
  | running =>
    cases hf : s.queue.functors with
    | nil =>
      refine ⟨.endBatch, _, if_pos ⟨hpc, hf⟩, trivial, ?_⟩
      simp [load, hpc, hf, hpending hf]
    | cons f fs =>
      have hnext : s.queue.next = some (f, { s.queue with functors := fs }) := by
        simp [FunctorQueue.next, hf]
      refine ⟨.call, { s with
        queue := { s.queue with functors := fs }
        executed := s.executed ++ [⟨f, s.swaps, none⟩]
        pc := .inFunctor }, ?_, trivial, ?_⟩
      · simp [machine, step, loopStep, hnext, hpc]
      · simp only [load, hpc, hf, hself, SelfPc.load, List.length_cons]
        omega
  | inFunctor =>
    refine ⟨.functorReturns, _, if_pos ⟨hpc, hself⟩, trivial, ?_⟩
    simp only [load, hpc]
    omega

/-- From wherever it stands inside `loop()`, the program can call all functors that are
queued without any event from outside and without waiting for the time of a poll to be up. Only
what the loop's own thread has queued before `loop()` may have to wait for the first poll. -/
theorem drains (h : (machine F Tid).Reachable s) (hloop : Looping s)
    (hann : (machine F Tid).Reach QueuesInLoop s ∨ 0 < s.swaps) :
    ((machine F Tid).within Unaided).Leads s fun t => t.executed.map Executed.item = s.pushes := by
  have ha : Announced s := hann.elim announced (announced_of_swapped h)
  have hlead := Machine.leads_of_rank (M := (machine F Tid).within Unaided)
    (J := fun t => (machine F Tid).Reachable t ∧ Announced t ∧ Looping t ∧ t.pushes = s.pushes)
    (P := fun t => t.queue.all = []) load ?_ ⟨h, ha, hloop, rfl⟩
  · refine hlead.mono fun t ⟨⟨ht, _, _, hp⟩, hempty⟩ => ?_
    rw [← hp, ← pushes_balanced ht, List.append_assoc]
    simpa [FunctorQueue.all] using hempty
  · rintro u ⟨hu, ha, hloop, hp⟩ hwait
    have hc := consistent hu
    obtain ⟨l, t, hst, hl, hlt⟩ := load_unaided hc ha hloop hwait
    have hok : QueuesInLoop u l := by
      cases l <;> trivial
    exact ⟨l, t, Machine.step_within.mpr ⟨hl, hst⟩,
      ⟨.step l hu trivial hst, ha.step hc hok hst, hloop.step hst hl,
        (pushes_unaided hst hl).trans hp⟩, hlt⟩

/-- The loop has gone back to sleep with a functor queued whose thread has not written yet. -/
theorem drains_late_push :
    ∃ s : EventLoop String Nat, (machine String Nat).Reach QueuesInLoop s ∧ Looping s ∧
      s.pc = .polling ∧ s.wakeupFd_ = 0 ∧ s.pushes.map Queued.functor = ["a", "b"] ∧
      ((machine String Nat).within Unaided).Leads s fun t =>
        t.executed.map Executed.item = s.pushes := by
  obtain ⟨s, hs, hreach⟩ : ∃ s : EventLoop String Nat, (machine String Nat).runIf QueuesInLoop {}
      [.enter, .resetQuit, .testQuit, .push 0 "a", .wake 0, .pollReturn [.wakeup], .handle,
        .setCalling, .swap, .call, .push 1 "b", .functorReturns, .endBatch, .testQuit] = some s ∧
      (machine String Nat).Reach QueuesInLoop s :=
    Machine.exists_runIf rfl rfl fun _ _ h => h
  have hloop : Looping s := by
    obtain rfl := Option.some.inj hs
    exact ⟨by decide, by decide, fun _ => rfl⟩
  obtain rfl := Option.some.inj hs
  exact ⟨_, hreach, hloop, rfl, rfl, rfl, drains hreach.reachable hloop (.inl hreach)⟩

end EventLoop

end Muduo
