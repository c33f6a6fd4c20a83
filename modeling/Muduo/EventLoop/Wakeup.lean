import Muduo.EventLoop.Order

/-!
# No wakeup is lost

A functor in `pendingFunctors_` while the loop sleeps would wait for the poll timeout.
What prevents it: the counter of `wakeupFd_` is drained only on the way to a swap, and a
push that comes too late for the swap is followed by a write to it.
-/

namespace Muduo

/-- The loop takes the queue before it polls again, or it never polls again. -/
def LoopPc.beforeSwap : LoopPc → Bool
  | .dispatching _ | .inHandler _ | .swapping | .returned => true
  | .outside | .entered | .whileTest | .polling | .running | .inFunctor => false

/-- Of the places where user code runs in the loop, only a functor comes after the swap. -/
theorem LoopPc.eq_inFunctor {pc : LoopPc} (hu : pc.userCode = true) (hb : pc.beforeSwap = false)
    (ho : pc ≠ .outside) : pc = .inFunctor := by
  cases pc <;> grind [userCode, beforeSwap]

namespace EventLoop

variable {F Tid : Type*}

/-- The counter is up, or someone is about to write to it. -/
def Alarmed (s : EventLoop F Tid) : Prop :=
  0 < s.wakeupFd_ ∨ (∃ t, s.thread t = .inQueueInLoop) ∨
    (s.self ≠ .idle ∧ s.callingPendingFunctors_ = true)

/-- Where the next poll comes before the next swap, a queued functor is announced. -/
def Announced (s : EventLoop F Tid) : Prop :=
  s.pc.beforeSwap = false → s.queue.pendingFunctors_ ≠ [] → Alarmed s

/-- The loop thread queues from handlers and functors, not before `loop()`. -/
def QueuesInLoop (s : EventLoop F Tid) : LoopLabel F Tid → Prop
  | .selfPush _ => s.pc ≠ .outside
  | _ => True

instance (s : EventLoop F Tid) (l : LoopLabel F Tid) : Decidable (QueuesInLoop s l) :=
  match l with
  | .selfPush _ => inferInstanceAs (Decidable (s.pc ≠ .outside))
  | .push .. | .wake _ | .storeQuit _ | .join _ | .selfTest | .selfWake | .selfQuit | .enter
  | .resetQuit | .testQuit | .pollReturn _ | .handle | .handlerReturns | .setCalling | .swap
  | .call | .functorReturns | .endBatch => isTrue trivial

variable [DecidableEq Tid] {s t : EventLoop F Tid} {l : LoopLabel F Tid}

/-- A thread inside `queueInLoop` stays there when another one moves. -/
theorem inQueueInLoop_setThread {u : Tid} {pc : ThreadPc} (hu : s.thread u = .idle)
    (h : ∃ t, s.thread t = .inQueueInLoop) :
    ∃ t, (s.setThread u pc).thread t = .inQueueInLoop := by
  obtain ⟨t, ht⟩ := h
  have hne : t ≠ u := by
    rintro rfl
    simp [hu] at ht
  exact ⟨t, by simp [setThread, hne, ht]⟩

theorem Announced.step (h : Announced s) (hc : Consistent s) (hok : QueuesInLoop s l)
    (hst : s.step l = some t) : Announced t := by
  cases step_cases hst with
  | @push u f => exact fun _ _ => .inr (.inl ⟨u, by simp [setThread]⟩)
  | wake | selfWake => exact fun _ _ => .inl (signal_pos _)
  | storeQuit hu =>
    intro hpc hne
    rcases h hpc hne with ha | ha | ha
    · exact .inl ha
    · exact .inr (.inl (inQueueInLoop_setThread hu ha))
    · exact .inr (.inr ha)
  | selfPush f hu =>
    intro hpc _
    exact .inr (.inr ⟨by simp, hc.calling (.inr (.inr (LoopPc.eq_inFunctor hu hpc hok)))⟩)
  | selfTest hp =>
    intro hpc hne
    by_cases hcall : s.callingPendingFunctors_ = true
    · exact .inr (.inr ⟨by simp [hcall], hcall⟩)
    · rcases h hpc hne with ha | ha | ⟨-, ha⟩
      · exact .inl ha
      · exact .inr (.inl ha)
      · exact absurd ha hcall
  | enter hpc | resetQuit hpc | goOn hpc | functorReturns hpc | endBatch hpc =>
    exact fun _ hne => h (by simp [hpc, LoopPc.beforeSwap]) hne
  | call hpc hn =>
    intro _ hne
    rw [(FunctorQueue.next_eq_some hn).2] at hne
    exact h (by simp [hpc, LoopPc.beforeSwap]) hne
  | swap hpc =>
    intro _ hne
    exact absurd (hc.batch (by simp [hpc]) (by simp [hpc])) hne
  | join | selfQuit => exact h
  | _ => exact fun hpc => by simp [LoopPc.beforeSwap] at hpc

/-- Where the loop's own pushes are made inside `loop()`, whatever is queued is announced. -/
theorem announced (h : (machine F Tid).Reach QueuesInLoop s) : Announced s := by
  have hinv : Announced s ∧ Consistent s := by
    refine h.invariant (I := fun s => Announced s ∧ Consistent s) ?_ ?_
    · rintro s rfl
      exact ⟨fun _ hne => absurd rfl hne, consistent_init⟩
    · rintro s l t ⟨ha, hc⟩ hok hst
      exact ⟨ha.step hc hok hst, hc.step hst⟩
  exact hinv.1

omit [DecidableEq Tid] in
theorem Announced.woken (h : Announced s) (hc : Consistent s) (hpoll : s.pc = .polling)
    (hne : s.queue.pendingFunctors_ ≠ []) :
    0 < s.wakeupFd_ ∨ ∃ t, s.thread t = .inQueueInLoop := by
  rcases h (by simp [hpoll, LoopPc.beforeSwap]) hne with ha | ha | ⟨hself, -⟩
  · exact .inl ha
  · exact .inr ha
  · have hu := hc.self hself
    simp [hpoll, LoopPc.userCode] at hu

/-- Whoever finds the loop asleep with functors queued finds the counter up as well, or a
thread that is just about to raise it. -/
theorem no_lost_wakeup (h : (machine F Tid).Reach QueuesInLoop s) (hpoll : s.pc = .polling)
    (hne : s.queue.pendingFunctors_ ≠ []) :
    0 < s.wakeupFd_ ∨ ∃ t, s.thread t = .inQueueInLoop := by
  have ha : Announced s := announced h
  have hc : Consistent s := consistent h.reachable
  exact ha.woken hc hpoll hne

/-- A thread pushes while a functor runs, and the loop goes back to sleep before the
write of that thread. -/
theorem no_lost_wakeup_late_push :
    ∃ s : EventLoop String Nat, (machine String Nat).runIf QueuesInLoop {}
        [.enter, .resetQuit, .testQuit, .push 0 "a", .wake 0, .pollReturn [.wakeup], .handle,
          .setCalling, .swap, .call, .push 1 "b", .functorReturns, .endBatch, .testQuit] = some s ∧
      (s.pc = .polling ∧ s.queue.pendingFunctors_ ≠ []) ∧
      (0 < s.wakeupFd_ ∨ ∃ t, s.thread t = .inQueueInLoop) := by
  refine Machine.exists_runIf rfl rfl fun s hs h => ?_
  obtain rfl := Option.some.inj hs
  exact ⟨⟨rfl, by decide⟩, no_lost_wakeup h rfl (by decide)⟩

/-! ## After the first swap -/

theorem swaps_step (hst : s.step l = some t) :
    t.swaps = s.swaps ∨ l = .swap ∧ t.swaps = s.swaps + 1 := by
  cases step_cases hst with
  | swap => exact .inr ⟨rfl, rfl⟩
  | _ => exact .inl rfl

theorem outside_step (hst : s.step l = some t) (ht : t.pc = .outside) : s.pc = .outside := by
  cases step_cases hst <;> first | exact ht | simp at ht

/-- After a swap nothing is queued. -/
theorem announced_swap (hc : Consistent s) (hst : s.step .swap = some t) :
    t.pc ≠ .outside ∧ Announced t := by
  cases step_cases hst with
  | swap hpc =>
    have hempty := hc.batch (by simp [hpc]) (by simp [hpc])
    exact ⟨by simp, fun _ hne => absurd hempty hne⟩

/-- What the loop's own thread queues before `loop()` is not announced, but waits no longer than
for the first swap: from then on everything is announced, whoever queues it. -/
theorem announced_of_swapped (h : (machine F Tid).Reachable s) (hs : 0 < s.swaps) :
    Announced s := by
  have hinv : Consistent s ∧ (s.pc = .outside → s.swaps = 0) ∧ (0 < s.swaps → Announced s) := by
    refine h.invariant (I := fun s => Consistent s ∧ (s.pc = .outside → s.swaps = 0) ∧
      (0 < s.swaps → Announced s)) ?_ ?_
    · rintro s rfl
      exact ⟨consistent_init, fun _ => rfl, fun hs => absurd hs (Nat.lt_irrefl 0)⟩
    · rintro s l t ⟨hc, hout, ha⟩ - hst
      refine ⟨hc.step hst, ?_⟩
      rcases swaps_step hst with hsame | ⟨rfl, -⟩
      · rw [hsame]
        refine ⟨fun ht => hout (outside_step hst ht), fun hpos => (ha hpos).step hc ?_ hst⟩
        have hin : s.pc ≠ .outside := fun hpc => by simp [hout hpc] at hpos
        cases l with
        | selfPush => exact hin
        | _ => trivial
      · obtain ⟨hin, hann⟩ := announced_swap hc hst
        exact ⟨fun hpc => absurd hpc hin, fun _ => hann⟩
  exact hinv.2.2 hs

end EventLoop

end Muduo
