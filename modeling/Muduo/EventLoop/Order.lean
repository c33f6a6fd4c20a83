import Muduo.EventLoop.Basic
import Muduo.Library.Fifo

/-!
# The order of queued functors

The queue, the batch being run and the functors already called are one first-in
first-out queue, whatever the threads do. Pushes enter it in the order of their critical
sections and only `loop()` takes functors out.
-/

namespace Muduo

namespace EventLoop

variable {F Tid : Type*}

/-- What the loop's position says about its fields. -/
structure Consistent (s : EventLoop F Tid) : Prop where
  /-- outside its loop over the batch, the local `functors` is empty -/
  batch : s.pc ≠ .running → s.pc ≠ .inFunctor → s.queue.functors = []
  /-- the loop thread calls `queueInLoop` from user code alone -/
  self : s.self ≠ .idle → s.pc.userCode = true
  /-- the flag is never cleared, so it is set whenever a batch runs -/
  calling : s.pc = .swapping ∨ s.pc = .running ∨ s.pc = .inFunctor →
    s.callingPendingFunctors_ = true

theorem consistent_init : Consistent ({} : EventLoop F Tid) :=
  ⟨fun _ _ => rfl, fun h => absurd rfl h, fun h => by simp at h⟩

/-- What pending functors have in common a new one must have too. -/
theorem forall_pending_enqueue {s : EventLoop F Tid} {f : F} {source : Option Tid}
    {P : Queued F Tid → Prop} (hp : ∀ x ∈ s.queue.pendingFunctors_, P x)
    (hf : P ⟨f, source, s.swaps⟩) :
    ∀ x ∈ (s.enqueue f source).queue.pendingFunctors_, P x := by
  intro x hx
  rcases List.mem_append.mp hx with hx | hx
  · exact hp x hx
  · exact List.mem_singleton.mp hx ▸ hf

variable [DecidableEq Tid] {s t : EventLoop F Tid} {l : LoopLabel F Tid}

theorem Consistent.step (h : Consistent s) (hst : s.step l = some t) : Consistent t := by
  obtain ⟨hb, hs, hc⟩ := h
  cases step_cases hst with
  | push | wake | storeQuit | join | selfQuit => exact ⟨hb, hs, hc⟩
  | selfPush f hu => exact ⟨hb, fun _ => hu, hc⟩
  | selfTest hp => exact ⟨hb, fun _ => hs (by simp [hp]), hc⟩
  | selfWake => exact ⟨hb, fun h => absurd rfl h, hc⟩
  | enter hpc | resetQuit hpc | goOn hpc | pollReturn hpc | handleRead hpc | handle hpc
  | handlerReturns hpc | setCalling hpc =>
    exact ⟨fun _ _ => hb (by simp [hpc]) (by simp [hpc]), by simp_all [LoopPc.userCode], by simp⟩
  | leave hpc => exact ⟨fun _ _ => hb (by simp [hpc]) (by simp [hpc]), fun _ => rfl, by simp⟩
  | swap hpc =>
    exact ⟨fun h => absurd rfl h, fun h => by simpa [hpc, LoopPc.userCode] using hs h,
      fun _ => hc (by simp [hpc])⟩
  | call hpc => exact ⟨fun _ h => absurd rfl h, fun _ => rfl, fun _ => hc (by simp [hpc])⟩
  | functorReturns hpc hi =>
    exact ⟨fun h => absurd rfl h, fun h => absurd hi h, fun _ => hc (by simp [hpc])⟩
  | endBatch hpc he =>
    exact ⟨fun _ _ => he, fun h => by simpa [hpc, LoopPc.userCode] using hs h, by simp⟩

theorem consistent (h : (machine F Tid).Reachable s) : Consistent s :=
  h.invariant (fun _ hs => hs ▸ consistent_init) fun _ _ _ hs _ hst => hs.step hst

/-! ## First in, first out -/

/-- The loop is the queue: pushes enter it, called functors have left it. -/
structure Fifoed (s : EventLoop F Tid) (q : Fifo (Queued F Tid)) : Prop where
  consistent : Consistent s
  entered : q.entered = s.pushes
  left : q.left = s.executed.map Executed.item
  waiting : q.waiting = s.queue.all

theorem fifo_simulation :
    Machine.Simulation (machine F Tid) (fun _ _ => True) (Fifo.machine (Queued F Tid)) Fifoed where
  init := by
    rintro s rfl
    exact ⟨.empty, rfl, consistent_init, rfl, rfl, rfl⟩
  step := by
    rintro s l t q ⟨hc, he, hl, hw⟩ - hst
    have hc' := hc.step hst
    cases step_cases hst with
    | @push u f =>
      refine ⟨[.enter [⟨f, some u, s.swaps⟩]], _, rfl, hc', ?_, hl, ?_⟩
      · simp [he, enqueue, setThread]
      · simp [hw, enqueue, setThread]
    | selfPush f =>
      refine ⟨[.enter [⟨f, none, s.swaps⟩]], _, rfl, hc', ?_, hl, ?_⟩
      · simp [he, enqueue]
      · simp [hw, enqueue]
    | swap hpc =>
      have hempty := hc.batch (by simp [hpc]) (by simp [hpc])
      exact ⟨[], q, rfl, hc', he, hl, hw.trans (s.queue.all_swap hempty).symm⟩
    | call hpc hn =>
      refine ⟨[.leave 1], _, rfl, hc', he, ?_, ?_⟩
      · simp [hl, hw, FunctorQueue.all_next hn]
      · simp [hw, FunctorQueue.all_next hn]
    | _ => exact ⟨[], q, rfl, hc', he, hl, hw⟩

/-! ## Batches -/

/-- Functors wait for a later batch than any that had begun when they were queued. -/
structure Batched (s : EventLoop F Tid) : Prop where
  consistent : Consistent s
  pending : ∀ x ∈ s.queue.pendingFunctors_, x.batch ≤ s.swaps
  functors : ∀ x ∈ s.queue.functors, x.batch < s.swaps
  executed : ∀ e ∈ s.executed, e.item.batch < e.batch ∧ e.thread = none

theorem Batched.step (h : Batched s) (hst : s.step l = some t) : Batched t := by
  obtain ⟨hc, hp, hf, he⟩ := h
  have hc' := hc.step hst
  cases step_cases hst with
  | push | selfPush => exact ⟨hc', forall_pending_enqueue hp (Nat.le_refl _), hf, he⟩
  | swap hpc =>
    refine ⟨hc', ?_, fun x hx => Nat.lt_succ_of_le (hp x hx), he⟩
    intro x hx
    rw [FunctorQueue.pendingFunctors_swap, hc.batch (by simp [hpc]) (by simp [hpc])] at hx
    contradiction
  | @call f q hpc hn =>
    obtain ⟨hfs, hps⟩ := FunctorQueue.next_eq_some hn
    refine ⟨hc', fun x hx => hp x (hps ▸ hx), fun x hx => hf x (by simp [hfs, hx]), ?_⟩
    intro e hm
    rcases List.mem_append.mp hm with hm | hm
    · exact he e hm
    · obtain rfl := List.mem_singleton.mp hm
      exact ⟨hf f (by simp [hfs]), rfl⟩
  | _ => exact ⟨hc', hp, hf, he⟩

theorem batched (h : (machine F Tid).Reachable s) : Batched s :=
  h.invariant (fun _ hs => hs ▸ ⟨consistent_init, by simp, by simp, by simp⟩)
    fun _ _ _ hs _ hst => hs.step hst

/-- Called functors, then the rest of the batch, then `pendingFunctors_`, are all pushes. -/
theorem pushes_balanced (h : (machine F Tid).Reachable s) :
    s.executed.map Executed.item ++ s.queue.functors ++ s.queue.pendingFunctors_ = s.pushes := by
  obtain ⟨q, -, -, he, hl, hw⟩ := fifo_simulation.reach h
  rw [List.append_assoc, ← he, ← q.balanced, hl, hw, FunctorQueue.all]

/-- Functors leave the queue in the order in which they entered it. No functor is called in
the batch during which it was queued, and none on another thread than the loop's. -/
theorem executed_append_queue (h : (machine F Tid).Reachable s) :
    s.executed.map Executed.item ++ s.queue.functors ++ s.queue.pendingFunctors_ = s.pushes ∧
      ∀ e ∈ s.executed, e.item.batch < e.batch ∧ e.thread = none :=
  ⟨pushes_balanced h, (batched h).executed⟩

/-- The second functor is queued while the first one runs, and waits for the next batch. -/
theorem executed_append_queue_nested :
    ∃ s : EventLoop String Nat, (machine String Nat).run {}
        [.enter, .resetQuit, .testQuit, .push 0 "a", .pollReturn [], .setCalling, .swap, .call,
          .selfPush "b", .selfTest, .wake 0] = some s ∧
      s.executed.map Executed.item ++ s.queue.functors ++ s.queue.pendingFunctors_ = s.pushes ∧
      ∀ e ∈ s.executed, e.item.batch < e.batch ∧ e.thread = none :=
  Machine.exists_run rfl rfl fun _ _ hs => executed_append_queue hs

end EventLoop

end Muduo
