import Muduo.EventLoop.Order

/-!
# The flag of `doPendingFunctors`

`queueInLoop` on the loop thread writes to `wakeupFd_` if `callingPendingFunctors_` is
up: a functor's push comes too late for the swap, a handler's does not.
`doPendingFunctors` raises the flag and nothing lowers it. From the first batch on a
handler's push is announced as well, and wakes the loop after it has been served.
-/

namespace Muduo

/-- `doPendingFunctors` is executing. -/
def LoopPc.inBatch : LoopPc → Bool
  | .swapping | .running | .inFunctor => true
  | .outside | .entered | .whileTest | .polling | .dispatching _ | .inHandler _
  | .returned => false

/-- Of the places where user code runs, only a functor is in a batch. -/
theorem LoopPc.eq_inFunctor_of_inBatch {pc : LoopPc} (hu : pc.userCode = true)
    (hb : pc.inBatch = true) : pc = .inFunctor := by
  cases pc <;> grind [userCode, inBatch]

namespace EventLoop

variable {F Tid : Type*}

/-- No other thread has called into the loop. -/
structure Alone (s : EventLoop F Tid) : Prop where
  pushes : ∀ x ∈ s.pushes, x.source = none
  quit : ∀ t, s.quitMark t = none

/-- The flag is up in a batch only, so a handler's push writes no wakeup, and a loop with
nothing to do sleeps. -/
structure FlagFits (s : EventLoop F Tid) : Prop where
  batch : s.callingPendingFunctors_ = true → s.pc.inBatch = true
  poll : s.pc = .polling → s.callingPendingFunctors_ = false
  handler : ∀ rest, s.pc = .inHandler rest → s.self ≠ .waking
  idle : s.pc = .polling → s.queue.pendingFunctors_ = [] → Alone s → s.wakeupFd_ = 0

/-- No batch has ended yet. -/
structure FirstBatch (s : EventLoop F Tid) : Prop where
  consistent : Consistent s
  batch : s.callingPendingFunctors_ = true → s.pc.inBatch = true
  waking : s.self = .waking → s.pc = .inFunctor
  threads : Alone s → ∀ t, s.thread t = .idle
  counter : Alone s → s.pc.inBatch = false → s.wakeupFd_ = 0

theorem firstBatch_init : FirstBatch ({} : EventLoop F Tid) :=
  ⟨consistent_init, by simp, by simp, fun _ _ => rfl, fun _ _ => rfl⟩

theorem FirstBatch.flagFits {s : EventLoop F Tid} (h : FirstBatch s) : FlagFits s where
  batch := h.batch
  poll := by
    intro hpc
    by_contra hc
    simpa [hpc, LoopPc.inBatch] using h.batch (by simpa using hc)
  handler := by
    intro rest hpc hw
    simpa [hpc] using h.waking hw
  idle := fun hpc _ ha => h.counter ha (by simp [hpc, LoopPc.inBatch])

section

variable {s t : EventLoop F Tid}

theorem FirstBatch.of_not_alone (hc : Consistent t)
    (hb : t.callingPendingFunctors_ = true → t.pc.inBatch = true)
    (hw : t.self = .waking → t.pc = .inFunctor) (hn : ¬ Alone t) : FirstBatch t :=
  ⟨hc, hb, hw, fun ha => absurd ha hn, fun ha => absurd ha hn⟩

/-- The loop thread moves: outside a batch the counter is as before, or drained. -/
theorem FirstBatch.move (h : FirstBatch s) (hc : Consistent t) (hp : s.pushes ⊆ t.pushes)
    (hq : t.quitMark = s.quitMark) (hth : t.thread = s.thread)
    (hb : t.callingPendingFunctors_ = true → t.pc.inBatch = true)
    (hw : t.self = .waking → t.pc = .inFunctor)
    (hn : t.pc.inBatch = false →
      t.wakeupFd_ = 0 ∨ s.pc.inBatch = false ∧ t.wakeupFd_ = s.wakeupFd_) : FirstBatch t := by
  have halone : Alone t → Alone s := fun ha => ⟨fun x hx => ha.pushes x (hp hx), hq ▸ ha.quit⟩
  refine ⟨hc, hb, hw, fun ha => hth ▸ h.threads (halone ha), ?_⟩
  intro ha hpc
  rcases hn hpc with hzero | ⟨hpc', hsame⟩
  · exact hzero
  · exact hsame.trans (h.counter (halone ha) hpc')

end

variable [DecidableEq Tid] {s t : EventLoop F Tid} {l : LoopLabel F Tid}

/-- Until a batch ends. -/
theorem FirstBatch.step (h : FirstBatch s) (hok : l ≠ .endBatch) (hst : s.step l = some t) :
    FirstBatch t := by
  have hc := h.consistent.step hst
  have hself := h.consistent.self
  cases step_cases hst with
  | @push u f =>
    refine .of_not_alone hc h.batch h.waking fun ha => ?_
    have hnone := ha.pushes ⟨f, some u, s.swaps⟩ (by simp [enqueue, setThread])
    contradiction
  | @wake u hu =>
    exact .of_not_alone hc h.batch h.waking fun ha => hu (h.threads ⟨ha.pushes, ha.quit⟩ u)
  | @storeQuit u =>
    refine .of_not_alone hc h.batch h.waking fun ha => ?_
    simpa using ha.quit u
  | join | selfQuit =>
    exact h.move hc (List.Subset.refl _) rfl rfl h.batch h.waking fun hpc => .inr ⟨hpc, rfl⟩
  | selfPush f =>
    exact h.move hc (List.subset_append_left _ _) rfl rfl h.batch (by simp)
      fun hpc => .inr ⟨hpc, rfl⟩
  | selfTest hp =>
    refine h.move hc (List.Subset.refl _) rfl rfl h.batch ?_ fun hpc => .inr ⟨hpc, rfl⟩
    intro hwaking
    -- the flag was up, so the user code is that of a functor
    have hflag : s.callingPendingFunctors_ = true := by
      by_contra hf
      simp [hf] at hwaking
    exact LoopPc.eq_inFunctor_of_inBatch (hself (by simp [hp])) (h.batch hflag)
  | selfWake hp =>
    refine h.move hc (List.Subset.refl _) rfl rfl h.batch (by simp) ?_
    intro hpc
    have hfun : s.pc.inBatch = true := by simp [h.waking hp, LoopPc.inBatch]
    exact absurd (hfun.symm.trans hpc) (by simp)
  | handleRead hpc =>
    exact h.move hc (List.Subset.refl _) rfl rfl (by simpa [hpc, LoopPc.inBatch] using h.batch)
      (by simpa [hpc] using h.waking) fun _ => .inl rfl
  | enter hpc | resetQuit hpc | goOn hpc | leave hpc | pollReturn hpc | handle hpc
  | handlerReturns hpc =>
    exact h.move hc (List.Subset.refl _) rfl rfl (by simpa [hpc, LoopPc.inBatch] using h.batch)
      (by simpa [hpc] using h.waking) fun _ => .inr ⟨by simp [hpc, LoopPc.inBatch], rfl⟩
  | setCalling hpc | swap hpc =>
    exact h.move hc (List.Subset.refl _) rfl rfl (fun _ => rfl) (by simpa [hpc] using h.waking)
      (by simp [LoopPc.inBatch])
  | call =>
    exact h.move hc (List.Subset.refl _) rfl rfl (fun _ => rfl) (fun _ => rfl)
      (by simp [LoopPc.inBatch])
  | functorReturns _ hi =>
    exact h.move hc (List.Subset.refl _) rfl rfl (fun _ => rfl) (by simp [hi])
      (by simp [LoopPc.inBatch])
  | endBatch => exact absurd rfl hok

/-- The end of a batch leaves the flag up. -/
theorem not_flagFits_of_endBatch (hc : Consistent s) (hst : s.step .endBatch = some t) :
    ¬ FlagFits t := by
  cases step_cases hst with
  | endBatch hpc =>
    intro h
    have hbatch := h.batch (hc.calling (.inr (.inl hpc)))
    simp [LoopPc.inBatch] at hbatch

/-- The flag says what it is meant to say in every state of a run exactly if
`doPendingFunctors` has not returned in it. -/
theorem flagFits_throughout_iff {ls : List (LoopLabel F Tid)}
    (hrun : (machine F Tid).run {} ls = some s) :
    (machine F Tid).Throughout FlagFits {} ls ↔
      (machine F Tid).Along (fun _ l => l ≠ .endBatch) {} ls := by
  refine Machine.throughout_iff_along (J := FirstBatch) ?_ ?_ (fun _ h => h.flagFits)
    firstBatch_init hrun
  · intro s l t h hok hst
    exact h.step hok hst
  · intro s l t h hend hst
    obtain rfl := not_not.mp hend
    exact not_flagFits_of_endBatch h.consistent hst

/-- The first batch is running, and its functor has announced a push of its own. -/
theorem flagFits_throughout_iff_first :
    ∃ s : EventLoop String Nat, (machine String Nat).run {}
        [.enter, .resetQuit, .testQuit, .pollReturn [.other], .handle, .selfPush "a", .selfTest,
          .handlerReturns, .setCalling, .swap, .call, .selfPush "b", .selfTest, .selfWake] =
        some s ∧
      (machine String Nat).Throughout FlagFits {}
        [.enter, .resetQuit, .testQuit, .pollReturn [.other], .handle, .selfPush "a", .selfTest,
          .handlerReturns, .setCalling, .swap, .call, .selfPush "b", .selfTest, .selfWake] :=
  ⟨_, rfl, (flagFits_throughout_iff rfl).mpr
    (Machine.along_of_forall fun l hl _ => by
      rintro rfl
      simp at hl)⟩

/-- The handler of the second iteration queues a functor and writes to `wakeupFd_`. The
functor is called in the same iteration, and the next poll finds the counter up with
nothing left to do and no other thread in sight. -/
theorem woken_by_itself :
    ∃ s : EventLoop String Nat, (machine String Nat).run {}
        [.enter, .resetQuit, .testQuit, .pollReturn [], .setCalling, .swap, .endBatch, .testQuit,
          .pollReturn [.other], .handle, .selfPush "a", .selfTest, .selfWake, .handlerReturns,
          .setCalling, .swap, .call, .functorReturns, .endBatch, .testQuit] = some s ∧
      s.pc = .polling ∧ s.callingPendingFunctors_ = true ∧ s.queue.pendingFunctors_ = [] ∧
      Alone s ∧ s.wakeupFd_ = 1 ∧ ¬ FlagFits s := by
  refine ⟨_, rfl, rfl, rfl, rfl, ⟨by decide, fun _ => rfl⟩, rfl, ?_⟩
  intro h
  have hbatch := h.batch rfl
  contradiction

end EventLoop

end Muduo
