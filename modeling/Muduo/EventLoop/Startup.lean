import Muduo.EventLoop.Order

/-!
# Functors queued before `loop()`

Before `loop()` the loop's own thread can queue functors: in the `ThreadInitCallback`, or
wherever the base loop is set up. `queueInLoop` then neither runs on another thread nor
finds `callingPendingFunctors_` up, so it writes nothing to `wakeupFd_`, and the first poll
blocks although there is work to do. Only a wakeup of another thread helps.
-/

namespace Muduo

namespace EventLoop

variable {F Tid : Type*}

/-- What the number of swaps says about batches and flags. -/
structure Numbered (s : EventLoop F Tid) : Prop where
  running : s.pc = .running ∨ s.pc = .inFunctor → 0 < s.swaps
  calling : s.callingPendingFunctors_ = true → s.pc = .swapping ∨ 0 < s.swaps
  waking : s.self = .waking → s.callingPendingFunctors_ = true
  pending : ∀ x ∈ s.queue.pendingFunctors_, x.batch = s.swaps
  executed : ∀ e ∈ s.executed, e.batch ≤ s.swaps ∧ e.thread = none

variable [DecidableEq Tid] {s t : EventLoop F Tid} {l : LoopLabel F Tid}

theorem Numbered.step (h : Numbered s) (hc : Consistent s) (hst : s.step l = some t) :
    Numbered t := by
  obtain ⟨hr, hcall, hw, hp, he⟩ := h
  cases step_cases hst with
  | push => exact ⟨hr, hcall, hw, forall_pending_enqueue hp rfl, he⟩
  | selfPush => exact ⟨hr, hcall, by simp, forall_pending_enqueue hp rfl, he⟩
  | wake | storeQuit | join | selfQuit => exact ⟨hr, hcall, hw, hp, he⟩
  | selfTest | selfWake => exact ⟨hr, hcall, by simp, hp, he⟩
  | enter hpc | resetQuit hpc | goOn hpc | leave hpc | pollReturn hpc | handleRead hpc
  | handle hpc | handlerReturns hpc =>
    exact ⟨by simp, fun hf => .inr ((hcall hf).resolve_left (by simp [hpc])), hw, hp, he⟩
  | setCalling hpc => exact ⟨by simp, fun _ => .inl rfl, fun _ => rfl, hp, he⟩
  | swap hpc =>
    refine ⟨fun _ => Nat.succ_pos _, fun _ => .inr (Nat.succ_pos _), hw, ?_, ?_⟩
    · intro x hx
      rw [FunctorQueue.pendingFunctors_swap, hc.batch (by simp [hpc]) (by simp [hpc])] at hx
      contradiction
    · intro e hm
      exact ⟨Nat.le_succ_of_le (he e hm).1, (he e hm).2⟩
  | call hpc hn =>
    refine ⟨fun _ => hr (.inl hpc), fun _ => .inr (hr (.inl hpc)), hw, ?_, ?_⟩
    · intro x hx
      exact hp x ((FunctorQueue.next_eq_some hn).2 ▸ hx)
    · intro e hm
      rcases List.mem_append.mp hm with hm | hm
      · exact he e hm
      · obtain rfl := List.mem_singleton.mp hm
        exact ⟨Nat.le_refl _, rfl⟩
  | functorReturns hpc =>
    exact ⟨fun _ => hr (.inr hpc), fun _ => .inr (hr (.inr hpc)), hw, hp, he⟩
  | endBatch hpc => exact ⟨by simp, fun _ => .inr (hr (.inl hpc)), hw, hp, he⟩

theorem numbered (h : (machine F Tid).Reachable s) : Numbered s := by
  induction h with
  | init hs =>
    obtain rfl := hs
    exact ⟨by simp, by simp, by simp, by simp, by simp⟩
  | step l hr _ hst ih => exact ih.step (consistent hr) hst

/-! ## The next batch -/

/-- `pushes` is a log. -/
theorem pushes_grow (hst : s.step l = some t) : s.pushes <+: t.pushes := by
  cases step_cases hst with
  | push | selfPush => exact List.prefix_append _ _
  | _ => exact List.prefix_rfl

theorem pushes_grow_run {ls : List (LoopLabel F Tid)}
    (hrun : (machine F Tid).run s ls = some t) : s.pushes <+: t.pushes :=
  Machine.run_invariant (I := fun t => s.pushes <+: t.pushes)
    (fun _ _ _ h hst => h.trans (pushes_grow hst)) List.prefix_rfl hrun

/-- The next batch calls whatever is pending now. -/
theorem executed_in_next_batch (hs : (machine F Tid).Reachable s) {ls : List (LoopLabel F Tid)}
    (hrun : (machine F Tid).run s ls = some t) (hn : t.swaps = s.swaps + 1)
    (hpc : t.pc = .whileTest) :
    ∀ x ∈ s.queue.pendingFunctors_, ⟨x, s.swaps + 1, none⟩ ∈ t.executed := by
  intro x hx
  have ht : (machine F Tid).Reachable t := hs.run (Machine.along_true s ls) hrun
  have hpush : x ∈ s.pushes := pushes_balanced hs ▸ List.mem_append_right _ hx
  have hbatch : x.batch = s.swaps := (numbered hs).pending x hx
  have hmem : x ∈ t.pushes := (pushes_grow_run hrun).subset hpush
  rw [← pushes_balanced ht, (consistent ht).batch (by simp [hpc]) (by simp [hpc]),
    List.append_nil, List.mem_append] at hmem
  rcases hmem with hmem | hmem
  · obtain ⟨⟨y, b, th⟩, he, rfl⟩ := List.mem_map.mp hmem
    have hlt : y.batch < b := ((batched ht).executed ⟨y, b, th⟩ he).1
    obtain ⟨hle, rfl⟩ : b ≤ t.swaps ∧ th = none := (numbered ht).executed _ he
    have hb : b = s.swaps + 1 := by
      simp only at hbatch
      omega
    exact hb ▸ he
  · have hlate : x.batch = t.swaps := (numbered ht).pending x hmem
    omega

/-- The rest of the batch can be run to its end. -/
theorem leads_endBatch (hpc : s.pc = .running) (hself : s.self = .idle) :
    (machine F Tid).Leads s fun t => t.swaps = s.swaps ∧ t.pc = .whileTest := by
  induction hn : s.queue.functors generalizing s with
  | nil =>
    refine .step .endBatch (t := { s with pc := .whileTest }) ?_ (.now ⟨rfl, rfl⟩)
    simp [machine, step, loopStep, hpc, hn]
  | cons f fs ih =>
    refine .step .call (t := { s with
      queue := { s.queue with functors := fs }
      executed := s.executed ++ [⟨f, s.swaps, none⟩]
      pc := .inFunctor }) ?_ ?_
    · simp [machine, step, loopStep, FunctorQueue.next, hpc, hn]
    · refine .step .functorReturns (t := { s with
        queue := { s.queue with functors := fs }
        executed := s.executed ++ [⟨f, s.swaps, none⟩]
        pc := .running }) ?_ ?_
      · simp [machine, step, loopStep, hself]
      · exact ih rfl hself rfl

/-- What is pending is served without waiting: the poll returns for `wakeupFd_` alone, the
iteration it begins can be completed, and then its batch has called everything. -/
structure ServedAtOnce (s : EventLoop F Tid) : Prop where
  awake : 0 < s.wakeupFd_
  completes : ∃ t, s.step (.pollReturn [.wakeup]) = some t ∧
    (machine F Tid).Leads t fun u => u.swaps = s.swaps + 1 ∧ u.pc = .whileTest
  executes : ∀ ls t, (machine F Tid).run s ls = some t → t.swaps = s.swaps + 1 →
    t.pc = .whileTest → ∀ x ∈ s.queue.pendingFunctors_, ⟨x, s.swaps + 1, none⟩ ∈ t.executed

/-- A poll that finds the counter up serves what is pending. -/
theorem servedAtOnce_of_awake (hs : (machine F Tid).Reachable s) (hpc : s.pc = .polling)
    (hup : 0 < s.wakeupFd_) : ServedAtOnce s where
  awake := hup
  completes := by
    have hidle : s.self = .idle := by
      by_contra hself
      simpa [hpc, LoopPc.userCode] using (consistent hs).self hself
    refine ⟨{ s with pc := .dispatching [.wakeup] }, by simp [step, loopStep, hpc, hup], ?_⟩
    exact .step .handle rfl <| .step .setCalling rfl <| .step .swap rfl <|
      leads_endBatch rfl hidle
  executes := fun _ _ hrun => executed_in_next_batch hs hrun

/-! ## The first poll -/

/-- The loop's own thread has a functor in the queue. -/
def OwnPending (s : EventLoop F Tid) : Prop :=
  ∃ x ∈ s.queue.pendingFunctors_, x.source = none

/-- `loop()` has not been entered, or its first poll has not returned. -/
structure Starting (s : EventLoop F Tid) : Prop where
  pc : s.pc = .outside ∨ s.pc = .entered ∨ s.pc = .whileTest ∨ s.pc = .polling
  swaps : s.swaps = 0
  calling : s.callingPendingFunctors_ = false

/-- Nothing leads back to the start. -/
theorem Starting.of_step (h : Starting t) (hn : Numbered s) (hst : s.step l = some t) :
    Starting s := by
  obtain ⟨hpc, hs, hc⟩ := h
  cases step_cases hst with
  | push | wake | storeQuit | join | selfPush | selfTest | selfWake | selfQuit =>
    exact ⟨hpc, hs, hc⟩
  | enter h | resetQuit h | goOn h => exact ⟨by simp [h], hs, hc⟩
  | endBatch h => exact absurd (hn.running (.inl h)) (by simp at hs; omega)
  | _ => simp at hpc hs hc

/-- Until the first poll returns, only other threads raise the counter, and the own
thread's functors stay in the queue. -/
theorem Starting.step (h : Starting s) (hn : Numbered s) (hst : s.step l = some t)
    (ht : Starting t) :
    (0 < t.wakeupFd_ ↔ 0 < s.wakeupFd_ ∨ ∃ u, l = .wake u) ∧
      (OwnPending t ↔ OwnPending s ∨ ∃ f, l = .selfPush f) := by
  cases step_cases hst with
  | push f => simp [OwnPending, enqueue, setThread]
  | wake => exact ⟨by simp [setThread, wakeup, signal_pos], by simp [OwnPending, setThread, wakeup]⟩
  | selfPush f => simp [OwnPending, enqueue]
  | selfWake hw => exact absurd (hn.waking hw) (by simp [h.calling])
  | handleRead hpc | handle hpc | handlerReturns hpc | setCalling hpc | swap hpc | call hpc
  | functorReturns hpc => simpa [hpc] using h.pc
  | _ => simp [OwnPending, setThread]

theorem starting_run {ls : List (LoopLabel F Tid)} (hs : (machine F Tid).Reachable s)
    (hrun : (machine F Tid).run s ls = some t) (ht : Starting t) :
    Starting s ∧ (0 < t.wakeupFd_ ↔ 0 < s.wakeupFd_ ∨ ∃ u, .wake u ∈ ls) ∧
      (OwnPending t ↔ OwnPending s ∨ ∃ f, .selfPush f ∈ ls) := by
  induction ls generalizing s with
  | nil =>
    obtain rfl := Option.some.inj hrun
    simpa using ht
  | cons l ls ih =>
    obtain ⟨u, hu, hrest⟩ := Option.bind_eq_some_iff.mp hrun
    obtain ⟨hstart, hwake, hown⟩ := ih (.step l hs trivial hu) hrest
    have hback : Starting s := hstart.of_step (numbered hs) hu
    obtain ⟨hwake', hown'⟩ := hback.step (numbered hs) hu hstart
    refine ⟨hback, ?_, ?_⟩
    · rw [hwake, hwake']
      simp only [List.mem_cons]
      grind
    · rw [hown, hown']
      simp only [List.mem_cons]
      grind

/-- In its first poll the loop serves what its own thread has queued before, without
waiting, exactly if there is no such functor or another thread has completed a wakeup. -/
theorem first_poll_serves_iff {ls : List (LoopLabel F Tid)}
    (hrun : (machine F Tid).run {} ls = some s) (hpc : s.pc = .polling) (hfirst : s.swaps = 0) :
    (OwnPending s → ServedAtOnce s) ↔ (∀ f, .selfPush f ∉ ls) ∨ ∃ t, .wake t ∈ ls := by
  have hs : (machine F Tid).Reachable s := Machine.reachable_run rfl ls hrun
  have hstart : Starting s := by
    refine ⟨by simp [hpc], hfirst, ?_⟩
    by_contra hc
    have hflag := (numbered hs).calling (by simpa using hc)
    simp [hpc, hfirst] at hflag
  obtain ⟨-, hwake, hown⟩ := starting_run (.init rfl) hrun hstart
  replace hwake : 0 < s.wakeupFd_ ↔ ∃ t, .wake t ∈ ls := by simpa using hwake
  replace hown : OwnPending s ↔ ∃ f, .selfPush f ∈ ls := by simpa [OwnPending] using hown
  rw [← not_exists, ← hown, ← hwake]
  constructor
  · intro h
    by_cases ho : OwnPending s
    · exact .inr (h ho).awake
    · exact .inl ho
  · rintro (h | h) ho
    · exact absurd ho h
    · exact servedAtOnce_of_awake hs hpc h

/-- Another thread queues a functor of its own before the first poll. -/
theorem first_poll_serves_iff_woken :
    ∃ s : EventLoop String Nat, (machine String Nat).run {}
        [.selfPush "a", .selfTest, .push 0 "b", .enter, .resetQuit, .wake 0, .testQuit] = some s ∧
      OwnPending s ∧ ServedAtOnce s := by
  refine Machine.exists_run rfl rfl fun s hs _ => ?_
  have hfirst : s.pc = .polling ∧ s.swaps = 0 ∧ OwnPending s := by
    obtain rfl := Option.some.inj hs
    exact ⟨rfl, rfl, ⟨"a", none, 0⟩, List.mem_cons_self, rfl⟩
  obtain ⟨hpc, hswaps, hown⟩ := hfirst
  exact ⟨hown, (first_poll_serves_iff hs hpc hswaps).mpr (.inr ⟨0, by simp⟩) hown⟩

/-- The init callback queues a functor, and the first poll can return only for another
channel or for its timeout. -/
theorem first_poll_blocks :
    ∃ s : EventLoop String Nat, (machine String Nat).run {}
        [.selfPush "a", .selfTest, .enter, .resetQuit, .testQuit] = some s ∧
      s.pc = .polling ∧ s.queue.pendingFunctors_ = [⟨"a", none, 0⟩] ∧ s.wakeupFd_ = 0 ∧
      (∀ active, .wakeup ∈ active → s.step (.pollReturn active) = none) ∧
      OwnPending s ∧ ¬ ServedAtOnce s := by
  refine ⟨_, rfl, rfl, rfl, rfl, ?_, ⟨⟨"a", none, 0⟩, List.mem_cons_self, rfl⟩, ?_⟩
  · intro active hactive
    simp [step, loopStep, hactive, enqueue]
  · intro h
    exact absurd h.awake (Nat.lt_irrefl 0)

end EventLoop

end Muduo
