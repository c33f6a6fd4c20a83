import Muduo.EventLoop.Thread

/-!
# Quit requests from other threads

`loop_` is published before the loop runs, and `loop()` begins by clearing `quit_`. A
`quit` that comes in between is erased, and the destructor that called it then joins a
thread that polls on. A `quit` that comes later stays, and the thread can end.
-/

namespace Muduo

/-- `loop()` has stored `quit_ = false`. -/
def LoopPc.pastReset : LoopPc → Bool
  | .outside | .entered => false
  | .whileTest | .polling | .dispatching _ | .inHandler _ | .swapping | .running | .inFunctor
  | .returned => true

theorem LoopPc.pastReset_of_inCallback {pc : LoopPc} (h : pc.inCallback = true) :
    pc.pastReset = true := by
  cases pc <;> first | rfl | contradiction

namespace EventLoop

variable {F Tid : Type*} [DecidableEq Tid] {s t : EventLoop F Tid} {l : LoopLabel F Tid}

/-- Past its reset, `quit_` is never cleared, and no step leads back to before it. -/
theorem quit_stays (hst : s.step l = some t) (hp : s.pc.pastReset = true) :
    t.pc.pastReset = true ∧ (s.quit_ = true → t.quit_ = true) := by
  cases step_cases hst with
  | enter hpc | resetQuit hpc => simp [hpc, LoopPc.pastReset] at hp
  | push | wake | join | selfPush | selfTest | selfWake => exact ⟨hp, id⟩
  | storeQuit | selfQuit => exact ⟨hp, fun _ => rfl⟩
  | _ => exact ⟨rfl, id⟩

end EventLoop

namespace EventLoopThread

variable {F Tid : Type*} [DecidableEq Tid] {s t : EventLoopThread F Tid}
  {l : LoopThreadLabel F Tid}

/-- Another thread, or the destructor, stores `quit_ = true` after `loop()` has cleared it. -/
def QuitsAfterReset (s : EventLoopThread F Tid) : LoopThreadLabel F Tid → Prop
  | .loop (.storeQuit _) | .quit => s.loop.pc.pastReset = true
  | _ => True

/-- The loop is as its position says, and runs inside `threadFunc`. -/
structure Placed (s : EventLoopThread F Tid) : Prop where
  consistent : EventLoop.Consistent s.loop
  early : s.func.notified = false → s.loop.pc = .outside
  late : s.func = .locking ∨ s.func = .clearing ∨ s.func = .ended → s.loop.pc = .returned

/-- A request that has been made is still there. -/
def Kept (s : EventLoopThread F Tid) : Prop :=
  s.asked = true → s.loop.quit_ = true ∧ s.loop.pc.pastReset = true

/-- What other parties may do to the loop leaves its position alone, and so does user code. -/
theorem pc_of_loop {l : LoopLabel F Tid} {loop : EventLoop F Tid} (ha : s.admits l = true)
    (hst : s.loop.step l = some loop) (hf : s.func ≠ .looping) : loop.pc = s.loop.pc := by
  cases EventLoop.step_cases hst with
  | push | wake | storeQuit | selfPush | selfTest | selfWake | selfQuit => rfl
  | _ => simp [admits, hf] at ha

omit [DecidableEq Tid] in
/-- After publication, user code on the loop's thread runs inside the loop. -/
theorem inCallback_of_selfQuit (ha : s.admits .selfQuit = true) (hp : s.func.published = true) :
    s.loop.pc.inCallback = true := by
  have hf : s.func ≠ .calling := by
    rintro hf
    simp [hf, FuncPc.published] at hp
  simp only [admits, Bool.or_eq_true, beq_iff_eq, hf, false_or, Bool.and_eq_true] at ha
  exact ha.2

theorem Placed.step (h : Placed s) (hs : Locked s) (hst : s.step l = some t) : Placed t := by
  obtain ⟨hc, he, hl⟩ := h
  cases step_cases hst with
  | @loop l e ha hst' =>
    refine ⟨hc.step hst', ?_, ?_⟩
    · intro hn
      rw [pc_of_loop ha hst' (by rintro hf; simp [hf, FuncPc.notified] at hn)]
      exact he hn
    · intro hn
      rw [pc_of_loop ha hst' (by rintro hf; simp [hf] at hn)]
      exact hl hn
  | quit => exact ⟨⟨hc.batch, hc.self, hc.calling⟩, he, hl⟩
  | wake => exact ⟨⟨hc.batch, hc.self, hc.calling⟩, he, hl⟩
  | start hidle =>
    have hf := hs.order.mp hidle
    exact ⟨hc, fun _ => he (by rw [hf]; rfl), by simp⟩
  | leaveLoop _ hpc => exact ⟨hc, by simp [FuncPc.notified], fun _ => hpc⟩
  | _ => exact ⟨hc, by grind [FuncPc.notified], by grind⟩

theorem placed (h : (machine F Tid).Reachable s) : Placed s := by
  induction h with
  | init hs =>
    obtain ⟨callback, rfl⟩ := hs
    exact ⟨EventLoop.consistent_init, fun _ => rfl, by simp⟩
  | step l hr _ hst ih => exact ih.step (locked hr) hst

theorem Kept.step (h : Kept s) (hok : QuitsAfterReset s l) (hst : s.step l = some t) : Kept t := by
  cases step_cases hst with
  | @loop l e ha hst' =>
    intro hasked
    by_cases has : s.asked = true
    · obtain ⟨hq, hp⟩ := h has
      obtain ⟨hp', hq'⟩ := EventLoop.quit_stays hst' hp
      exact ⟨hq' hq, hp'⟩
    · -- the step is the first request
      have hnew : s.asks l = true := by simpa [has] using hasked
      cases EventLoop.step_cases hst' with
      | storeQuit => exact ⟨rfl, hok⟩
      | selfQuit =>
        exact ⟨rfl, LoopPc.pastReset_of_inCallback (inCallback_of_selfQuit ha hnew)⟩
      | _ => simp [asks] at hnew
  | quit => exact fun _ => ⟨rfl, hok⟩
  | _ => exact h

theorem kept (h : (machine F Tid).Reach QuitsAfterReset s) : Kept s := by
  refine h.invariant (I := Kept) ?_ ?_
  · rintro s ⟨callback, rfl⟩ hasked
    simp at hasked
  · intro s l t hs hok hst
    exact hs.step hok hst

/-! ## The way out of the loop -/

/-- `loop()` has returned. -/
abbrev LoopDone (s : EventLoopThread F Tid) : Prop := s.func = .looping ∧ s.loop.pc = .returned

/-- A step of the loop on its own thread. -/
theorem leads_loop {P : EventLoopThread F Tid → Prop} (l : LoopLabel F Tid)
    {e : EventLoop F Tid} (ha : s.admits l = true) (hst : s.loop.step l = some e)
    (h : (machine F Tid).Leads { s with loop := e, asked := s.asked || s.asks l } P) :
    (machine F Tid).Leads s P :=
  .step (.loop l) (by simp [machine, step, loopStep, ha, hst]) h

section

variable (hf : s.func = .looping) (hq : s.loop.quit_ = true)

include hf hq

theorem leads_of_whileTest (hpc : s.loop.pc = .whileTest) :
    (machine F Tid).Leads s LoopDone := by
  refine leads_loop .testQuit (e := { s.loop with pc := .returned }) (by simp [admits, hf]) ?_
    (.now ⟨hf, rfl⟩)
  simp [EventLoop.step, EventLoop.loopStep, hpc, hq]

/-- The rest of the batch is run, and then comes the test. -/
theorem leads_of_running (hpc : s.loop.pc = .running) : (machine F Tid).Leads s LoopDone := by
  induction hn : s.loop.queue.functors generalizing s with
  | nil =>
    refine leads_loop .endBatch (e := { s.loop with pc := .whileTest }) (by simp [admits, hf]) ?_
      (leads_of_whileTest hf hq rfl)
    simp [EventLoop.step, EventLoop.loopStep, hpc, hn]
  | cons f fs ih =>
    have hcall : s.loop.step .call = some { s.loop with
        queue := { s.loop.queue with functors := fs }
        executed := s.loop.executed ++ [⟨f, s.loop.swaps, none⟩]
        pc := .inFunctor } := by
      simp [EventLoop.step, EventLoop.loopStep, FunctorQueue.next, hpc, hn]
    refine leads_loop .call (by simp [admits, hf]) hcall (leads_settled (.inr ⟨hf, rfl⟩) ?_)
    intro n
    refine leads_loop .functorReturns (by simp [admits, hf]) rfl ?_
    exact ih hf hq rfl rfl

theorem leads_of_swapping (hpc : s.loop.pc = .swapping) : (machine F Tid).Leads s LoopDone := by
  refine leads_loop .swap (e := { s.loop with
    queue := s.loop.queue.swap
    swaps := s.loop.swaps + 1
    pc := .running }) (by simp [admits, hf]) ?_ (leads_of_running hf hq rfl)
  simp [EventLoop.step, EventLoop.loopStep, hpc]

/-- The rest of the handlers are called, and then come the functors. -/
theorem leads_of_dispatching {rest : List Active} (hpc : s.loop.pc = .dispatching rest) :
    (machine F Tid).Leads s LoopDone := by
  induction rest generalizing s with
  | nil =>
    refine leads_loop .setCalling (e := { s.loop with
      callingPendingFunctors_ := true
      pc := .swapping }) (by simp [admits, hf]) ?_ (leads_of_swapping hf hq rfl)
    simp [EventLoop.step, EventLoop.loopStep, hpc]
  | cons ch rest ih =>
    cases ch with
    | wakeup =>
      refine leads_loop .handle (e := { s.loop.handleRead with pc := .dispatching rest })
        (by simp [admits, hf]) ?_ (ih hf hq rfl)
      simp [EventLoop.step, EventLoop.loopStep, hpc]
    | other =>
      refine leads_loop .handle (e := { s.loop with pc := .inHandler rest }) (by simp [admits, hf])
        ?_ (leads_settled (.inr ⟨hf, rfl⟩) ?_)
      · simp [EventLoop.step, EventLoop.loopStep, hpc]
      · intro n
        refine leads_loop .handlerReturns (by simp [admits, hf]) rfl ?_
        exact ih hf hq rfl

theorem leads_of_inHandler {rest : List Active} (hpc : s.loop.pc = .inHandler rest) :
    (machine F Tid).Leads s LoopDone := by
  refine leads_settled (.inr ⟨hf, by rw [hpc]; rfl⟩) ?_
  intro n
  refine leads_loop .handlerReturns (e := { s.loop with
    self := .idle
    wakeupFd_ := n
    pc := .dispatching rest }) (by simp [admits, hf]) ?_ (leads_of_dispatching hf hq rfl)
  simp [EventLoop.step, EventLoop.loopStep, hpc]

theorem leads_of_inFunctor (hpc : s.loop.pc = .inFunctor) : (machine F Tid).Leads s LoopDone := by
  refine leads_settled (.inr ⟨hf, by rw [hpc]; rfl⟩) ?_
  intro n
  refine leads_loop .functorReturns (e := { s.loop with
    self := .idle
    wakeupFd_ := n
    pc := .running }) (by simp [admits, hf]) ?_ (leads_of_running hf hq rfl)
  simp [EventLoop.step, EventLoop.loopStep, hpc]

/-- Wherever the loop stands past its reset, it can return. -/
theorem leads_loopDone (hp : s.loop.pc.pastReset = true) : (machine F Tid).Leads s LoopDone := by
  cases hpc : s.loop.pc with
  | outside | entered => simp [hpc, LoopPc.pastReset] at hp
  | whileTest => exact leads_of_whileTest hf hq hpc
  | polling =>
    refine leads_loop (.pollReturn []) (e := { s.loop with pc := .dispatching [] })
      (by simp [admits, hf]) ?_ (leads_of_dispatching hf hq rfl)
    simp [EventLoop.step, EventLoop.loopStep, hpc]
  | dispatching rest => exact leads_of_dispatching hf hq hpc
  | inHandler rest => exact leads_of_inHandler hf hq hpc
  | swapping => exact leads_of_swapping hf hq hpc
  | running => exact leads_of_running hf hq hpc
  | inFunctor => exact leads_of_inFunctor hf hq hpc
  | returned => exact .now ⟨hf, hpc⟩

end

/-! ## The end of the thread -/

abbrev Ended (s : EventLoopThread F Tid) : Prop := s.func = .ended

theorem leads_of_clearing (h : s.func = .clearing) : (machine F Tid).Leads s Ended := by
  refine .step (t := { s with loop_ := none, mutex_ := none, func := .ended }) .clear ?_ (.now rfl)
  simp [machine, step, startStep, funcStep, h]

/-- The mutex is free, or `startLoop` holds it and goes on waiting. -/
theorem leads_of_locking_func (hl : Locked s) (h : s.func = .locking) :
    (machine F Tid).Leads s Ended := by
  have hfree : ∀ s : EventLoopThread F Tid, s.func = .locking → s.mutex_ = none →
      (machine F Tid).Leads s Ended := by
    intro s h hm
    refine .step (t := { s with mutex_ := some .threadFunc, func := .clearing }) .lockAgain ?_
      (leads_of_clearing rfl)
    simp [machine, step, startStep, funcStep, h, hm]
  cases hm : s.mutex_ with
  | none => exact hfree s h hm
  | some owner =>
    cases owner with
    | startLoop =>
      refine .step (t := { s with start := .waiting, mutex_ := none }) .test ?_ (hfree _ h rfl)
      simp [machine, step, startStep, hl.byStart hm, hl.unset]
    | threadFunc => simp [hl.byFunc hm] at h

theorem leads_ended (h : (machine F Tid).Reachable s) (hq : s.loop.quit_ = true)
    (hp : s.loop.pc.pastReset = true) : (machine F Tid).Leads s Ended := by
  have hlate : s.func.notified = true := by
    by_contra hn
    have hpc := (placed h).early (by simpa using hn)
    simp [hpc, LoopPc.pastReset] at hp
  have hreturns : ∀ s : EventLoopThread F Tid, (machine F Tid).Reachable s → LoopDone s →
      (machine F Tid).Leads s Ended := by
    rintro s hs ⟨hf, hpc⟩
    have hst : s.step .leaveLoop = some { s with func := .locking } := by
      simp [step, startStep, funcStep, dtorStep, hf, hpc]
    exact .step .leaveLoop hst (leads_of_locking_func ((locked hs).step hst) rfl)
  cases hf : s.func with
  | notStarted | spawned | constructing | calling | publishing | notifying =>
    simp [hf, FuncPc.notified] at hlate
  | looping =>
    obtain ⟨ls, t, hrun, ht⟩ := leads_loopDone hf hq hp
    refine Machine.Leads.trans (P := fun u => u = t) ⟨ls, t, hrun, rfl⟩ ?_
    rintro u rfl
    exact hreturns u (h.run (Machine.along_true s ls) hrun) ht
  | locking => exact leads_of_locking_func (locked h) hf
  | clearing => exact leads_of_clearing hf
  | ended => exact .now hf

/-- Where no `quit` comes before the reset of `quit_`, a request that has been made stays
until `loop()` returns: the next test leaves the loop, and the thread can end and be
joined. -/
theorem quit_request_kept (h : (machine F Tid).Reach QuitsAfterReset s) (hasked : s.asked = true) :
    s.loop.quit_ = true ∧
      (∀ t, s.step (.loop .testQuit) = some t → t.loop.pc = .returned) ∧
      (machine F Tid).Leads s fun t => t.func = .ended := by
  obtain ⟨hq, hp⟩ := kept h hasked
  refine ⟨hq, ?_, leads_ended h.reachable hq hp⟩
  intro t hst
  cases step_cases hst with
  | loop ha hst' =>
    cases EventLoop.step_cases hst' with
    | goOn _ hn => simp [hq] at hn
    | leave => rfl

/-- The destructor quits the polling loop while a functor of the callback is queued. -/
theorem quit_request_kept_polling :
    ∃ s, (machine String Nat).Reach QuitsAfterReset s ∧ s.asked = true ∧
      s.loop.quit_ = true ∧
      (∀ t, s.step (.loop .testQuit) = some t → t.loop.pc = .returned) ∧
      (machine String Nat).Leads s fun t => t.func = .ended := by
  have h₀ : (machine String Nat).Reach QuitsAfterReset { callback_ := true } := .init ⟨true, rfl⟩
  have h₁ := h₀.step .start (by trivial) rfl
  have h₂ := h₁.step .semPost (by trivial) rfl
  have h₃ := h₂.step (.construct 1) (by trivial) rfl
  have h₄ := h₃.step (.loop (.selfPush "init")) (by trivial) rfl
  have h₅ := h₄.step (.loop .selfTest) (by trivial) rfl
  have h₆ := h₅.step .callbackReturns (by trivial) rfl
  have h₇ := h₆.step .publish (by trivial) rfl
  have h₈ := h₇.step .notify (by trivial) rfl
  have h₉ := h₈.step (.loop .enter) (by trivial) rfl
  have h₁₀ := h₉.step (.loop .resetQuit) (by trivial) rfl
  have h₁₁ := h₁₀.step (.loop .testQuit) (by trivial) rfl
  have h₁₂ := h₁₁.step .setExiting (by trivial) rfl
  have h₁₃ := h₁₂.step .testLoop (by trivial) rfl
  have h₁₄ := h₁₃.step .quit (by exact rfl) rfl
  exact ⟨_, h₁₄, rfl, quit_request_kept h₁₄ rfl⟩

/-! ## Requests that come too early -/

/-- No step takes a request back from the record. -/
theorem asked_stays (hst : s.step l = some t) (h : s.asked = true) : t.asked = true := by
  cases step_cases hst with
  | loop => simp [h]
  | quit => rfl
  | _ => exact h

/-- The reset is the only way past itself. -/
theorem quit_of_reset (hst : s.step l = some t) (hs : s.loop.pc.pastReset = false)
    (ht : t.loop.pc.pastReset = true) : t.loop.quit_ = false := by
  cases step_cases hst with
  | loop ha hst' =>
    cases EventLoop.step_cases hst' with
    | resetQuit => rfl
    | enter => simp [LoopPc.pastReset] at ht
    | push | wake | storeQuit | join | selfPush | selfTest | selfWake | selfQuit =>
      simp [EventLoop.enqueue, EventLoop.setThread, EventLoop.wakeup, hs] at ht
    | _ => simp_all [LoopPc.pastReset]
  | wake => simp [EventLoop.wakeup, hs] at ht
  | _ => simp [hs] at ht

/-- A request made before the reset is erased in every run that gets past it. -/
theorem early_request_erased {ls : List (LoopThreadLabel F Tid)} (ha : s.asked = true)
    (hs : s.loop.pc.pastReset = false) (hrun : (machine F Tid).run s ls = some t)
    (ht : t.loop.pc.pastReset = true) :
    ∃ xs ys u, ls = xs ++ ys ∧ (machine F Tid).run s xs = some u ∧ u.asked = true ∧
      u.loop.quit_ = false := by
  induction ls generalizing s with
  | nil =>
    obtain rfl := Option.some.inj hrun
    simp [hs] at ht
  | cons l ls ih =>
    obtain ⟨u, hu, hrest⟩ := Option.bind_eq_some_iff.mp hrun
    have hau := asked_stays hu ha
    by_cases hp : u.loop.pc.pastReset = true
    · refine ⟨[l], ls, u, rfl, ?_, hau, quit_of_reset hu hs hp⟩
      rw [Machine.run, hu]
      rfl
    · obtain ⟨xs, ys, v, rfl, hxs, hv⟩ := ih hau (by simpa using hp) hrest
      refine ⟨l :: xs, ys, v, rfl, ?_, hv⟩
      rw [Machine.run, hu, Option.bind_some, hxs]

/-- Nobody calls `quit`. -/
def NoQuit (_ : EventLoopThread F Tid) : LoopThreadLabel F Tid → Prop
  | .loop (.storeQuit _) | .loop .selfQuit | .quit => False
  | _ => True

/-- The destructor waits for a thread that has not been asked to end. -/
structure JoinsForEver (s : EventLoopThread F Tid) : Prop where
  joining : s.dtor = .joining
  started : s.start ≠ .idle
  func : s.func = .looping
  quit : s.loop.quit_ = false
  pc : s.loop.pc ≠ .returned

theorem JoinsForEver.step (h : JoinsForEver s) (hok : NoQuit s l) (hst : s.step l = some t) :
    JoinsForEver t := by
  obtain ⟨hj, hs, hf, hq, hp⟩ := h
  cases step_cases hst with
  | loop ha hst' =>
    cases EventLoop.step_cases hst' with
    | storeQuit | selfQuit => exact hok.elim
    | leave _ hquit => simp [hq] at hquit
    | push | wake | join | selfPush | selfTest | selfWake => exact ⟨hj, hs, hf, hq, hp⟩
    | resetQuit => exact ⟨hj, hs, hf, rfl, by simp⟩
    | _ => exact ⟨hj, hs, hf, hq, by simp⟩
  | start hidle => exact absurd hidle hs
  | _ => grind [JoinsForEver]

/-- The destructor's `quit` falls between the publication and the reset. The loop polls
on, and as long as nobody calls `quit` again the destructor does not return. -/
theorem quit_request_erased :
    ∃ s, (machine String Nat).run {}
        [.start, .semPost, .construct 1, .publish, .setExiting, .testLoop, .quit, .notify,
          .wake, .loop .enter, .loop .resetQuit, .loop .testQuit] = some s ∧
      s.asked = true ∧ s.loop.quit_ = false ∧ s.loop.pc = .polling ∧
      ∀ ls t, (machine String Nat).Along NoQuit s ls → (machine String Nat).run s ls = some t →
        t.dtor = .joining := by
  refine ⟨_, rfl, rfl, rfl, rfl, ?_⟩
  intro ls t hquiet hrun
  refine (hquiet.invariant (I := JoinsForEver) ?_ ⟨rfl, by simp, rfl, rfl, by simp⟩ hrun).joining
  intro s l t h hok hst
  exact h.step hok hst

end EventLoopThread

end Muduo
