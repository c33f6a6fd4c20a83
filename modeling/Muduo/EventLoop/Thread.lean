import Muduo.EventLoop.Order

/-!
# A loop in a thread of its own

`EventLoopThread` with the three parties that meet in it: the thread that calls
`startLoop`, the new thread that runs `threadFunc`, and whoever runs the destructor.
`threadFunc` stores the address of its loop in `loop_`, notifies, and enters `loop()`;
`startLoop` waits for that and hands the address on.

In `threadFunc` the line `std::unique_lock<std::mutex> lock();` declares a function. It
locks nothing, so the store to `loop_` needs no mutex. And `startLoop` waits until its
own variable `loop` is not null, which nothing assigns while it waits. So it waits for
ever, notified or not.
-/

namespace Muduo

/-- Who holds `mutex_`. -/
inductive MutexOwner where
  | startLoop | threadFunc
  deriving DecidableEq, Repr

/-- Where the caller of `startLoop` stands. -/
inductive StartPc where
  | idle
  /-- in `Thread::start`, waiting for the semaphore -/
  | starting
  | locking
  /-- at the test of the while loop, with the mutex -/
  | testing
  /-- in `cond_.wait`, without it -/
  | waiting
  /-- woken up and about to lock again -/
  | awakened
  | returned (loop : Option Nat)
  deriving DecidableEq, Repr

/-- Where the new thread stands. -/
inductive FuncPc where
  | notStarted
  /-- running, and about to post the semaphore -/
  | spawned
  | constructing
  /-- in `callback_` -/
  | calling
  | publishing
  | notifying
  /-- in `loop.loop()` -/
  | looping
  | locking
  | clearing
  | ended
  deriving DecidableEq, Repr

/-- Where the destructor stands. -/
inductive DtorPc where
  | idle
  /-- `exiting_` is stored, and `loop_` is about to be tested -/
  | exiting
  /-- `loop_` was not null, and `quit_` is about to be stored -/
  | quitting
  | waking
  | joining
  | done
  deriving DecidableEq, Repr

/-- `loop_` has been stored to. -/
def FuncPc.published : FuncPc → Bool
  | .notifying | .looping | .locking | .clearing | .ended => true
  | .notStarted | .spawned | .constructing | .calling | .publishing => false

/-- `notify_one` has been called as well. -/
def FuncPc.notified : FuncPc → Bool
  | .looping | .locking | .clearing | .ended => true
  | .notStarted | .spawned | .constructing | .calling | .publishing | .notifying => false

/-- Between the test of the while loop and its next test. -/
def StartPc.inWaitLoop : StartPc → Bool
  | .testing | .waiting | .awakened => true
  | .idle | .starting | .locking | .returned _ => false

/-- A handler or a functor runs. -/
def LoopPc.inCallback : LoopPc → Bool
  | .inHandler _ | .inFunctor => true
  | _ => false

/-- Addresses of loops are numbers, and `none` is the null pointer. -/
structure EventLoopThread (F Tid : Type*) where
  loop_ : Option Nat := none
  exiting_ : Bool := false
  callback_ : Bool := false
  mutex_ : Option MutexOwner := none
  /-- the semaphore of `Thread::start` -/
  posted : Bool := false
  /-- the variable `loop` of `startLoop` -/
  startLoopVar : Option Nat := none
  start : StartPc := .idle
  func : FuncPc := .notStarted
  dtor : DtorPc := .idle
  /-- the address of the variable `loop` of `threadFunc`, and the object -/
  created : Option Nat := none
  loop : EventLoop F Tid := {}
  /-- `quit` has been called since `loop_` was stored to -/
  asked : Bool := false

inductive LoopThreadLabel (F Tid : Type*) where
  -- the caller of `startLoop`
  | start
  | semWait
  | lock
  | test
  | spuriousWakeup
  -- the new thread
  | semPost
  | construct (addr : Nat)
  | callbackReturns
  | publish
  | notify
  | leaveLoop
  | lockAgain
  | clear
  -- the loop, on its thread or through its public functions
  | loop (l : LoopLabel F Tid)
  -- the destructor
  | setExiting
  | testLoop
  | quit
  | wake
  | join
  deriving Repr

namespace EventLoopThread

variable {F Tid : Type*}

/-- User code on the loop's thread runs in `callback_`, in handlers and in functors; other
threads use the loop while it is published and has not been destroyed. -/
def admits (s : EventLoopThread F Tid) : LoopLabel F Tid → Bool
  | .push .. | .wake _ | .storeQuit _ => s.func.published && s.func != .ended
  | .selfPush _ | .selfTest | .selfWake | .selfQuit =>
    s.func == .calling || (s.func == .looping && s.loop.pc.inCallback)
  | .join _ => false
  | .enter | .resetQuit | .testQuit | .pollReturn _ | .handle | .handlerReturns | .setCalling
  | .swap | .call | .functorReturns | .endBatch => s.func == .looping

/-- The step stores `quit_ = true` after publication. -/
def asks (s : EventLoopThread F Tid) : LoopLabel F Tid → Bool
  | .storeQuit _ | .selfQuit => s.func.published
  | _ => false

/-- Steps of the caller of `startLoop`. -/
def startStep (s : EventLoopThread F Tid) : LoopThreadLabel F Tid → Option (EventLoopThread F Tid)
  | .start =>
    if s.start = .idle then some { s with start := .starting, func := .spawned } else none
  | .semWait =>
    if s.start = .starting ∧ s.posted = true then some { s with start := .locking } else none
  | .lock =>
    if (s.start = .locking ∨ s.start = .awakened) ∧ s.mutex_ = none then
      some { s with start := .testing, mutex_ := some .startLoop }
    else none
  | .test =>
    if s.start = .testing then
      some <|
        if s.startLoopVar = none then { s with start := .waiting, mutex_ := none }
        else
          { s with startLoopVar := s.loop_, start := .returned s.loop_, mutex_ := none }
    else none
  | .spuriousWakeup => if s.start = .waiting then some { s with start := .awakened } else none
  | _ => none

/-- Steps of `threadFunc`, its loop apart. -/
def funcStep (s : EventLoopThread F Tid) : LoopThreadLabel F Tid → Option (EventLoopThread F Tid)
  | .semPost =>
    if s.func = .spawned then some { s with posted := true, func := .constructing } else none
  | .construct addr =>
    if s.func = .constructing then
      some { s with
        created := some addr
        func := if s.callback_ then .calling else .publishing }
    else none
  | .callbackReturns =>
    if s.func = .calling ∧ s.loop.self = .idle then some { s with func := .publishing } else none
  | .publish =>
    if s.func = .publishing then some { s with loop_ := s.created, func := .notifying } else none
  | .notify =>
    if s.func = .notifying then
      some { s with
        start := if s.start = .waiting then .awakened else s.start
        func := .looping }
    else none
  | .leaveLoop =>
    if s.func = .looping ∧ s.loop.pc = .returned then some { s with func := .locking } else none
  | .lockAgain =>
    if s.func = .locking ∧ s.mutex_ = none then
      some { s with mutex_ := some .threadFunc, func := .clearing }
    else none
  | .clear =>
    if s.func = .clearing then some { s with loop_ := none, mutex_ := none, func := .ended }
    else none
  | _ => none

/-- Steps of the destructor, which is not run on the loop's thread. -/
def dtorStep (s : EventLoopThread F Tid) : LoopThreadLabel F Tid → Option (EventLoopThread F Tid)
  | .setExiting =>
    if s.dtor = .idle then some { s with exiting_ := true, dtor := .exiting } else none
  | .testLoop =>
    if s.dtor = .exiting then
      some { s with dtor := if s.loop_ = none then .done else .quitting }
    else none
  | .quit =>
    if s.dtor = .quitting then
      some { s with loop := { s.loop with quit_ := true }, asked := true, dtor := .waking }
    else none
  | .wake =>
    if s.dtor = .waking then some { s with loop := s.loop.wakeup, dtor := .joining } else none
  | .join => if s.dtor = .joining ∧ s.func = .ended then some { s with dtor := .done } else none
  | _ => none

variable [DecidableEq Tid]

def loopStep (s : EventLoopThread F Tid) (l : LoopLabel F Tid) : Option (EventLoopThread F Tid) :=
  if s.admits l = true then
    (s.loop.step l).map fun loop => { s with loop := loop, asked := s.asked || s.asks l }
  else none

/-- Every label belongs to one of the parties. -/
def step (s : EventLoopThread F Tid) : LoopThreadLabel F Tid → Option (EventLoopThread F Tid)
  | .loop l => s.loopStep l
  | l => ((s.startStep l).or (s.funcStep l)).or (s.dtorStep l)

/-- The object as constructed, with a callback or without. -/
def machine (F Tid : Type*) [DecidableEq Tid] :
    Machine (EventLoopThread F Tid) (LoopThreadLabel F Tid) where
  init s := ∃ callback, s = { callback_ := callback }
  step := step

/-! ## The steps as a relation -/

/-- Every way to move, with its guard. -/
inductive Steps (s : EventLoopThread F Tid) :
    LoopThreadLabel F Tid → EventLoopThread F Tid → Prop where
  | start : s.start = .idle → Steps s .start { s with start := .starting, func := .spawned }
  | semWait : s.start = .starting → s.posted = true → Steps s .semWait { s with start := .locking }
  | lock : s.start = .locking ∨ s.start = .awakened → s.mutex_ = none →
      Steps s .lock { s with start := .testing, mutex_ := some .startLoop }
  | goOnWaiting : s.start = .testing → s.startLoopVar = none →
      Steps s .test { s with start := .waiting, mutex_ := none }
  | leaveWaitLoop : s.start = .testing → s.startLoopVar ≠ none →
      Steps s .test { s with startLoopVar := s.loop_, start := .returned s.loop_, mutex_ := none }
  | spuriousWakeup : s.start = .waiting → Steps s .spuriousWakeup { s with start := .awakened }
  | semPost : s.func = .spawned → Steps s .semPost { s with posted := true, func := .constructing }
  | construct {addr : Nat} : s.func = .constructing →
      Steps s (.construct addr)
        { s with created := some addr, func := if s.callback_ then .calling else .publishing }
  | callbackReturns : s.func = .calling → s.loop.self = .idle →
      Steps s .callbackReturns { s with func := .publishing }
  | publish : s.func = .publishing →
      Steps s .publish { s with loop_ := s.created, func := .notifying }
  | notify : s.func = .notifying →
      Steps s .notify
        { s with start := if s.start = .waiting then .awakened else s.start, func := .looping }
  | leaveLoop : s.func = .looping → s.loop.pc = .returned →
      Steps s .leaveLoop { s with func := .locking }
  | lockAgain : s.func = .locking → s.mutex_ = none →
      Steps s .lockAgain { s with mutex_ := some .threadFunc, func := .clearing }
  | clear : s.func = .clearing →
      Steps s .clear { s with loop_ := none, mutex_ := none, func := .ended }
  | loop {l : LoopLabel F Tid} {loop : EventLoop F Tid} : s.admits l = true →
      s.loop.step l = some loop →
      Steps s (.loop l) { s with loop := loop, asked := s.asked || s.asks l }
  | setExiting : s.dtor = .idle → Steps s .setExiting { s with exiting_ := true, dtor := .exiting }
  | testLoop : s.dtor = .exiting →
      Steps s .testLoop { s with dtor := if s.loop_ = none then .done else .quitting }
  | quit : s.dtor = .quitting →
      Steps s .quit { s with loop := { s.loop with quit_ := true }, asked := true, dtor := .waking }
  | wake : s.dtor = .waking → Steps s .wake { s with loop := s.loop.wakeup, dtor := .joining }
  | join : s.dtor = .joining → s.func = .ended → Steps s .join { s with dtor := .done }

variable {s t : EventLoopThread F Tid} {l : LoopThreadLabel F Tid}

theorem step_cases (h : s.step l = some t) : Steps s l t := by
  cases l <;>
    simp only [step, startStep, funcStep, dtorStep, loopStep, Option.none_or, Option.or_none,
      Option.ite_none_right_eq_some, Option.some.injEq, Option.map_eq_some_iff] at h
  case start => exact h.2 ▸ .start h.1
  case semWait => exact h.2 ▸ .semWait h.1.1 h.1.2
  case lock => exact h.2 ▸ .lock h.1.1 h.1.2
  case test =>
    obtain ⟨hs, h⟩ := h
    split at h
    · exact h ▸ .goOnWaiting hs ‹_›
    · exact h ▸ .leaveWaitLoop hs ‹_›
  case spuriousWakeup => exact h.2 ▸ .spuriousWakeup h.1
  case semPost => exact h.2 ▸ .semPost h.1
  case construct => exact h.2 ▸ .construct h.1
  case callbackReturns => exact h.2 ▸ .callbackReturns h.1.1 h.1.2
  case publish => exact h.2 ▸ .publish h.1
  case notify => exact h.2 ▸ .notify h.1
  case leaveLoop => exact h.2 ▸ .leaveLoop h.1.1 h.1.2
  case lockAgain => exact h.2 ▸ .lockAgain h.1.1 h.1.2
  case clear => exact h.2 ▸ .clear h.1
  case loop =>
    obtain ⟨ha, u, hu, rfl⟩ := h
    exact .loop ha hu
  case setExiting => exact h.2 ▸ .setExiting h.1
  case testLoop => exact h.2 ▸ .testLoop h.1
  case quit => exact h.2 ▸ .quit h.1
  case wake => exact h.2 ▸ .wake h.1
  case join => exact h.2 ▸ .join h.1.1 h.1.2

/-! ## Waiting for ever -/

/-- Who holds the mutex is where it is needed, and `startLoop` has nothing to return. -/
structure Locked (s : EventLoopThread F Tid) : Prop where
  unset : s.startLoopVar = none
  notReturned : ∀ v, s.start ≠ .returned v
  byStart : s.mutex_ = some .startLoop → s.start = .testing
  byFunc : s.mutex_ = some .threadFunc → s.func = .clearing
  order : s.start = .idle ↔ s.func = .notStarted
  post : s.start = .starting → s.posted = true ∨ s.func = .spawned

theorem Locked.step (h : Locked s) (hst : s.step l = some t) : Locked t := by
  obtain ⟨hv, hr, hs, hf, ho, hp⟩ := h
  cases step_cases hst with
  | leaveWaitLoop _ hne => exact absurd hv hne
  | loop => exact ⟨hv, hr, hs, hf, ho, hp⟩
  | _ => constructor <;> grind

theorem locked (h : (machine F Tid).Reachable s) : Locked s := by
  refine h.invariant (I := Locked) ?_ ?_
  · rintro s ⟨callback, rfl⟩
    constructor <;> simp
  · intro s l t hs _ hst
    exact hs.step hst

/-- In the wait loop, with nothing to return. -/
def Hangs (s : EventLoopThread F Tid) : Prop :=
  s.startLoopVar = none ∧ s.start.inWaitLoop = true

theorem Hangs.step (h : Hangs s) (hst : s.step l = some t) : Hangs t := by
  obtain ⟨hv, hw⟩ := h
  cases step_cases hst with
  | leaveWaitLoop _ hne => exact absurd hv hne
  | loop => exact ⟨hv, hw⟩
  | _ => grind [Hangs, StartPc.inWaitLoop]

/-! ### The new thread gets past its notification -/

/-- What the caller waits for has happened. -/
abbrev Notified (s : EventLoopThread F Tid) : Prop := s.func.notified = true

theorem leads_of_publishing (h : s.func = .publishing) :
    (machine F Tid).Leads s Notified := by
  refine .step (t := { s with loop_ := s.created, func := .notifying }) .publish ?_ ?_
  · simp [machine, step, startStep, funcStep, h]
  · exact .step .notify rfl (.now rfl)

/-- User code on the loop's thread completes its call of `queueInLoop`. -/
theorem leads_settled {P : EventLoopThread F Tid → Prop}
    (hin : s.func = .calling ∨ (s.func = .looping ∧ s.loop.pc.inCallback = true))
    (hP : ∀ n, (machine F Tid).Leads
      { s with loop := { s.loop with self := .idle, wakeupFd_ := n } } P) :
    (machine F Tid).Leads s P := by
  have hwaking : ∀ s' : EventLoopThread F Tid,
      s' = { s with loop := { s.loop with self := .waking } } → (machine F Tid).Leads s' P := by
    rintro s' rfl
    refine .step (.loop .selfWake) ?_ (hP (signal s.loop.wakeupFd_))
    rcases hin with h | ⟨h, hc⟩
    · simp [machine, step, loopStep, admits, asks, h, EventLoop.step, EventLoop.loopStep,
        EventLoop.wakeup]
    · simp [machine, step, loopStep, admits, asks, h, hc, EventLoop.step, EventLoop.loopStep,
        EventLoop.wakeup]
  cases hs : s.loop.self with
  | idle =>
    have h := hP s.loop.wakeupFd_
    rwa [← hs] at h
  | waking => exact hwaking s (by rw [← hs])
  | pushed =>
    have htest : s.step (.loop .selfTest) = some { s with loop := { s.loop with
        self := if s.loop.callingPendingFunctors_ then .waking else .idle } } := by
      rcases hin with h | ⟨h, hc⟩
      · simp [step, loopStep, admits, asks, h, hs, EventLoop.step, EventLoop.loopStep]
      · simp [step, loopStep, admits, asks, h, hc, hs, EventLoop.step, EventLoop.loopStep]
    refine .step (.loop .selfTest) htest ?_
    cases s.loop.callingPendingFunctors_ with
    | true => exact hwaking _ rfl
    | false => exact hP s.loop.wakeupFd_

theorem leads_of_calling (h : s.func = .calling) : (machine F Tid).Leads s Notified := by
  refine leads_settled (.inl h) ?_
  intro n
  refine .step .callbackReturns ?_ (leads_of_publishing (s := { s with
    loop := { s.loop with self := .idle, wakeupFd_ := n }
    func := .publishing }) rfl)
  simp [machine, step, startStep, funcStep, h]

theorem leads_of_constructing (h : s.func = .constructing) :
    (machine F Tid).Leads s Notified := by
  by_cases hc : s.callback_ = true
  · refine .step (t := { s with created := some 0, func := .calling }) (.construct 0) ?_
      (leads_of_calling rfl)
    simp [machine, step, startStep, funcStep, h, hc]
  · refine .step (t := { s with created := some 0, func := .publishing }) (.construct 0) ?_
      (leads_of_publishing rfl)
    simp [machine, step, startStep, funcStep, h, hc]

theorem leads_of_spawned (h : s.func = .spawned) : (machine F Tid).Leads s Notified := by
  refine .step (t := { s with posted := true, func := .constructing }) .semPost ?_
    (leads_of_constructing rfl)
  simp [machine, step, startStep, funcStep, h]

theorem leads_notified (h : Locked s) : (machine F Tid).Leads s Notified := by
  cases hf : s.func with
  | notStarted =>
    refine .step (t := { s with start := .starting, func := .spawned }) .start ?_
      (leads_of_spawned rfl)
    simp [machine, step, startStep, h.order.mpr hf]
  | spawned => exact leads_of_spawned hf
  | constructing => exact leads_of_constructing hf
  | calling => exact leads_of_calling hf
  | publishing => exact leads_of_publishing hf
  | notifying =>
    refine .step .notify ?_ (.now (s := { s with
      start := if s.start = .waiting then .awakened else s.start
      func := .looping }) rfl)
    simp [machine, step, startStep, funcStep, hf]
  | looping | locking | clearing | ended => exact .now (by rw [Notified, hf]; rfl)

/-! ### The caller gets into its wait loop -/

/-- Notified, and waiting for ever. -/
abbrev NotifiedInVain (s : EventLoopThread F Tid) : Prop :=
  s.func.notified = true ∧ s.start = .waiting ∧ s.startLoopVar = none

theorem leads_of_testing (h : s.start = .testing) (hv : s.startLoopVar = none)
    (hn : Notified s) : (machine F Tid).Leads s NotifiedInVain := by
  refine .step (t := { s with start := .waiting, mutex_ := none }) .test ?_ (.now ⟨hn, rfl, hv⟩)
  simp [machine, step, startStep, h, hv]

theorem leads_of_locking (h : s.start = .locking ∨ s.start = .awakened)
    (hv : s.startLoopVar = none) (hm : s.mutex_ = none) (hn : Notified s) :
    (machine F Tid).Leads s NotifiedInVain := by
  refine .step (t := { s with start := .testing, mutex_ := some .startLoop }) .lock ?_
    (leads_of_testing rfl hv hn)
  simp [machine, step, startStep, h, hm]

/-- The mutex is free, or `threadFunc` holds it and is about to end. -/
theorem leads_of_wanting (h : Locked s) (hl : s.start = .locking ∨ s.start = .awakened)
    (hn : Notified s) : (machine F Tid).Leads s NotifiedInVain := by
  cases hm : s.mutex_ with
  | none => exact leads_of_locking hl h.unset hm hn
  | some owner =>
    cases owner with
    | startLoop =>
      have ht := h.byStart hm
      simp [ht] at hl
    | threadFunc =>
      refine .step (t := { s with loop_ := none, mutex_ := none, func := .ended }) .clear ?_
        (leads_of_locking hl h.unset rfl rfl)
      simp [machine, step, startStep, funcStep, h.byFunc hm]

theorem leads_in_vain (h : Locked s) (hn : Notified s) :
    (machine F Tid).Leads s NotifiedInVain := by
  cases hs : s.start with
  | idle => simp [Notified, h.order.mp hs, FuncPc.notified] at hn
  | starting =>
    have hp : s.posted = true := by
      refine (h.post hs).resolve_right ?_
      intro hf
      simp [Notified, hf, FuncPc.notified] at hn
    have hst : s.step .semWait = some { s with start := .locking } := by
      simp [step, startStep, funcStep, dtorStep, hs, hp]
    exact .step .semWait hst (leads_of_wanting (h.step hst) (.inl rfl) hn)
  | locking => exact leads_of_wanting h (.inl hs) hn
  | awakened => exact leads_of_wanting h (.inr hs) hn
  | testing => exact leads_of_testing hs h.unset hn
  | waiting => exact .now ⟨hn, hs, h.unset⟩
  | returned v => exact absurd hs (h.notReturned v)

/-- `startLoop` never returns. Whatever has happened so far, a run goes on to where
`threadFunc` has stored to `loop_` and notified while `startLoop` waits, and from there
`startLoop` never leaves its wait loop. -/
theorem startLoop_never_returns (h : (machine F Tid).Reachable s) :
    (∀ v, s.start ≠ .returned v) ∧
      (machine F Tid).Leads s fun t => t.func.notified = true ∧ t.start = .waiting ∧
        ∀ ls u, (machine F Tid).run t ls = some u → u.start.inWaitLoop = true := by
  have hs := locked h
  refine ⟨hs.notReturned, ?_⟩
  obtain ⟨ls, t, hrun, hn⟩ := leads_notified hs
  have ht := locked (h.run (Machine.along_true s ls) hrun)
  have hvain : (machine F Tid).Leads s NotifiedInVain := by
    refine Machine.Leads.trans (P := fun u => u = t) ⟨ls, t, hrun, rfl⟩ ?_
    rintro u rfl
    exact leads_in_vain ht hn
  refine hvain.mono ?_
  rintro t ⟨hn, hw, hv⟩
  refine ⟨hn, hw, ?_⟩
  intro ls u hrun
  have hh : Hangs t := ⟨hv, by simp [hw, StartPc.inWaitLoop]⟩
  exact (Machine.run_invariant (fun _ _ _ hI hst => hI.step hst) hh hrun).2

/-- After a spurious wakeup, with the notification still to come. -/
theorem startLoop_never_returns_awakened :
    ∃ s, (machine String Nat).run {}
        [.start, .semPost, .semWait, .lock, .test, .spuriousWakeup, .construct 1, .publish] =
          some s ∧
      (∀ v, s.start ≠ .returned v) ∧
      (machine String Nat).Leads s fun t => t.func.notified = true ∧ t.start = .waiting ∧
        ∀ ls u, (machine String Nat).run t ls = some u → u.start.inWaitLoop = true := by
  have hinit : (machine String Nat).init {} := ⟨false, rfl⟩
  exact Machine.exists_run hinit rfl fun _ _ h => startLoop_never_returns h

/-- The loop is published and notified while `startLoop` waits, and it goes on waiting. -/
theorem startLoop_hangs :
    ∃ s, (machine String Nat).run {}
        [.start, .semPost, .semWait, .lock, .test, .construct 1, .publish, .notify, .lock,
          .test] = some s ∧
      s.loop_ = some 1 ∧ s.func.notified = true ∧ s.start = .waiting ∧
      ∀ ls t, (machine String Nat).run s ls = some t → t.start.inWaitLoop = true := by
  refine ⟨_, rfl, rfl, rfl, rfl, ?_⟩
  intro ls t hrun
  exact (Machine.run_invariant (I := Hangs) (fun _ _ _ hI hst => hI.step hst) ⟨rfl, rfl⟩ hrun).2

end EventLoopThread

end Muduo
