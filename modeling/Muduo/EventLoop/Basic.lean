import Mathlib.Algebra.Group.Nat.Defs
import Mathlib.Logic.Function.Basic
import Muduo.Library.Machine

/-!
# The event loop and the threads around it

`EventLoop` as a machine. Every access to what threads share is a step of its own: the
critical sections of `queueInLoop` and `doPendingFunctors`, the `eventfd` behind
`wakeupFd_`, and the flags `quit_` and `callingPendingFunctors_`. Labels say who moves.

The loop itself stands at one point of `loop()` at a time, see `LoopPc`. Handlers and
functors are user code: while one runs, the loop thread may queue functors and quit.
-/

namespace Muduo

/-! ## The functor queue -/

/-- `pendingFunctors_`, and the part of the local `functors` not called yet. -/
structure FunctorQueue (F : Type*) where
  pendingFunctors_ : List F := []
  functors : List F := []

namespace FunctorQueue

variable {F : Type*} (q : FunctorQueue F)

/-- `pendingFunctors_.emplace_back(f)` -/
def push (f : F) : FunctorQueue F := { q with pendingFunctors_ := q.pendingFunctors_ ++ [f] }

/-- `functors.swap(pendingFunctors_)` -/
def swap : FunctorQueue F := { pendingFunctors_ := q.functors, functors := q.pendingFunctors_ }

/-- The next functor of the batch is called. -/
def next : Option (F × FunctorQueue F) :=
  match q.functors with
  | [] => none
  | f :: fs => some (f, { q with functors := fs })

/-- Everything queued, oldest first. -/
def all : List F := q.functors ++ q.pendingFunctors_

@[simp] theorem all_push (f : F) : (q.push f).all = q.all ++ [f] := by
  simp [all, push]

@[simp] theorem functors_push (f : F) : (q.push f).functors = q.functors := rfl

@[simp] theorem pendingFunctors_push (f : F) :
    (q.push f).pendingFunctors_ = q.pendingFunctors_ ++ [f] := rfl

@[simp] theorem functors_swap : q.swap.functors = q.pendingFunctors_ := rfl

@[simp] theorem pendingFunctors_swap : q.swap.pendingFunctors_ = q.functors := rfl

theorem all_swap (h : q.functors = []) : q.swap.all = q.all := by
  simp [all, swap, h]

variable {q}

theorem next_eq_some {f : F} {q' : FunctorQueue F} (h : q.next = some (f, q')) :
    q.functors = f :: q'.functors ∧ q'.pendingFunctors_ = q.pendingFunctors_ := by
  unfold next at h
  split at h
  · contradiction
  · simp only [Option.some.injEq, Prod.mk.injEq] at h
    obtain ⟨rfl, rfl⟩ := h
    exact ⟨‹_›, rfl⟩

theorem all_next {f : F} {q' : FunctorQueue F} (h : q.next = some (f, q')) :
    q.all = f :: q'.all := by
  obtain ⟨hf, hp⟩ := next_eq_some h
  simp [all, hf, hp]

end FunctorQueue

/-! ## The wakeup descriptor -/

/-- The largest value an `eventfd` counter can hold. -/
def eventfdMax : Nat := 2 ^ 64 - 2

/-- `wakeup`: a write to a full counter of a non-blocking `eventfd` fails and is logged. -/
def signal (counter : Nat) : Nat := if counter < eventfdMax then counter + 1 else counter

theorem signal_pos (n : Nat) : 0 < signal n := by
  unfold signal eventfdMax
  split <;> omega

/-! ## Who stands where -/

/-- An active channel: the one of `wakeupFd_`, or another. -/
inductive Active where
  | wakeup | other
  deriving DecidableEq, Repr

/-- Where the loop thread stands. -/
inductive LoopPc where
  /-- before `loop()` -/
  | outside
  /-- `looping_` is set and `quit_` is about to be cleared -/
  | entered
  | whileTest
  | polling
  /-- these channels' handlers are still to be called -/
  | dispatching (rest : List Active)
  | inHandler (rest : List Active)
  /-- `callingPendingFunctors_` is set and the queue is about to be swapped -/
  | swapping
  | running
  | inFunctor
  | returned
  deriving DecidableEq, Repr

/-- The loop thread's own call of `queueInLoop`. -/
inductive SelfPc where
  | idle
  /-- pushed, about to test `callingPendingFunctors_` -/
  | pushed
  | waking
  deriving DecidableEq, Repr

/-- Another thread's call into the loop. -/
inductive ThreadPc where
  | idle
  /-- inside `queueInLoop`, between the push and `wakeup()` -/
  | inQueueInLoop
  /-- inside `quit`, between the store and `wakeup()` -/
  | inQuit
  deriving DecidableEq, Repr

/-- A functor with the thread that queued it, `none` for the loop's own, and the number
of swaps made before. -/
structure Queued (F Tid : Type*) where
  functor : F
  source : Option Tid
  batch : Nat
  deriving DecidableEq, Repr

/-- A call of a functor: in the batch of which swap, and on which thread. The thread is always
the loop's own, `none`: `doPendingFunctors` is private, and `loop` alone calls it. -/
structure Executed (F Tid : Type*) where
  item : Queued F Tid
  batch : Nat
  thread : Option Tid
  deriving DecidableEq, Repr

/-- The loop's fields, the positions of the threads, and below them the history. -/
structure EventLoop (F Tid : Type*) where
  looping_ : Bool := false
  quit_ : Bool := false
  callingPendingFunctors_ : Bool := false
  queue : FunctorQueue (Queued F Tid) := {}
  wakeupFd_ : Nat := 0
  pc : LoopPc := .outside
  self : SelfPc := .idle
  thread : Tid → ThreadPc := fun _ => .idle
  /-- every push, in the order of the critical sections -/
  pushes : List (Queued F Tid) := []
  executed : List (Executed F Tid) := []
  swaps : Nat := 0
  /-- for a thread that called `quit`, the number of pushes made before its store -/
  quitMark : Tid → Option Nat := fun _ => none
  joined : Tid → Bool := fun _ => false

inductive LoopLabel (F Tid : Type*) where
  -- another thread
  | push (t : Tid) (f : F)
  | wake (t : Tid)
  | storeQuit (t : Tid)
  | join (t : Tid)
  -- user code on the loop thread
  | selfPush (f : F)
  | selfTest
  | selfWake
  | selfQuit
  -- `loop()`
  | enter
  | resetQuit
  | testQuit
  | pollReturn (active : List Active)
  | handle
  | handlerReturns
  | setCalling
  | swap
  | call
  | functorReturns
  | endBatch
  deriving Repr

/-- User code runs on the loop thread. -/
def LoopPc.userCode : LoopPc → Bool
  | .outside | .inHandler _ | .inFunctor | .returned => true
  | .entered | .whileTest | .polling | .dispatching _ | .swapping | .running => false

namespace EventLoop

variable {F Tid : Type*}

/-- The critical section of `queueInLoop`. -/
def enqueue (s : EventLoop F Tid) (f : F) (source : Option Tid) : EventLoop F Tid :=
  { s with
    queue := s.queue.push ⟨f, source, s.swaps⟩
    pushes := s.pushes ++ [⟨f, source, s.swaps⟩] }

def wakeup (s : EventLoop F Tid) : EventLoop F Tid := { s with wakeupFd_ := signal s.wakeupFd_ }

/-- `handleRead`: the read takes the whole counter. -/
def handleRead (s : EventLoop F Tid) : EventLoop F Tid := { s with wakeupFd_ := 0 }

@[simp] theorem self_handleRead (s : EventLoop F Tid) : s.handleRead.self = s.self := rfl
@[simp] theorem queue_handleRead (s : EventLoop F Tid) : s.handleRead.queue = s.queue := rfl
@[simp] theorem calling_handleRead (s : EventLoop F Tid) :
    s.handleRead.callingPendingFunctors_ = s.callingPendingFunctors_ := rfl

/-- Steps of the loop thread. -/
def loopStep (s : EventLoop F Tid) : LoopLabel F Tid → Option (EventLoop F Tid)
  | .selfPush f =>
    if s.pc.userCode ∧ s.self = .idle then some { s.enqueue f none with self := .pushed } else none
  | .selfTest =>
    if s.self = .pushed then
      some { s with self := if s.callingPendingFunctors_ then .waking else .idle }
    else none
  | .selfWake => if s.self = .waking then some { s.wakeup with self := .idle } else none
  | .selfQuit =>
    if s.pc.userCode ∧ s.self = .idle then some { s with quit_ := true } else none
  | .enter =>
    if s.pc = .outside ∧ s.self = .idle ∧ s.looping_ = false then
      some { s with looping_ := true, pc := .entered }
    else none
  | .resetQuit =>
    if s.pc = .entered then some { s with quit_ := false, pc := .whileTest } else none
  | .testQuit =>
    if s.pc = .whileTest then some { s with pc := if s.quit_ then .returned else .polling } else none
  | .pollReturn active =>
    if s.pc = .polling ∧ (.wakeup ∈ active → 0 < s.wakeupFd_) then
      some { s with pc := .dispatching active }
    else none
  | .handle =>
    match s.pc with
    | .dispatching (.wakeup :: rest) => some { s.handleRead with pc := .dispatching rest }
    | .dispatching (.other :: rest) => some { s with pc := .inHandler rest }
    | _ => none
  | .handlerReturns =>
    match s.pc with
    | .inHandler rest => if s.self = .idle then some { s with pc := .dispatching rest } else none
    | _ => none
  | .setCalling =>
    if s.pc = .dispatching [] then some { s with callingPendingFunctors_ := true, pc := .swapping }
    else none
  | .swap =>
    if s.pc = .swapping then
      some { s with queue := s.queue.swap, swaps := s.swaps + 1, pc := .running }
    else none
  | .call =>
    match s.queue.next with
    | some (f, q) =>
      if s.pc = .running then
        some { s with queue := q, executed := s.executed ++ [⟨f, s.swaps, none⟩], pc := .inFunctor }
      else none
    | none => none
  | .functorReturns =>
    if s.pc = .inFunctor ∧ s.self = .idle then some { s with pc := .running } else none
  | .endBatch =>
    if s.pc = .running ∧ s.queue.functors = [] then some { s with pc := .whileTest } else none
  | .push .. | .wake _ | .storeQuit _ | .join _ => none

variable [DecidableEq Tid]

def setThread (s : EventLoop F Tid) (t : Tid) (pc : ThreadPc) : EventLoop F Tid :=
  { s with thread := Function.update s.thread t pc }

/-- Steps of all threads. `join` waits for the loop's thread, which ends after `loop()`. -/
def step (s : EventLoop F Tid) : LoopLabel F Tid → Option (EventLoop F Tid)
  | .push t f =>
    if s.thread t = .idle then some ((s.enqueue f (some t)).setThread t .inQueueInLoop) else none
  | .wake t => if s.thread t ≠ .idle then some (s.wakeup.setThread t .idle) else none
  | .storeQuit t =>
    if s.thread t = .idle then
      some
        { s.setThread t .inQuit with
          quit_ := true
          quitMark := Function.update s.quitMark t (some s.pushes.length) }
    else none
  | .join t =>
    if s.thread t = .idle ∧ s.pc = .returned then
      some { s with joined := Function.update s.joined t true }
    else none
  | l => s.loopStep l

/-- The loop as its constructor leaves it, and every interleaving from there. -/
def machine (F Tid : Type*) [DecidableEq Tid] : Machine (EventLoop F Tid) (LoopLabel F Tid) where
  init s := s = {}
  step := step

/-! ## The steps as a relation -/

/-- Every way to move, with its guard: proofs go by cases on this. -/
inductive Steps (s : EventLoop F Tid) : LoopLabel F Tid → EventLoop F Tid → Prop where
  | push {t : Tid} (f : F) : s.thread t = .idle →
      Steps s (.push t f) ((s.enqueue f (some t)).setThread t .inQueueInLoop)
  | wake {t : Tid} : s.thread t ≠ .idle → Steps s (.wake t) (s.wakeup.setThread t .idle)
  | storeQuit {t : Tid} : s.thread t = .idle →
      Steps s (.storeQuit t)
        { s.setThread t .inQuit with
          quit_ := true
          quitMark := Function.update s.quitMark t (some s.pushes.length) }
  | join {t : Tid} : s.thread t = .idle → s.pc = .returned →
      Steps s (.join t) { s with joined := Function.update s.joined t true }
  | selfPush (f : F) : s.pc.userCode = true → s.self = .idle →
      Steps s (.selfPush f) { s.enqueue f none with self := .pushed }
  | selfTest : s.self = .pushed →
      Steps s .selfTest { s with self := if s.callingPendingFunctors_ then .waking else .idle }
  | selfWake : s.self = .waking → Steps s .selfWake { s.wakeup with self := .idle }
  | selfQuit : s.pc.userCode = true → s.self = .idle → Steps s .selfQuit { s with quit_ := true }
  | enter : s.pc = .outside → s.self = .idle →
      Steps s .enter { s with looping_ := true, pc := .entered }
  | resetQuit : s.pc = .entered → Steps s .resetQuit { s with quit_ := false, pc := .whileTest }
  | goOn : s.pc = .whileTest → s.quit_ = false → Steps s .testQuit { s with pc := .polling }
  | leave : s.pc = .whileTest → s.quit_ = true → Steps s .testQuit { s with pc := .returned }
  | pollReturn {active : List Active} : s.pc = .polling → (.wakeup ∈ active → 0 < s.wakeupFd_) →
      Steps s (.pollReturn active) { s with pc := .dispatching active }
  | handleRead {rest : List Active} : s.pc = .dispatching (.wakeup :: rest) →
      Steps s .handle { s.handleRead with pc := .dispatching rest }
  | handle {rest : List Active} : s.pc = .dispatching (.other :: rest) →
      Steps s .handle { s with pc := .inHandler rest }
  | handlerReturns {rest : List Active} : s.pc = .inHandler rest → s.self = .idle →
      Steps s .handlerReturns { s with pc := .dispatching rest }
  | setCalling : s.pc = .dispatching [] →
      Steps s .setCalling { s with callingPendingFunctors_ := true, pc := .swapping }
  | swap : s.pc = .swapping →
      Steps s .swap { s with queue := s.queue.swap, swaps := s.swaps + 1, pc := .running }
  | call {f : Queued F Tid} {q : FunctorQueue (Queued F Tid)} : s.pc = .running →
      s.queue.next = some (f, q) →
      Steps s .call
        { s with queue := q, executed := s.executed ++ [⟨f, s.swaps, none⟩], pc := .inFunctor }
  | functorReturns : s.pc = .inFunctor → s.self = .idle →
      Steps s .functorReturns { s with pc := .running }
  | endBatch : s.pc = .running → s.queue.functors = [] →
      Steps s .endBatch { s with pc := .whileTest }

theorem step_cases {s t : EventLoop F Tid} {l : LoopLabel F Tid} (h : s.step l = some t) :
    Steps s l t := by
  cases l <;>
    simp only [step, loopStep, Option.ite_none_right_eq_some, Option.some.injEq] at h
  case push => exact h.2 ▸ .push _ h.1
  case wake => exact h.2 ▸ .wake h.1
  case storeQuit => exact h.2 ▸ .storeQuit h.1
  case join => exact h.2 ▸ .join h.1.1 h.1.2
  case selfPush => exact h.2 ▸ .selfPush _ h.1.1 h.1.2
  case selfTest => exact h.2 ▸ .selfTest h.1
  case selfWake => exact h.2 ▸ .selfWake h.1
  case selfQuit => exact h.2 ▸ .selfQuit h.1.1 h.1.2
  case enter => exact h.2 ▸ .enter h.1.1 h.1.2.1
  case resetQuit => exact h.2 ▸ .resetQuit h.1
  case testQuit =>
    obtain ⟨hpc, rfl⟩ := h
    cases hq : s.quit_ with
    | true => simpa [hq] using Steps.leave hpc hq
    | false => simpa [hq] using Steps.goOn hpc hq
  case pollReturn => exact h.2 ▸ .pollReturn h.1.1 h.1.2
  case handle =>
    split at h
    · exact Option.some.inj h ▸ .handleRead ‹_›
    · exact Option.some.inj h ▸ .handle ‹_›
    · contradiction
  case handlerReturns =>
    split at h
    · simp only [Option.ite_none_right_eq_some, Option.some.injEq] at h
      exact h.2 ▸ .handlerReturns ‹_› h.1
    · contradiction
  case setCalling => exact h.2 ▸ .setCalling h.1
  case swap => exact h.2 ▸ .swap h.1
  case call =>
    split at h
    · simp only [Option.ite_none_right_eq_some, Option.some.injEq] at h
      exact h.2 ▸ .call h.1 ‹_›
    · contradiction
  case functorReturns => exact h.2 ▸ .functorReturns h.1.1 h.1.2
  case endBatch => exact h.2 ▸ .endBatch h.1.1 h.1.2

end EventLoop

end Muduo
