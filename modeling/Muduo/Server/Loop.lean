import Muduo.Connection.Phases
import Muduo.EventLoop.Batches
import Muduo.Server.Basic

/-!
# One round of a loop

A loop polls, dispatches the channels that are ready one after the other, swaps its functor
queue and runs the batch. The ready channels are bare pointers in `activeChannels_`, and wait
there for their turn with the events that the poll reported.
-/

namespace Muduo

/-- A ready channel: the acceptor's, a connection's with its events and what its next
`readFd` will return, or one of someone else on the loop. -/
inductive Ready where
  | acceptor
  | conn (id : ConnId) (revents : EventMask) (read : ReadResult)
  | other
  deriving DecidableEq, Repr

/-- The channel whose `handleEvent` is under way. -/
inductive Dispatch where
  /-- with the connection that `newConnection` has just accepted -/
  | acceptor (accepted : Option ConnId)
  /-- with the callbacks still to run; `closing` inside `handleClose`, before the call of
  `closeCallback_` -/
  | conn (id : ConnId) (read : ReadResult) (rest : List TcpConnection.Handler) (closing : Bool)
  | other
  deriving DecidableEq, Repr

/-- The start of `handleEvent`. -/
def Ready.dispatch : Ready → Dispatch
  | .acceptor => .acceptor none
  | .conn id revents read => .conn id read (TcpConnection.handlers revents) false
  | .other => .other

/-- `handleClose` is under way or is still to run. -/
def Dispatch.willClose : Dispatch → Bool
  | .conn _ read rest closing => closing || rest.any (·.closes read)
  | .acceptor _ | .other => false

/-- The connection to which the dispatch holds a `shared_ptr`. -/
def Dispatch.conn? : Dispatch → Option ConnId
  | .acceptor accepted => accepted
  | .conn id .. => some id
  | .other => none

/-- Functors that hold a `shared_ptr`, and any others. -/
inductive HeldFunctor where
  | connectEstablished (id : ConnId)
  | removeConnectionInLoop (id : ConnId)
  | connectDestroyed (id : ConnId)
  /-- `writeCompleteCallback_` or `highWaterMarkCallback_` -/
  | callback (id : ConnId)
  | other
  deriving DecidableEq, Repr

/-- The connection that is bound into the functor. -/
def HeldFunctor.conn? : HeldFunctor → Option ConnId
  | .connectEstablished id | .removeConnectionInLoop id | .connectDestroyed id | .callback id =>
    some id
  | .other => none

inductive LoopPhase where
  | polling | dispatching | calling
  deriving DecidableEq, Repr

structure LoopState where
  phase : LoopPhase := .polling
  /-- the part of `activeChannels_` that is still waiting -/
  activeChannels_ : List Ready := []
  current : Option Dispatch := none
  queue : LoopFunctors HeldFunctor := {}
  /-- `loop()` has returned and its thread is gone -/
  stopped : Bool := false

inductive LoopEvent where
  | poll (ready : List Ready)
  | handleEvent
  | callback
  | closeCallback
  | endDispatch
  | swap
  | call
  | finish
  | release
  deriving Repr

/-- What a step of a loop calls outside the loop. -/
inductive LoopEffect where
  | none
  | closeCallback (id : ConnId)
  | run (f : HeldFunctor)
  deriving DecidableEq, Repr

namespace LoopState

def push (st : LoopState) (f : HeldFunctor) : LoopState := { st with queue := st.queue.push f }

def step (st : LoopState) : LoopEvent → Option (LoopState × LoopEffect)
  | .poll ready =>
    if st.phase = .polling then
      some ({ st with phase := .dispatching, activeChannels_ := ready }, .none)
    else none
  | .handleEvent =>
    match st.current, st.activeChannels_ with
    | none, r :: rs => some ({ st with activeChannels_ := rs, current := some r.dispatch }, .none)
    | _, _ => none
  | .callback =>
    match st.current with
    | some (.conn id read (h :: hs) false) =>
      some ({ st with current := some (.conn id read hs (h.closes read)) }, .none)
    | _ => none
  | .closeCallback =>
    match st.current with
    | some (.conn id read rest true) =>
      some ({ st with current := some (.conn id read rest false) }, .closeCallback id)
    | _ => none
  | .endDispatch =>
    match st.current with
    | some (.conn _ _ [] false) | some (.acceptor _) | some .other =>
      some ({ st with current := none }, .none)
    | _ => none
  | .swap =>
    if st.phase = .dispatching ∧ st.activeChannels_ = [] ∧ st.current = none then
      some ({ st with phase := .calling, queue := st.queue.swap }, .none)
    else none
  | .call =>
    match st.queue.call with
    | some (f, q) => if st.phase = .calling then some ({ st with queue := q }, .run f) else none
    | none => none
  | .finish =>
    if st.queue.running.isSome then some ({ st with queue := st.queue.finish }, .none) else none
  | .release =>
    if st.phase = .calling ∧ st.queue.through then
      some ({ st with phase := .polling, queue := st.queue.release }, .none)
    else none

/-- Channels wait and are dispatched between a poll and the next swap, and a batch is called
between that swap and the next poll. -/
structure Wf (st : LoopState) : Prop where
  batch : st.phase ≠ .calling → st.queue.functors = []
  active : st.phase ≠ .dispatching → st.activeChannels_ = []
  current : st.phase ≠ .dispatching → st.current = none

/-- Every step of a loop, with its guard: proofs go by cases on this. -/
inductive Steps (st : LoopState) : LoopEvent → LoopState → LoopEffect → Prop where
  | poll (ready : List Ready) : st.phase = .polling →
      Steps st (.poll ready) { st with phase := .dispatching, activeChannels_ := ready } .none
  | handleEvent {r : Ready} {rs : List Ready} : st.current = none → st.activeChannels_ = r :: rs →
      Steps st .handleEvent { st with activeChannels_ := rs, current := some r.dispatch } .none
  | callback {id : ConnId} {read : ReadResult} {h : TcpConnection.Handler}
      {hs : List TcpConnection.Handler} : st.current = some (.conn id read (h :: hs) false) →
      Steps st .callback { st with current := some (.conn id read hs (h.closes read)) } .none
  | closeCallback {id : ConnId} {read : ReadResult} {rest : List TcpConnection.Handler} :
      st.current = some (.conn id read rest true) →
      Steps st .closeCallback { st with current := some (.conn id read rest false) }
        (.closeCallback id)
  | endDispatch {d : Dispatch} : st.current = some d →
      Steps st .endDispatch { st with current := none } .none
  | swap : st.phase = .dispatching → st.activeChannels_ = [] → st.current = none →
      Steps st .swap { st with phase := .calling, queue := st.queue.swap } .none
  | call {f : HeldFunctor} {q : LoopFunctors HeldFunctor} : st.queue.call = some (f, q) →
      st.phase = .calling → Steps st .call { st with queue := q } (.run f)
  | finish : Steps st .finish { st with queue := st.queue.finish } .none
  | release : st.phase = .calling → st.queue.through →
      Steps st .release { st with phase := .polling, queue := st.queue.release } .none

variable {st st' : LoopState} {e : LoopEvent} {x : LoopEffect}

theorem step_cases (h : st.step e = some (st', x)) : Steps st e st' x := by
  cases e with
  | poll ready =>
    simp only [step, Option.ite_none_right_eq_some, Option.some.injEq, Prod.mk.injEq] at h
    obtain ⟨hp, rfl, rfl⟩ := h
    exact .poll ready hp
  | handleEvent =>
    simp only [step] at h
    split at h
    · simp only [Option.some.injEq, Prod.mk.injEq] at h
      obtain ⟨rfl, rfl⟩ := h
      exact .handleEvent ‹_› ‹_›
    · contradiction
  | callback =>
    simp only [step] at h
    split at h
    · simp only [Option.some.injEq, Prod.mk.injEq] at h
      obtain ⟨rfl, rfl⟩ := h
      exact .callback ‹_›
    · contradiction
  | closeCallback =>
    simp only [step] at h
    split at h
    · simp only [Option.some.injEq, Prod.mk.injEq] at h
      obtain ⟨rfl, rfl⟩ := h
      exact .closeCallback ‹_›
    · contradiction
  | endDispatch =>
    simp only [step] at h
    split at h
    any_goals
      simp only [Option.some.injEq, Prod.mk.injEq] at h
      obtain ⟨rfl, rfl⟩ := h
      exact .endDispatch ‹_›
    contradiction
  | swap =>
    simp only [step, Option.ite_none_right_eq_some, Option.some.injEq, Prod.mk.injEq] at h
    obtain ⟨⟨hp, ha, hc⟩, rfl, rfl⟩ := h
    exact .swap hp ha hc
  | call =>
    simp only [step] at h
    split at h
    · simp only [Option.ite_none_right_eq_some, Option.some.injEq, Prod.mk.injEq] at h
      obtain ⟨hp, rfl, rfl⟩ := h
      exact .call ‹_› hp
    · contradiction
  | finish =>
    simp only [step, Option.ite_none_right_eq_some, Option.some.injEq, Prod.mk.injEq] at h
    obtain ⟨-, rfl, rfl⟩ := h
    exact .finish
  | release =>
    simp only [step, Option.ite_none_right_eq_some, Option.some.injEq, Prod.mk.injEq] at h
    obtain ⟨⟨hp, ht⟩, rfl, rfl⟩ := h
    exact .release hp ht

theorem Wf.push (h : Wf st) (f : HeldFunctor) : Wf (st.push f) := ⟨h.batch, h.active, h.current⟩

theorem Wf.step (h : Wf st) (hst : Steps st e st' x) : Wf st' := by
  obtain ⟨hb, ha, hc⟩ := h
  cases hst with
  | call _ hp => exact ⟨fun h => absurd hp h, ha, hc⟩
  | finish => exact ⟨hb, ha, hc⟩
  | release hp ht => exact ⟨fun _ => ht.2, by simp_all, by simp_all⟩
  | _ => constructor <;> grind

/-- Functors wait until they are called. -/
theorem Steps.waiting (h : Wf st) (hst : Steps st e st' x) :
    (∃ f, x = .run f) ∨ st'.queue.waiting = st.queue.waiting := by
  cases hst with
  | call hq => exact .inl ⟨_, rfl⟩
  | swap hp =>
    refine .inr ?_
    simp [LoopFunctors.waiting, LoopFunctors.swap, h.batch (by simp [hp])]
  | _ => exact .inr rfl

/-- A loop that goes round does not end its thread. -/
theorem Steps.stopped (hst : Steps st e st' x) : st'.stopped = st.stopped := by
  cases hst <;> rfl

theorem Steps.active (hst : Steps st e st' x) {r : Ready} (hr : r ∈ st'.activeChannels_) :
    r ∈ st.activeChannels_ ∨ ∃ ready, e = .poll ready ∧ r ∈ ready := by
  cases hst with
  | poll ready => exact .inr ⟨ready, rfl, hr⟩
  | handleEvent _ ha => exact .inl (ha ▸ List.mem_cons_of_mem _ hr)
  | _ => exact .inl hr

/-- A connection that is dispatched was so before, or was waiting. -/
theorem Steps.current (hst : Steps st e st' x) {id : ConnId} {read : ReadResult}
    {rest : List TcpConnection.Handler} {closing : Bool}
    (hc : st'.current = some (.conn id read rest closing)) :
    (∃ rest closing, st.current = some (.conn id read rest closing)) ∨
      ∃ revents, .conn id revents read ∈ st.activeChannels_ := by
  cases hst with
  | @handleEvent r rs _ ha =>
    cases r with
    | conn id' revents read' =>
      simp only [Ready.dispatch, Option.some.injEq, Dispatch.conn.injEq] at hc
      obtain ⟨rfl, rfl, -⟩ := hc
      exact .inr ⟨revents, ha ▸ List.mem_cons_self⟩
    | acceptor => simp [Ready.dispatch] at hc
    | other => simp [Ready.dispatch] at hc
  | callback hd =>
    simp only [Option.some.injEq, Dispatch.conn.injEq] at hc
    obtain ⟨rfl, rfl, -⟩ := hc
    exact .inl ⟨_, _, hd⟩
  | closeCallback hd =>
    simp only [Option.some.injEq, Dispatch.conn.injEq] at hc
    obtain ⟨rfl, rfl, -⟩ := hc
    exact .inl ⟨_, _, hd⟩
  | endDispatch => simp at hc
  | _ => exact .inl ⟨rest, closing, hc⟩

/-- What is queued outside a dispatch was queued before the poll. -/
theorem Steps.pending (hst : Steps st e st' x) (hp : st'.phase ≠ .dispatching) {f : HeldFunctor}
    (hf : f ∈ st'.queue.pendingFunctors_) :
    st.phase ≠ .dispatching ∧ f ∈ st.queue.pendingFunctors_ := by
  cases hst with
  | poll => exact absurd rfl hp
  | swap => simp [LoopFunctors.swap] at hf
  | call hq =>
    obtain ⟨-, -, he⟩ := LoopFunctors.call_eq_some hq
    exact ⟨hp, by rw [he] at hf; exact hf⟩
  | release hc => exact ⟨by simp [hc], hf⟩
  | _ => exact ⟨hp, hf⟩

/-- The call of `closeCallback_` is made in the course of a dispatch. -/
theorem Steps.closeCallback_dispatching (h : Wf st) {id : ConnId}
    (hst : Steps st e st' (.closeCallback id)) :
    (∃ read rest, st.current = some (.conn id read rest true)) ∧ st'.phase = .dispatching := by
  cases hst with
  | closeCallback hd =>
    refine ⟨⟨_, _, hd⟩, ?_⟩
    by_contra hp
    simp [h.current hp] at hd

/-- A functor is called from the batch. -/
theorem Steps.run_waiting {f : HeldFunctor} (hst : Steps st e st' (.run f)) :
    st.queue.waiting = f :: st'.queue.waiting ∧ st.phase = .calling ∧ st'.phase = .calling := by
  cases hst with
  | call hq hp => exact ⟨LoopFunctors.waiting_call hq, hp, hp⟩

end LoopState

end Muduo
