import Muduo.Connection.Phases
import Muduo.EventLoop.Basic

/-!
# A connection shared by threads

Any thread may call `send` and `shutdown`. Off the loop thread these test `state_`, may
store to it, and queue a functor, each in a step of its own. The loop thread dispatches
events handler by handler, swaps the functor queue and runs functors; user code calls
into the connection between these steps.

Other threads only ever change `state_` from here on to `kDisconnecting`. Most calls on
the loop thread cannot tell when during the call that happens, and are one step each.
The exception is `connectDestroyed`, whose test and store of `state_` are two steps.
-/

namespace Muduo

/-- One call of `send` that saw `kConnected`. -/
structure Send where
  id : Nat
  data : List UInt8
  deriving DecidableEq, Repr

inductive ConnFunctor where
  | sendInLoop (x : Send)
  | shutdownInLoop
  | connectDestroyed
  deriving DecidableEq, Repr

/-- Where another thread stands in its call. -/
inductive CallerPc where
  | idle
  /-- `send` passed its test and is about to queue -/
  | sending (x : Send)
  /-- `shutdown` passed its test and is about to store `kDisconnecting` -/
  | storing
  /-- `shutdown` is about to queue `shutdownInLoop` -/
  | queueing
  deriving DecidableEq, Repr

structure ThreadedConnection (Tid : Type*) where
  conn : TcpConnection
  queue : FunctorQueue ConnFunctor := {}
  /-- the handlers of the current dispatch that are still to run -/
  todo : List TcpConnection.Handler := []
  /-- the loop thread is inside `connectDestroyed`, past its test -/
  destroying : Bool := false
  caller : Tid → CallerPc := fun _ => .idle
  /-- the number of sends that saw `kConnected` -/
  sends : Nat := 0
  /-- those of them that have returned -/
  returned : List Send := []
  /-- those that had returned when `shutdown` last passed its test -/
  before : List Send := []
  /-- the calls of `sendInLoop`, in order -/
  executed : List Send := []
  destroyIssued : Bool := false
  /-- `state_` at the return of `connectDestroyed` -/
  destroyed : Option StateE := none

inductive ConnLabel (Tid : Type*) where
  -- another thread
  | send (t : Tid) (data : List UInt8)
  | pushSend (t : Tid)
  | shutdown (t : Tid)
  | store (t : Tid)
  | pushShutdown (t : Tid)
  -- whoever queues `connectDestroyed`
  | pushDestroy
  -- the loop thread
  | swap
  | runFunctor (w : WriteResult)
  | dispatch (revents : EventMask)
  | handler (r : ReadResult) (w : WriteResult)
  | userCall (u : UserCall)
  | destroy
  | destroyRest (calls : List UserCall)
  deriving Repr

namespace ThreadedConnection

variable {Tid : Type*}

/-- The loop thread is between handlers and functors of this connection. -/
def idle (s : ThreadedConnection Tid) : Prop := s.todo = [] ∧ s.destroying = false

instance (s : ThreadedConnection Tid) : Decidable s.idle := inferInstanceAs (Decidable (_ ∧ _))

/-- `connectDestroyed` up to its test, and all of it when the test fails. -/
def destroyTest (s : ThreadedConnection Tid) : ThreadedConnection Tid :=
  if s.conn.state_ = .kConnected then { s with destroying := true }
  else { s with conn := s.conn.removeChannel, destroyed := some s.conn.state_ }

def runFunctor (s : ThreadedConnection Tid) (w : WriteResult) : ConnFunctor → ThreadedConnection Tid
  | .sendInLoop x =>
    { s with conn := s.conn.sendInLoop x.data w, executed := s.executed ++ [x] }
  | .shutdownInLoop => { s with conn := s.conn.shutdownInLoop }
  | .connectDestroyed => s.destroyTest

/-- The history of a user's call on the loop thread: `send` is complete when it returns. -/
def recordCall (s : ThreadedConnection Tid) : UserCall → ThreadedConnection Tid
  | .send data _ =>
    if s.conn.state_ = .kConnected then
      { s with
        sends := s.sends + 1
        returned := s.returned ++ [⟨s.sends, data⟩]
        executed := s.executed ++ [⟨s.sends, data⟩] }
    else s
  | .shutdown => if s.conn.state_ = .kConnected then { s with before := s.returned } else s
  | .retrieve _ => s

def userCall (s : ThreadedConnection Tid) (u : UserCall) : ThreadedConnection Tid :=
  { s.recordCall u with conn := s.conn.userCall u }

/-- Steps of the loop thread. The handlers of one poll come before the swap, and the
whole batch before the next poll. -/
def loopStep (s : ThreadedConnection Tid) : ConnLabel Tid → Option (ThreadedConnection Tid)
  | .swap =>
    if s.idle ∧ s.queue.functors = [] then some { s with queue := s.queue.swap } else none
  | .runFunctor w =>
    match s.queue.next with
    | some (f, q) => if s.idle then some ({ s with queue := q }.runFunctor w f) else none
    | none => none
  | .dispatch revents =>
    if s.idle ∧ s.queue.functors = [] ∧ s.conn.registered = true then
      some { s with todo := TcpConnection.handlers revents }
    else none
  | .handler r w =>
    match s.todo with
    | h :: hs =>
      if s.destroying = false then
        some { s with conn := TcpConnection.runHandler { read := r, write := w } s.conn h, todo := hs }
      else none
    | [] => none
  | .userCall u => if s.destroying = false then some (s.userCall u) else none
  | .destroy =>
    if s.destroying = false ∧ s.destroyIssued = false then
      some { s with destroyIssued := true }.destroyTest
    else none
  | .destroyRest calls =>
    if s.destroying = true then
      let conn := (s.conn.disconnect.userCalls calls).removeChannel
      some { s with conn := conn, destroying := false, destroyed := some conn.state_ }
    else none
  | .pushDestroy =>
    if s.destroyIssued = false then
      some { s with destroyIssued := true, queue := s.queue.push .connectDestroyed }
    else none
  | .send .. | .pushSend _ | .shutdown _ | .store _ | .pushShutdown _ => none

/-! ## Sends under way -/

/-- A thread is about to queue a send, or one is queued and not yet run. -/
def InFlight (s : ThreadedConnection Tid) : Prop :=
  (∃ t x, s.caller t = .sending x) ∨ ∃ x, .sendInLoop x ∈ s.queue.all

@[simp] theorem queue_destroyTest (s : ThreadedConnection Tid) : s.destroyTest.queue = s.queue := by
  unfold destroyTest
  split <;> rfl

@[simp] theorem caller_destroyTest (s : ThreadedConnection Tid) :
    s.destroyTest.caller = s.caller := by
  unfold destroyTest
  split <;> rfl

/-! ### The user's calls on the loop thread -/

/-- Only the connection and its history change. -/
theorem userCall_eq (s : ThreadedConnection Tid) (u : UserCall) :
    ∃ sends returned before executed, s.userCall u =
      { s with
        conn := s.conn.userCall u
        sends := sends
        returned := returned
        before := before
        executed := executed } := by
  refine ⟨(s.recordCall u).sends, (s.recordCall u).returned, (s.recordCall u).before,
    (s.recordCall u).executed, ?_⟩
  cases u <;> simp only [userCall, recordCall] <;> split <;> rfl

theorem userCall_send {s : ThreadedConnection Tid} (hs : s.conn.state_ = .kConnected)
    (data : List UInt8) (w : WriteResult) :
    s.userCall (.send data w) =
      { s with
        conn := s.conn.sendInLoop data w
        sends := s.sends + 1
        returned := s.returned ++ [⟨s.sends, data⟩]
        executed := s.executed ++ [⟨s.sends, data⟩] } := by
  simp [userCall, recordCall, hs, TcpConnection.userCall, TcpConnection.send]

theorem userCall_shutdown {s : ThreadedConnection Tid} (hs : s.conn.state_ = .kConnected) :
    s.userCall .shutdown =
      { s with
        conn := (s.conn.setState .kDisconnecting).shutdownInLoop
        before := s.returned } := by
  simp [userCall, recordCall, hs, TcpConnection.userCall, TcpConnection.shutdown]

theorem userCall_of_not_connected {s : ThreadedConnection Tid}
    (hs : s.conn.state_ ≠ .kConnected) (u : UserCall) :
    ∃ b, s.userCall u = { s with conn := { s.conn with inputBuffer_ := b } } := by
  obtain ⟨b, hb⟩ := TcpConnection.userCall_of_not_connected hs u
  refine ⟨b, ?_⟩
  cases u <;> simp [userCall, recordCall, hs, hb]

@[simp] theorem queue_userCall (s : ThreadedConnection Tid) (u : UserCall) :
    (s.userCall u).queue = s.queue := by
  obtain ⟨_, _, _, _, h⟩ := s.userCall_eq u
  rw [h]

@[simp] theorem caller_userCall (s : ThreadedConnection Tid) (u : UserCall) :
    (s.userCall u).caller = s.caller := by
  obtain ⟨_, _, _, _, h⟩ := s.userCall_eq u
  rw [h]

/-- Sends leave the queue by being run. -/
theorem InFlight.of_next {s t : ThreadedConnection Tid} {f : ConnFunctor} {q : FunctorQueue ConnFunctor}
    (h : InFlight t) (hn : s.queue.next = some (f, q)) (hq : t.queue = q)
    (hc : t.caller = s.caller) : InFlight s := by
  rcases h with ⟨u, x, h⟩ | ⟨x, h⟩
  · exact .inl ⟨u, x, hc ▸ h⟩
  · exact .inr ⟨x, by rw [FunctorQueue.all_next hn, ← hq]; exact List.mem_cons_of_mem _ h⟩

/-! ## All threads -/

variable [DecidableEq Tid]

def setCaller (s : ThreadedConnection Tid) (t : Tid) (pc : CallerPc) : ThreadedConnection Tid :=
  { s with caller := Function.update s.caller t pc }

/-- Steps of all threads. -/
def move (s : ThreadedConnection Tid) : ConnLabel Tid → Option (ThreadedConnection Tid)
  | .send t data =>
    if s.caller t = .idle then
      some <|
        if s.conn.state_ = .kConnected then
          { s.setCaller t (.sending ⟨s.sends, data⟩) with sends := s.sends + 1 }
        else s
    else none
  | .pushSend t =>
    match s.caller t with
    | .sending x =>
      some
        { s.setCaller t .idle with
          queue := s.queue.push (.sendInLoop x)
          returned := s.returned ++ [x] }
    | _ => none
  | .shutdown t =>
    if s.caller t = .idle then
      some <|
        if s.conn.state_ = .kConnected then { s.setCaller t .storing with before := s.returned }
        else s
    else none
  | .store t =>
    if s.caller t = .storing then
      some { s.setCaller t .queueing with conn := s.conn.setState .kDisconnecting }
    else none
  | .pushShutdown t =>
    if s.caller t = .queueing then
      some { s.setCaller t .idle with queue := s.queue.push .shutdownInLoop }
    else none
  | l => s.loopStep l

/-- A failed assertion ends the program. -/
def step (s : ThreadedConnection Tid) (l : ConnLabel Tid) : Option (ThreadedConnection Tid) :=
  if s.conn.aborted = none then s.move l else none

/-- An established connection, with nothing queued and no caller under way. -/
def machine (Tid : Type*) [DecidableEq Tid] :
    Machine (ThreadedConnection Tid) (ConnLabel Tid) where
  init s := ∃ c, TcpConnection.Fresh c ∧ s = { conn := c.connectEstablished [] }
  step := step

/-! ## The steps as a relation -/

/-- Every way to move, with its guard: proofs go by cases on this. -/
inductive Steps (s : ThreadedConnection Tid) :
    ConnLabel Tid → ThreadedConnection Tid → Prop where
  | send {t : Tid} {data : List UInt8} : s.caller t = .idle → s.conn.state_ = .kConnected →
      Steps s (.send t data)
        { s.setCaller t (.sending ⟨s.sends, data⟩) with sends := s.sends + 1 }
  | sendRefused {t : Tid} {data : List UInt8} : s.conn.state_ ≠ .kConnected →
      Steps s (.send t data) s
  | pushSend {t : Tid} {x : Send} : s.caller t = .sending x →
      Steps s (.pushSend t)
        { s.setCaller t .idle with
          queue := s.queue.push (.sendInLoop x)
          returned := s.returned ++ [x] }
  | shutdown {t : Tid} : s.caller t = .idle → s.conn.state_ = .kConnected →
      Steps s (.shutdown t) { s.setCaller t .storing with before := s.returned }
  | shutdownRefused {t : Tid} : s.conn.state_ ≠ .kConnected → Steps s (.shutdown t) s
  | store {t : Tid} : s.caller t = .storing →
      Steps s (.store t) { s.setCaller t .queueing with conn := s.conn.setState .kDisconnecting }
  | pushShutdown {t : Tid} : s.caller t = .queueing →
      Steps s (.pushShutdown t)
        { s.setCaller t .idle with queue := s.queue.push .shutdownInLoop }
  | pushDestroy : s.destroyIssued = false →
      Steps s .pushDestroy
        { s with destroyIssued := true, queue := s.queue.push .connectDestroyed }
  | swap : s.idle → s.queue.functors = [] → Steps s .swap { s with queue := s.queue.swap }
  | sendInLoop {w : WriteResult} {x : Send} {q : FunctorQueue ConnFunctor} : s.idle →
      s.queue.next = some (.sendInLoop x, q) →
      Steps s (.runFunctor w)
        { s with queue := q, conn := s.conn.sendInLoop x.data w, executed := s.executed ++ [x] }
  | shutdownInLoop {w : WriteResult} {q : FunctorQueue ConnFunctor} : s.idle →
      s.queue.next = some (.shutdownInLoop, q) →
      Steps s (.runFunctor w) { s with queue := q, conn := s.conn.shutdownInLoop }
  | connectDestroyed {w : WriteResult} {q : FunctorQueue ConnFunctor} : s.idle →
      s.queue.next = some (.connectDestroyed, q) →
      Steps s (.runFunctor w) { s with queue := q }.destroyTest
  | dispatch {revents : EventMask} : s.idle → s.queue.functors = [] →
      s.conn.registered = true →
      Steps s (.dispatch revents) { s with todo := TcpConnection.handlers revents }
  | handler {r : ReadResult} {w : WriteResult} {h : TcpConnection.Handler}
      {hs : List TcpConnection.Handler} : s.todo = h :: hs → s.destroying = false →
      Steps s (.handler r w)
        { s with conn := TcpConnection.runHandler { read := r, write := w } s.conn h, todo := hs }
  | userCall (u : UserCall) : s.destroying = false → Steps s (.userCall u) (s.userCall u)
  | destroy : s.destroying = false → s.destroyIssued = false →
      Steps s .destroy { s with destroyIssued := true }.destroyTest
  | destroyRest {calls : List UserCall} {c : TcpConnection} : s.destroying = true →
      c = (s.conn.disconnect.userCalls calls).removeChannel →
      Steps s (.destroyRest calls)
        { s with conn := c, destroying := false, destroyed := some c.state_ }

variable {s t : ThreadedConnection Tid} {l : ConnLabel Tid}

theorem step_cases (h : s.step l = some t) : s.conn.aborted = none ∧ Steps s l t := by
  simp only [step, Option.ite_none_right_eq_some] at h
  refine ⟨h.1, ?_⟩
  replace h := h.2
  cases l <;>
    simp only [move, loopStep, Option.ite_none_right_eq_some, Option.some.injEq] at h
  case send =>
    obtain ⟨hi, h⟩ := h
    split at h
    · exact h ▸ .send hi ‹_›
    · exact h ▸ .sendRefused ‹_›
  case pushSend =>
    split at h
    · exact Option.some.inj h ▸ .pushSend ‹_›
    · contradiction
  case shutdown =>
    obtain ⟨hi, h⟩ := h
    split at h
    · exact h ▸ .shutdown hi ‹_›
    · exact h ▸ .shutdownRefused ‹_›
  case store => exact h.2 ▸ .store h.1
  case pushShutdown => exact h.2 ▸ .pushShutdown h.1
  case pushDestroy => exact h.2 ▸ .pushDestroy h.1
  case swap => exact h.2 ▸ .swap h.1.1 h.1.2
  case runFunctor =>
    split at h
    · simp only [Option.ite_none_right_eq_some, Option.some.injEq] at h
      obtain ⟨hi, rfl⟩ := h
      rename_i f q hn
      cases f with
      | sendInLoop x => exact .sendInLoop hi hn
      | shutdownInLoop => exact .shutdownInLoop hi hn
      | connectDestroyed => exact .connectDestroyed hi hn
    · contradiction
  case dispatch => exact h.2 ▸ .dispatch h.1.1 h.1.2.1 h.1.2.2
  case handler =>
    split at h
    · simp only [Option.ite_none_right_eq_some, Option.some.injEq] at h
      exact h.2 ▸ .handler ‹_› h.1
    · contradiction
  case userCall => exact h.2 ▸ .userCall _ h.1
  case destroy => exact h.2 ▸ .destroy h.1.1 h.1.2
  case destroyRest => exact h.2 ▸ .destroyRest h.1 rfl

/-- A caller found elsewhere than where one is put was there before. -/
theorem caller_of_setCaller {u v : Tid} {pc pc' : CallerPc} (hpc : pc ≠ pc')
    (h : (s.setCaller u pc).caller v = pc') : s.caller v = pc' := by
  by_cases hv : v = u
  · subst hv
    simp [setCaller, hpc] at h
  · simpa [setCaller, hv] using h

theorem InFlight.of_setCaller {u : Tid} {pc : CallerPc} (hpc : ∀ x, pc ≠ .sending x)
    (h : InFlight (s.setCaller u pc)) : InFlight s := by
  rcases h with ⟨v, x, h⟩ | h
  · exact .inl ⟨v, x, caller_of_setCaller (hpc x) h⟩
  · exact .inr h

/-- Once `state_` has left `kConnected`, no send gets under way. -/
theorem inFlight_of_step (hst : s.step l = some t) (hs : s.conn.state_ ≠ .kConnected)
    (h : InFlight t) : InFlight s := by
  cases (step_cases hst).2 with
  | send _ hs' => exact absurd hs' hs
  | pushSend hc => exact .inl ⟨_, _, hc⟩
  | shutdown _ hs' => exact absurd hs' hs
  | store => exact .of_setCaller (by simp) h
  | pushShutdown =>
    rcases h with h | ⟨x, h⟩
    · have hidle : ∀ x, CallerPc.idle ≠ .sending x := by simp
      exact .of_setCaller hidle (.inl h)
    · exact .inr ⟨x, by simpa using h⟩
  | pushDestroy =>
    rcases h with h | ⟨x, h⟩
    · exact .inl h
    · exact .inr ⟨x, by simpa using h⟩
  | swap hi hf =>
    rcases h with h | ⟨x, h⟩
    · exact .inl h
    · exact .inr ⟨x, by rwa [s.queue.all_swap hf] at h⟩
  | sendInLoop hi hn => exact h.of_next hn rfl rfl
  | shutdownInLoop hi hn => exact h.of_next hn rfl rfl
  | connectDestroyed hi hn =>
    exact h.of_next hn (queue_destroyTest _) (caller_destroyTest _)
  | userCall u => simpa [InFlight] using h
  | destroy => simpa [InFlight] using h
  | _ => exact h

end ThreadedConnection

end Muduo
