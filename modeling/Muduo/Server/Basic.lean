import Mathlib.Data.List.AList
import Muduo.Connection.Phases
import Muduo.EventLoop.Basic

/-!
# The server and its loops

`TcpServer` accepts on the base loop and hands each connection to an io loop, which may be
the base loop itself. A connection is torn down in three hops: `handleClose` on its io loop,
`removeConnectionInLoop` on the base loop, and `connectDestroyed` on the io loop again. A
hop to the loop one is on is a plain call, except the last one, which is always queued.

Each loop dispatches events handler by handler, swaps its functor queue and runs the batch.
Steps of different loops interleave freely: the loops share nothing but the queues.
-/

namespace Muduo

/-- An accepted connection, as an object. -/
abbrev ConnId := Nat

/-- The number in a connection's name; the rest of the name is the same for all. -/
abbrev ConnName := BitVec 32

/-- How often the connection has invoked `closeCallback_`. -/
def TcpConnection.closeCallbacks (c : TcpConnection) : Nat := c.effects.count .closeCallback

inductive ServerFunctor where
  | connectEstablished (id : ConnId)
  | removeConnectionInLoop (id : ConnId)
  | connectDestroyed (id : ConnId)
  deriving DecidableEq, Repr

/-- The connection that is bound into the functor. -/
def ServerFunctor.conn : ServerFunctor → ConnId
  | .connectEstablished id | .removeConnectionInLoop id | .connectDestroyed id => id

/-- A callback of a connection's channel that the current dispatch is still to run. -/
structure Callback where
  conn : ConnId
  env : TcpConnection.Environment
  handler : TcpConnection.Handler

/-- The callback ends in `handleClose`. -/
def Callback.closes (k : Callback) : Bool := k.handler.closes k.env.read

/-- What loops run for a connection. -/
inductive LoopCall where
  | connectEstablished
  | handler (h : TcpConnection.Handler)
  | connectDestroyed
  deriving DecidableEq, Repr

/-- A `TcpConnection` with the members that only the server and the loops use. -/
structure Accepted (L : Type*) where
  conn : TcpConnection
  loop_ : L
  name_ : ConnName
  /-- what has been run for the connection, in order -/
  log : List LoopCall := []
  /-- and the loop that ran each of it -/
  ranOn : List L := []

/-- Loop `l` has run something that left the connection as `conn`. -/
def Accepted.ran {L : Type*} (a : Accepted L) (l : L) (what : LoopCall) (conn : TcpConnection) :
    Accepted L :=
  { a with conn := conn, log := a.log ++ [what], ranOn := a.ranOn ++ [l] }

/-- All that has been run for the connection was run by its io loop. -/
def Accepted.OnLoop {L : Type*} (a : Accepted L) : Prop :=
  a.ranOn = List.replicate a.log.length a.loop_

theorem Accepted.OnLoop.ran {L : Type*} {a : Accepted L} (h : a.OnLoop) (what : LoopCall)
    (conn : TcpConnection) : (a.ran a.loop_ what conn).OnLoop := by
  unfold OnLoop at h ⊢
  simp [Accepted.ran, h, List.replicate_succ']

/-- `L` names the loops, each with a thread of its own. -/
structure TcpServer (L : Type*) where
  loop_ : L
  nextConnId_ : ConnName := 1
  connections_ : AList fun _ : ConnName => ConnId := ∅
  writeCompleteCallback_ : Bool := false
  /-- every connection ever accepted -/
  accepted : List (Accepted L) := []
  /-- each run of `removeConnectionInLoop`, with the loop that ran it -/
  removals : List (ConnId × L) := []
  queues : L → FunctorQueue ServerFunctor := fun _ => {}
  /-- the rest of each loop's current dispatch -/
  todo : L → List Callback := fun _ => []

inductive ServerLabel (L : Type*) where
  /-- the acceptor's callback; `ioLoop` is what `getNextLoop` returned -/
  | newConnection (ioLoop : L) (addr sockfd : Nat) (calls : List UserCall)
  | dispatch (id : ConnId) (revents : EventMask) (env : TcpConnection.Environment)
  | handler (l : L)
  | swap (l : L)
  | runFunctor (l : L) (calls : List UserCall)
  /-- user code on the io loop's thread, at any point of it -/
  | userCall (id : ConnId) (u : UserCall)

namespace TcpServer

variable {L : Type*}

/-- Change one connection. -/
def modify (s : TcpServer L) (id : ConnId) (f : Accepted L → Accepted L) : TcpServer L :=
  { s with accepted := s.accepted.modify id f }

/-- Loop `l` runs something for the connection. -/
def call (s : TcpServer L) (l : L) (id : ConnId) (what : LoopCall)
    (f : TcpConnection → TcpConnection) : TcpServer L :=
  s.modify id fun a => a.ran l what (f a.conn)

/-- The callback up to the point where it may invoke `closeCallback_`. -/
def callHandler (s : TcpServer L) (l : L) (k : Callback) : TcpServer L :=
  s.call l k.conn (.handler k.handler) (TcpConnection.runHandler k.env · k.handler)

/-- How often the connection has invoked `closeCallback_`. -/
def closeCallbacks (s : TcpServer L) (id : ConnId) : Nat :=
  (s.accepted[id]?.map (·.conn.closeCallbacks)).getD 0

variable [DecidableEq L]

def queueInLoop (s : TcpServer L) (l : L) (f : ServerFunctor) : TcpServer L :=
  { s with queues := Function.update s.queues l ((s.queues l).push f) }

/-- Runs on the thread of loop `l`. -/
def removeConnectionInLoop (s : TcpServer L) (id : ConnId) (l : L) : TcpServer L :=
  match s.accepted[id]? with
  | some a =>
    { s with
      connections_ := s.connections_.erase a.name_
      removals := s.removals ++ [(id, l)] }.queueInLoop a.loop_ (.connectDestroyed id)
  | none => s

/-- The close callback, called on the thread of loop `l`: `loop_->runInLoop`. -/
def removeConnection (s : TcpServer L) (id : ConnId) (l : L) : TcpServer L :=
  if l = s.loop_ then s.removeConnectionInLoop id l
  else s.queueInLoop s.loop_ (.removeConnectionInLoop id)

/-- `new TcpConnection(ioLoop, connName, sockfd, ..)` with the server's callbacks set. -/
def newTcpConnection (s : TcpServer L) (ioLoop : L) (addr sockfd : Nat) : Accepted L where
  conn :=
    { TcpConnection.new addr sockfd with writeCompleteCallback_ := s.writeCompleteCallback_ }
  loop_ := ioLoop
  name_ := s.nextConnId_

def newConnection (s : TcpServer L) (ioLoop : L) (addr sockfd : Nat) (calls : List UserCall) :
    TcpServer L :=
  let id := s.accepted.length
  let t :=
    { s with
      nextConnId_ := s.nextConnId_ + 1
      connections_ := s.connections_.insert s.nextConnId_ id
      accepted := s.accepted ++ [s.newTcpConnection ioLoop addr sockfd] }
  if ioLoop = s.loop_ then t.call s.loop_ id .connectEstablished (·.connectEstablished calls)
  else t.queueInLoop ioLoop (.connectEstablished id)

/-- Run one functor on loop `l`. -/
def runFunctor (s : TcpServer L) (l : L) (calls : List UserCall) : ServerFunctor → TcpServer L
  | .connectEstablished id => s.call l id .connectEstablished (·.connectEstablished calls)
  | .removeConnectionInLoop id => s.removeConnectionInLoop id l
  | .connectDestroyed id => s.call l id .connectDestroyed (·.connectDestroyed calls)

/-- Run one channel callback on loop `l`. `closeCallback_` is bound to `removeConnection`, and
is the last thing that `handleClose` does. -/
def runCallback (s : TcpServer L) (l : L) (k : Callback) : TcpServer L :=
  if s.closeCallbacks k.conn < (s.callHandler l k).closeCallbacks k.conn then
    (s.callHandler l k).removeConnection k.conn l
  else s.callHandler l k

/-- The loop is between the functors of a batch and the next swap, and calls nothing. -/
def polled (s : TcpServer L) (l : L) : Prop := s.todo l = [] ∧ (s.queues l).functors = []

instance (s : TcpServer L) (l : L) : Decidable (s.polled l) :=
  decidable_of_iff ((s.todo l).isEmpty = true ∧ (s.queues l).functors = []) (by simp [polled])

def move (s : TcpServer L) : ServerLabel L → Option (TcpServer L)
  | .newConnection ioLoop addr sockfd calls =>
    if s.polled s.loop_ then some (s.newConnection ioLoop addr sockfd calls) else none
  | .dispatch id revents env =>
    match s.accepted[id]? with
    | some a =>
      if s.polled a.loop_ ∧ a.conn.registered = true then
        some
          { s with
            todo := Function.update s.todo a.loop_
              ((TcpConnection.handlers revents).map fun h => ⟨id, env, h⟩) }
      else none
    | none => none
  | .handler l =>
    match s.todo l with
    | k :: ks => some ({ s with todo := Function.update s.todo l ks }.runCallback l k)
    | [] => none
  | .swap l =>
    if s.polled l then some { s with queues := Function.update s.queues l (s.queues l).swap }
    else none
  | .runFunctor l calls =>
    match s.todo l, (s.queues l).next with
    | [], some (f, q) =>
      some ({ s with queues := Function.update s.queues l q }.runFunctor l calls f)
    | _, _ => none
  | .userCall id u =>
    match s.accepted[id]? with
    | some a =>
      -- the user has the connection from the first callback on
      if a.log = [] then none
      else some (s.modify id fun a => { a with conn := a.conn.userCall u })
    | none => none

/-- A failed assertion ends the program. -/
def step (s : TcpServer L) (l : ServerLabel L) : Option (TcpServer L) :=
  if s.accepted.all (·.conn.aborted.isNone) then s.move l else none

/-- A started server that has not accepted anything, for as long as it lives. -/
def machine (L : Type*) [DecidableEq L] : Machine (TcpServer L) (ServerLabel L) where
  init s := ∃ base b, s = { loop_ := base, writeCompleteCallback_ := b }
  step := step

/-! ## The steps as a relation -/

/-- The next functor of a batch, called with `q` left. -/
def popped (s : TcpServer L) (l : L) (q : FunctorQueue ServerFunctor) : TcpServer L :=
  { s with queues := Function.update s.queues l q }

/-- Every way to move, with its guard. -/
inductive Moves (s : TcpServer L) : ServerLabel L → TcpServer L → Prop where
  | newConnection (ioLoop : L) (addr sockfd : Nat) (calls : List UserCall) : s.polled s.loop_ →
      Moves s (.newConnection ioLoop addr sockfd calls) (s.newConnection ioLoop addr sockfd calls)
  | dispatch {id : ConnId} {a : Accepted L} (revents : EventMask)
      (env : TcpConnection.Environment) : s.accepted[id]? = some a → s.polled a.loop_ →
      a.conn.registered = true →
      Moves s (.dispatch id revents env)
        { s with
          todo := Function.update s.todo a.loop_
            ((TcpConnection.handlers revents).map fun h => ⟨id, env, h⟩) }
  | handler {l : L} {k : Callback} {ks : List Callback} : s.todo l = k :: ks →
      Moves s (.handler l) ({ s with todo := Function.update s.todo l ks }.runCallback l k)
  | swap {l : L} : s.polled l →
      Moves s (.swap l) { s with queues := Function.update s.queues l (s.queues l).swap }
  | runFunctor {l : L} {f : ServerFunctor} {q : FunctorQueue ServerFunctor}
      (calls : List UserCall) : s.todo l = [] → (s.queues l).next = some (f, q) →
      Moves s (.runFunctor l calls) ((s.popped l q).runFunctor l calls f)
  | userCall {id : ConnId} {a : Accepted L} (u : UserCall) : s.accepted[id]? = some a →
      a.log ≠ [] →
      Moves s (.userCall id u) (s.modify id fun a => { a with conn := a.conn.userCall u })

variable {s t : TcpServer L} {lab : ServerLabel L}

theorem step_moves (h : s.step lab = some t) : Moves s lab t := by
  simp only [step, Option.ite_none_right_eq_some] at h
  replace h := h.2
  cases lab <;> simp only [move] at h
  case newConnection ioLoop addr sockfd calls =>
    simp only [Option.ite_none_right_eq_some, Option.some.injEq] at h
    exact h.2 ▸ .newConnection ioLoop addr sockfd calls h.1
  case dispatch id revents env =>
    split at h
    · simp only [Option.ite_none_right_eq_some, Option.some.injEq] at h
      exact h.2 ▸ .dispatch revents env ‹_› h.1.1 h.1.2
    · contradiction
  case handler l =>
    split at h
    · exact Option.some.inj h ▸ .handler ‹_›
    · contradiction
  case swap l =>
    simp only [Option.ite_none_right_eq_some, Option.some.injEq] at h
    exact h.2 ▸ .swap h.1
  case runFunctor l calls =>
    split at h
    · exact Option.some.inj h ▸ .runFunctor calls ‹_› ‹_›
    · contradiction
  case userCall id u =>
    split at h
    · split at h
      · contradiction
      · exact Option.some.inj h ▸ .userCall u ‹_› ‹_›
    · contradiction

end TcpServer

end Muduo
