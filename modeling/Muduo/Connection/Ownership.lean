import Mathlib.Data.Finset.Insert
import Muduo.Connection.Phases
import Muduo.EventLoop.Batches
import Muduo.Library.Machine

/-!
# Who keeps a connection alive

A connection lives as long as some `shared_ptr` to it. The server's entry is handed on to
`removeConnectionInLoop`, and from there to `connectDestroyed`, each functor with a pointer
of its own. But `send` and `shutdown` on other threads queue functors that are bound to the
bare `this`, and rely on someone else.

What is queued before the batch of `connectDestroyed` is swapped out is called in time. What
a slow caller queues after that lives by the users' pointers alone.

The server outlives the connection here.
-/

namespace Muduo

/-- Functors of the connection on its io loop. -/
inductive BoundFunctor where
  | connectEstablished
  | sendInLoop (data : List UInt8)
  | shutdownInLoop
  /-- `writeCompleteCallback_` or `highWaterMarkCallback_` -/
  | callback
  | connectDestroyed
  deriving DecidableEq, Repr

/-- Bound to a `shared_ptr`; the others are bound to `this`. -/
def BoundFunctor.ownsConn : BoundFunctor → Bool
  | .sendInLoop _ | .shutdownInLoop => false
  | .connectEstablished | .callback | .connectDestroyed => true

/-- While the functor runs, user code is called with the connection. -/
def BoundFunctor.userCode : BoundFunctor → Bool
  | .connectEstablished | .callback | .connectDestroyed => true
  | .sendInLoop _ | .shutdownInLoop => false

/-- Functors of the connection on the base loop. -/
inductive BaseFunctor where
  | removeConnectionInLoop
  deriving DecidableEq, Repr

/-- Where a user thread stands in its call of `send` or `shutdown`. -/
inductive UserPc where
  | idle
  /-- `send` passed its test and is about to queue -/
  | sending (data : List UInt8)
  /-- `shutdown` passed its test and is about to store `kDisconnecting` -/
  | storing
  /-- `shutdown` is about to queue -/
  | queueing
  deriving DecidableEq, Repr

/-- The number of functors that the connection has queued by itself. -/
def TcpConnection.callbacksQueued (c : TcpConnection) : Nat :=
  c.effects.countP fun
    | .queueWriteComplete | .queueHighWaterMark _ => true
    | _ => false

structure OwnedConnection (Tid : Type*) where
  conn : TcpConnection
  /-- the io loop is the server's own loop -/
  sameLoop : Bool
  /-- the entry in `connections_` -/
  entry : Bool := true
  base : LoopFunctors BaseFunctor := {}
  io : LoopFunctors BoundFunctor := {}
  /-- a local pointer on the loop thread: the guard of `handleEvent`, or that of
  `newConnection` -/
  guard : Bool := false
  /-- the handlers of the current dispatch that are still to run -/
  todo : List TcpConnection.Handler := []
  /-- the threads with a `shared_ptr` of their own -/
  holders : Finset Tid := ∅
  caller : Tid → UserPc := fun _ => .idle

inductive OwnLabel (Tid : Type*) where
  -- a user thread
  | copy (t u : Tid)
  | drop (t : Tid)
  | send (t : Tid) (data : List UInt8)
  | pushSend (t : Tid)
  | shutdown (t : Tid)
  | store (t : Tid)
  | pushShutdown (t : Tid)
  -- the io loop
  | dispatch (revents : EventMask)
  | handler (r : ReadResult) (w : WriteResult)
  | endDispatch
  | swap
  | call (w : WriteResult)
  | finish
  | release
  -- user code on the io loop's thread
  | userCall (u : UserCall)
  | share (t : Tid)
  -- the base loop
  | baseSwap
  | baseCall
  | baseRelease
  deriving Repr

namespace OwnedConnection

variable {Tid : Type*}

/-- Some `shared_ptr` to the connection exists. -/
def Owned (s : OwnedConnection Tid) : Prop :=
  s.entry = true ∨ s.guard = true ∨ s.holders.Nonempty ∨ s.base.objects ≠ [] ∨
    ∃ f ∈ s.io.objects, f.ownsConn = true

instance (s : OwnedConnection Tid) : Decidable s.Owned := inferInstanceAs (Decidable (_ ∨ _))

/-- User code runs on the io loop's thread, called with the connection. -/
def userCode (s : OwnedConnection Tid) : Bool :=
  s.guard || s.io.running.any BoundFunctor.userCode

/-- The connection is left as `conn` by the io loop; what it queued carries
`shared_from_this()`. -/
def ran (s : OwnedConnection Tid) (conn : TcpConnection) : OwnedConnection Tid :=
  { s with
    conn := conn
    io := (List.replicate (conn.callbacksQueued - s.conn.callbacksQueued) .callback).foldl
      LoopFunctors.push s.io }

def removeConnectionInLoop (s : OwnedConnection Tid) : OwnedConnection Tid :=
  { s with entry := false, io := s.io.push .connectDestroyed }

/-- The close callback: `loop_->runInLoop`. -/
def removeConnection (s : OwnedConnection Tid) : OwnedConnection Tid :=
  if s.sameLoop then s.removeConnectionInLoop
  else { s with base := s.base.push .removeConnectionInLoop }

def runFunctor (s : OwnedConnection Tid) (w : WriteResult) : BoundFunctor → OwnedConnection Tid
  | .connectEstablished => s.ran (s.conn.connectEstablished [])
  | .sendInLoop data => s.ran (s.conn.sendInLoop data w)
  | .shutdownInLoop => s.ran s.conn.shutdownInLoop
  | .callback => s
  | .connectDestroyed => s.ran (s.conn.connectDestroyed [])

/-- A callback of the channel; `closeCallback_` is the last thing that `handleClose` does. -/
def runHandler (s : OwnedConnection Tid) (r : ReadResult) (w : WriteResult)
    (h : TcpConnection.Handler) : OwnedConnection Tid :=
  let t := s.ran (TcpConnection.runHandler { read := r, write := w } s.conn h)
  if h.closes r then t.removeConnection else t

/-- The loop thread runs no functor and no handler of the connection. -/
def idle (s : OwnedConnection Tid) : Prop :=
  s.guard = false ∧ s.io.through ∧ s.io.called = []

instance (s : OwnedConnection Tid) : Decidable s.idle := inferInstanceAs (Decidable (_ ∧ _))

variable [DecidableEq Tid]

def setCaller (s : OwnedConnection Tid) (t : Tid) (pc : UserPc) : OwnedConnection Tid :=
  { s with caller := Function.update s.caller t pc }

/-- Steps of a user thread. A thread keeps its pointer while it calls. -/
def userStep (s : OwnedConnection Tid) : OwnLabel Tid → Option (OwnedConnection Tid)
  | .copy t u => if t ∈ s.holders then some { s with holders := insert u s.holders } else none
  | .drop t =>
    if t ∈ s.holders ∧ s.caller t = .idle then some { s with holders := s.holders.erase t }
    else none
  | .send t data =>
    if t ∈ s.holders ∧ s.caller t = .idle then
      some (if s.conn.state_ = .kConnected then s.setCaller t (.sending data) else s)
    else none
  | .pushSend t =>
    match s.caller t with
    | .sending data => some { s.setCaller t .idle with io := s.io.push (.sendInLoop data) }
    | _ => none
  | .shutdown t =>
    if t ∈ s.holders ∧ s.caller t = .idle then
      some (if s.conn.state_ = .kConnected then s.setCaller t .storing else s)
    else none
  | .store t =>
    if s.caller t = .storing then
      some { s.setCaller t .queueing with conn := s.conn.setState .kDisconnecting }
    else none
  | .pushShutdown t =>
    if s.caller t = .queueing then
      some { s.setCaller t .idle with io := s.io.push .shutdownInLoop }
    else none
  | _ => none

/-- Steps of the io loop's thread. -/
def ioStep (s : OwnedConnection Tid) : OwnLabel Tid → Option (OwnedConnection Tid)
  | .dispatch revents =>
    if s.idle ∧ s.conn.registered = true ∧ s.Owned then
      some { s with guard := true, todo := TcpConnection.handlers revents }
    else none
  | .handler r w =>
    match s.todo with
    | h :: hs => some ({ s with todo := hs }.runHandler r w h)
    | [] => none
  | .endDispatch =>
    if s.guard = true ∧ s.todo = [] then some { s with guard := false } else none
  | .swap => if s.idle then some { s with io := s.io.swap } else none
  | .call w =>
    match s.io.call with
    | some (f, q) =>
      if s.guard = false then
        -- nothing is said about a call on a destroyed connection
        some (if s.Owned then { s with io := q }.runFunctor w f else { s with io := q })
      else none
    | none => none
  | .finish => if s.io.running.isSome then some { s with io := s.io.finish } else none
  | .release => if s.io.through then some { s with io := s.io.release } else none
  | .userCall u => if s.userCode then some (s.ran (s.conn.userCall u)) else none
  | .share t =>
    if s.userCode then some { s with holders := insert t s.holders } else none
  | _ => none

/-- Steps of the base loop. -/
def baseStep (s : OwnedConnection Tid) : OwnLabel Tid → Option (OwnedConnection Tid)
  | .baseSwap =>
    if s.base.through ∧ s.base.called = [] then some { s with base := s.base.swap } else none
  | .baseCall =>
    match s.base.call with
    | some (_, q) => some { s with base := q.finish }.removeConnectionInLoop
    | none => none
  | .baseRelease => if s.base.through then some { s with base := s.base.release } else none
  | _ => none

/-- A failed assertion ends the program. -/
def step (s : OwnedConnection Tid) (l : OwnLabel Tid) : Option (OwnedConnection Tid) :=
  if s.conn.aborted = none then (s.userStep l).or ((s.ioStep l).or (s.baseStep l)) else none

/-- A connection that `newConnection` has put into `connections_`: handed to another loop,
or established at once on its own. -/
def machine (Tid : Type*) [DecidableEq Tid] :
    Machine (OwnedConnection Tid) (OwnLabel Tid) where
  init s := ∃ c, TcpConnection.Fresh c ∧
    (s = { conn := c, sameLoop := false, io := { pendingFunctors_ := [.connectEstablished] } } ∨
      s = { conn := c.connectEstablished [], sameLoop := true, guard := true })
  step := step

/-! ## Who lasts -/

/-- The server and the functors keep the connection until every functor that is bound to
`this` has returned. -/
def Covered (s : OwnedConnection Tid) : Prop :=
  s.entry = true ∨ s.base.ahead ≠ [] ∨ s.io.Outlived BoundFunctor.ownsConn

instance (s : OwnedConnection Tid) : Decidable s.Covered := inferInstanceAs (Decidable (_ ∨ _))

/-- The last user does not drop its pointer while a functor relies on it. -/
def KeepsReference (s : OwnedConnection Tid) : OwnLabel Tid → Prop
  | .drop t => s.Covered ∨ ∃ u ∈ s.holders, u ≠ t
  | _ => True

instance (s : OwnedConnection Tid) (l : OwnLabel Tid) : Decidable (s.KeepsReference l) :=
  match l with
  | .drop t => inferInstanceAs (Decidable (s.Covered ∨ ∃ u ∈ s.holders, u ≠ t))
  | .copy .. | .send .. | .pushSend _ | .shutdown _ | .store _ | .pushShutdown _ | .dispatch _
  | .handler .. | .endDispatch | .swap | .call _ | .finish | .release | .userCall _ | .share _
  | .baseSwap | .baseCall | .baseRelease => isTrue trivial

/-- A thread in a call holds a pointer, and some user does where nothing else lasts. -/
structure Safe (s : OwnedConnection Tid) : Prop where
  calling : ∀ t, s.caller t ≠ .idle → t ∈ s.holders
  covered : s.Covered ∨ s.holders.Nonempty

variable {s t : OwnedConnection Tid} {l : OwnLabel Tid}

omit [DecidableEq Tid]

theorem Covered.mono (h : s.Covered) (he : s.entry = true → t.entry = true)
    (hb : s.base.ahead ≠ [] → t.base.ahead ≠ [])
    (hq : s.io.Outlived BoundFunctor.ownsConn → t.io.Outlived BoundFunctor.ownsConn) :
    t.Covered :=
  h.imp he (Or.imp hb hq)

theorem Covered.io (h : s.Covered) {q : LoopFunctors BoundFunctor}
    (hq : s.io.Outlived BoundFunctor.ownsConn → q.Outlived BoundFunctor.ownsConn) :
    Covered { s with io := q } :=
  h.mono id id hq

theorem Covered.base (h : s.Covered) {q : LoopFunctors BaseFunctor}
    (hq : s.base.ahead ≠ [] → q.ahead ≠ []) : Covered { s with base := q } :=
  h.mono id hq id

theorem Covered.ran (h : s.Covered) (conn : TcpConnection) : (s.ran conn).Covered := by
  refine h.mono id id fun hq => hq.foldl_push ?_
  intro f hf
  rw [List.eq_of_mem_replicate hf]
  rfl

theorem covered_removeConnectionInLoop (s : OwnedConnection Tid) :
    s.removeConnectionInLoop.Covered :=
  .inr (.inr (.push rfl))

theorem covered_removeConnection (s : OwnedConnection Tid) : s.removeConnection.Covered := by
  unfold removeConnection
  split
  · exact covered_removeConnectionInLoop s
  · exact .inr (.inl (by simp))

theorem Covered.runFunctor (h : s.Covered) (w : WriteResult) (f : BoundFunctor) :
    (s.runFunctor w f).Covered := by
  cases f with
  | callback => exact h
  | _ => exact h.ran _

theorem Covered.runHandler (h : s.Covered) (r : ReadResult) (w : WriteResult)
    (k : TcpConnection.Handler) : (s.runHandler r w k).Covered := by
  unfold OwnedConnection.runHandler
  dsimp only
  split
  · exact covered_removeConnection _
  · exact h.ran _

/-- What the connection does leaves the users alone. -/
theorem users_removeConnection (s : OwnedConnection Tid) :
    s.removeConnection.caller = s.caller ∧ s.removeConnection.holders = s.holders := by
  unfold removeConnection
  split <;> exact ⟨rfl, rfl⟩

theorem users_runFunctor (s : OwnedConnection Tid) (w : WriteResult) (f : BoundFunctor) :
    (s.runFunctor w f).caller = s.caller ∧ (s.runFunctor w f).holders = s.holders := by
  cases f <;> exact ⟨rfl, rfl⟩

theorem users_runHandler (s : OwnedConnection Tid) (r : ReadResult) (w : WriteResult)
    (k : TcpConnection.Handler) :
    (s.runHandler r w k).caller = s.caller ∧ (s.runHandler r w k).holders = s.holders := by
  unfold runHandler
  dsimp only
  split
  · exact users_removeConnection _
  · exact ⟨rfl, rfl⟩

variable [DecidableEq Tid]

/-- Steps that take no pointer from a user and keep what lasts. -/
structure Frame (s t : OwnedConnection Tid) : Prop where
  caller : t.caller = s.caller
  holders : s.holders ⊆ t.holders
  covered : s.Covered → t.Covered

theorem frame_ioStep (h : s.ioStep l = some t) : Frame s t := by
  cases l with
  | dispatch revents =>
    simp only [ioStep, Option.ite_none_right_eq_some, Option.some.injEq] at h
    exact h.2 ▸ ⟨rfl, subset_rfl, fun hc => hc⟩
  | handler r w =>
    simp only [ioStep] at h
    split at h
    · rename_i k ks _
      obtain rfl := Option.some.inj h
      have hu := users_runHandler { s with todo := ks } r w k
      have hcov : s.Covered → Covered { s with todo := ks } := id
      exact ⟨hu.1, hu.2.superset, fun hc => (hcov hc).runHandler r w k⟩
    · contradiction
  | endDispatch =>
    simp only [ioStep, Option.ite_none_right_eq_some, Option.some.injEq] at h
    exact h.2 ▸ ⟨rfl, subset_rfl, fun hc => hc⟩
  | swap =>
    simp only [ioStep, Option.ite_none_right_eq_some, Option.some.injEq] at h
    exact h.2 ▸ ⟨rfl, subset_rfl, fun hc => hc.io .swap⟩
  | call w =>
    simp only [ioStep] at h
    split at h
    · rename_i f q hq
      simp only [Option.ite_none_right_eq_some, Option.some.injEq] at h
      obtain ⟨-, rfl⟩ := h
      have hcall : s.Covered → Covered { s with io := q } := fun hc => hc.io fun ho => ho.call hq
      split
      · have hu := users_runFunctor { s with io := q } w f
        exact ⟨hu.1, hu.2.superset, fun hc => (hcall hc).runFunctor w f⟩
      · exact ⟨rfl, subset_rfl, hcall⟩
    · contradiction
  | finish =>
    simp only [ioStep, Option.ite_none_right_eq_some, Option.some.injEq] at h
    exact h.2 ▸ ⟨rfl, subset_rfl, fun hc => hc.io .finish⟩
  | release =>
    simp only [ioStep, Option.ite_none_right_eq_some, Option.some.injEq] at h
    exact h.2 ▸ ⟨rfl, subset_rfl, fun hc => hc.io fun ho => ho.release h.1⟩
  | userCall u =>
    simp only [ioStep, Option.ite_none_right_eq_some, Option.some.injEq] at h
    exact h.2 ▸ ⟨rfl, subset_rfl, fun hc => hc.ran _⟩
  | share u =>
    simp only [ioStep, Option.ite_none_right_eq_some, Option.some.injEq] at h
    exact h.2 ▸ ⟨rfl, Finset.subset_insert u s.holders, fun hc => hc⟩
  | _ => simp [ioStep] at h

omit [DecidableEq Tid] in
theorem frame_baseStep (h : s.baseStep l = some t) : Frame s t := by
  cases l with
  | baseSwap =>
    simp only [baseStep, Option.ite_none_right_eq_some, Option.some.injEq] at h
    refine h.2 ▸ ⟨rfl, subset_rfl, fun hc => hc.base fun hb => ?_⟩
    rw [LoopFunctors.ahead_swap]
    simpa [LoopFunctors.ahead, LoopFunctors.waiting, h.1.1.1, h.1.1.2] using hb
  | baseCall =>
    simp only [baseStep] at h
    split at h
    · exact Option.some.inj h ▸ ⟨rfl, subset_rfl, fun _ => covered_removeConnectionInLoop _⟩
    · contradiction
  | baseRelease =>
    simp only [baseStep, Option.ite_none_right_eq_some, Option.some.injEq] at h
    exact h.2 ▸ ⟨rfl, subset_rfl, fun hc => hc.base id⟩
  | _ => simp [baseStep] at h

omit [DecidableEq Tid] in
theorem Safe.frame (h : Safe s) (hf : Frame s t) : Safe t where
  calling := fun u hu => hf.holders (h.calling u (hf.caller ▸ hu))
  covered := h.covered.imp hf.covered fun hn => hn.mono hf.holders

theorem Safe.setCaller (h : Safe s) {u : Tid} (hu : u ∈ s.holders) (pc : UserPc) :
    Safe (s.setCaller u pc) where
  calling := by
    intro v hv
    by_cases hvu : v = u
    · exact hvu ▸ hu
    · exact h.calling v (by simpa [OwnedConnection.setCaller, hvu] using hv)
  covered := h.covered

/-- A functor is queued by a thread that holds a pointer. -/
theorem Safe.queue (h : Safe s) {u : Tid} (hu : u ∈ s.holders) (q : LoopFunctors BoundFunctor) :
    Safe { s.setCaller u .idle with io := q } where
  calling := (h.setCaller hu .idle).calling
  covered := .inr ⟨u, hu⟩

theorem Safe.userStep (h : Safe s) (hok : KeepsReference s l) (hst : s.userStep l = some t) :
    Safe t := by
  cases l with
  | copy u v =>
    simp only [OwnedConnection.userStep, Option.ite_none_right_eq_some, Option.some.injEq] at hst
    exact h.frame (hst.2 ▸ ⟨rfl, Finset.subset_insert v s.holders, fun hc => hc⟩)
  | drop u =>
    simp only [OwnedConnection.userStep, Option.ite_none_right_eq_some, Option.some.injEq] at hst
    obtain ⟨⟨hu, hidle⟩, rfl⟩ := hst
    constructor
    · intro v hv
      have hne : v ≠ u := by
        rintro rfl
        exact hv hidle
      exact Finset.mem_erase.mpr ⟨hne, h.calling v hv⟩
    · rcases hok with hc | ⟨v, hv, hne⟩
      · exact .inl hc
      · exact .inr ⟨v, Finset.mem_erase.mpr ⟨hne, hv⟩⟩
  | send u data =>
    simp only [OwnedConnection.userStep, Option.ite_none_right_eq_some, Option.some.injEq] at hst
    obtain ⟨⟨hu, -⟩, rfl⟩ := hst
    split
    · exact h.setCaller hu _
    · exact h
  | pushSend u =>
    simp only [OwnedConnection.userStep] at hst
    split at hst
    · rename_i hpc
      exact Option.some.inj hst ▸ h.queue (h.calling u (by simp [hpc])) _
    · contradiction
  | shutdown u =>
    simp only [OwnedConnection.userStep, Option.ite_none_right_eq_some, Option.some.injEq] at hst
    obtain ⟨⟨hu, -⟩, rfl⟩ := hst
    split
    · exact h.setCaller hu _
    · exact h
  | store u =>
    simp only [OwnedConnection.userStep, Option.ite_none_right_eq_some, Option.some.injEq] at hst
    obtain ⟨hpc, rfl⟩ := hst
    exact (h.setCaller (h.calling u (by simp [hpc])) .queueing).frame
      ⟨rfl, subset_rfl, fun hc => hc⟩
  | pushShutdown u =>
    simp only [OwnedConnection.userStep, Option.ite_none_right_eq_some, Option.some.injEq] at hst
    exact hst.2 ▸ h.queue (h.calling u (by simp [hst.1])) _
  | _ => simp [OwnedConnection.userStep] at hst

theorem Safe.step (h : Safe s) (hok : KeepsReference s l) (hst : s.step l = some t) : Safe t := by
  simp only [OwnedConnection.step, Option.ite_none_right_eq_some, Option.or_eq_some_iff] at hst
  rcases hst.2 with hu | ⟨-, hio | ⟨-, hb⟩⟩
  · exact h.userStep hok hu
  · exact h.frame (frame_ioStep hio)
  · exact h.frame (frame_baseStep hb)

theorem safe (h : (machine Tid).Reach KeepsReference s) : Safe s := by
  refine h.invariant ?_ fun s l t hs hok hst => hs.step hok hst
  rintro s ⟨c, -, rfl | rfl⟩
  · exact ⟨fun _ hu => absurd rfl hu, .inl (.inl rfl)⟩
  · exact ⟨fun _ hu => absurd rfl hu, .inl (.inl rfl)⟩

/-- Where no user drops the last pointer on which a functor relies, every functor of the
connection that waits or runs finds it alive. -/
theorem functors_find_owner (h : (machine Tid).Reach KeepsReference s) {f : BoundFunctor}
    (hf : f ∈ s.io.ahead) : s.Owned := by
  have hown : (∃ g ∈ s.io.objects, g.ownsConn = true) → s.Owned :=
    fun hg => .inr (.inr (.inr (.inr hg)))
  rcases (safe h).covered with (he | hb | ho) | hn
  · exact .inl he
  · refine .inr (.inr (.inr (.inl ?_)))
    obtain ⟨g, hg⟩ := List.exists_mem_of_ne_nil _ hb
    exact List.ne_nil_of_mem (LoopFunctors.mem_objects_of_mem_ahead hg)
  · cases hfo : f.ownsConn with
    | true => exact hown ⟨f, LoopFunctors.mem_objects_of_mem_ahead hf, hfo⟩
    | false => exact hown (ho.exists_owner hf hfo)
  · exact .inr (.inr (.inl hn))

/-- A slow caller queues behind the batch of `connectDestroyed`, and drops its pointer once
another thread has one. -/
theorem functors_find_owner_late :
    ∃ t, (machine Nat).runIf KeepsReference
        { conn := (TcpConnection.new 1 5).connectEstablished [], sameLoop := true, guard := true }
        [.share 1, .endDispatch, .send 1 [1], .dispatch EPOLLHUP,
          .handler (.error EAGAIN) (.error EAGAIN), .endDispatch, .swap, .call (.error EAGAIN),
          .finish, .pushSend 1, .copy 1 2, .drop 1, .release] = some t ∧
      .sendInLoop [1] ∈ t.io.ahead ∧ t.Owned := by
  have hinit : (machine Nat).init
      { conn := (TcpConnection.new 1 5).connectEstablished [], sameLoop := true, guard := true } :=
    ⟨_, TcpConnection.fresh_new 1 5, .inr rfl⟩
  refine Machine.exists_runIf hinit rfl fun t ht h => ?_
  obtain rfl := Option.some.inj ht
  exact ⟨by decide, functors_find_owner h (f := .sendInLoop [1]) (by decide)⟩

/-- The caller drops the last pointer, and `sendInLoop` runs on a destroyed connection. -/
theorem sendInLoop_dangles :
    ∃ t, (machine Nat).Reachable t ∧ t.io.running = some (.sendInLoop [1]) ∧ ¬ t.Owned := by
  have hinit : (machine Nat).init
      { conn := (TcpConnection.new 1 5).connectEstablished [], sameLoop := true, guard := true } :=
    ⟨_, TcpConnection.fresh_new 1 5, .inr rfl⟩
  refine ⟨_, Machine.reachable_run hinit
    [.share 1, .endDispatch, .send 1 [1], .dispatch EPOLLHUP,
      .handler (.error EAGAIN) (.error EAGAIN), .endDispatch, .swap, .call (.error EAGAIN),
      .finish, .pushSend 1, .drop 1, .release, .swap, .call (.error EAGAIN)] rfl, rfl, ?_⟩
  decide

end OwnedConnection

end Muduo
