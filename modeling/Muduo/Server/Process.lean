import Muduo.Library.Machine
import Muduo.Server.Loop

/-!
# A server, its loops and its end

A `TcpServer` with the objects around it: who holds a `shared_ptr` to which connection, which
channels wait in which loop, and whether the server itself still exists. It is destroyed by
user code on its own loop's thread, in the middle of whatever that loop is doing, while the
io loops go on until `threadPool_` is destroyed.

Of a connection the model keeps whether its channel is in the poller. The rest, such as the
events that it asks for, only narrows what a poll reports, and is left to the poll.
-/

namespace Muduo

/-- `nextConnId_` at the time when the connection is accepted. -/
def connNumber (id : ConnId) : ConnName := BitVec.ofNat 32 (id + 1)

/-- How far the server's life has come. -/
inductive ServerLife where
  | alive
  /-- `~TcpServer` goes through `connections_`; with its local `conn` while it runs
  `connectDestroyed` in place -/
  | clearing (conn : Option ConnId)
  /-- the members are being destroyed, `threadPool_` among them -/
  | joining
  | dead
  deriving DecidableEq, Repr

/-- The loops that a server has, each with a thread of its own. Without io loops its own
loop takes all connections. -/
structure EventLoopThreadPool (L : Type*) where
  /-- the server's own loop, in which it is destroyed -/
  baseloop_ : L
  loops_ : List L
  /-- what the calls of `getNextLoop` return, one for each connection -/
  getNextLoop : ConnId → L
  base_not_mem : baseloop_ ∉ loops_
  next_mem : ∀ id, getNextLoop id ∈ if loops_ = [] then [baseloop_] else loops_

structure ServerProcess (L : Type*) where
  server : ServerLife := .alive
  /-- the number of connections accepted so far -/
  accepted : Nat := 0
  connections_ : AList fun _ : ConnName => ConnId := ∅
  loops : L → LoopState := fun _ => {}
  /-- the connection's channel is in its loop's poller -/
  registered : ConnId → Bool := fun _ => false
  /-- the pointers that user code holds -/
  users : ConnId → Nat := fun _ => 0
  /-- the server at each call of `removeConnection` and `removeConnectionInLoop` -/
  calls : List ServerLife := []

inductive ProcessLabel (L : Type*) where
  | loop (l : L) (e : LoopEvent)
  /-- the acceptor's callback -/
  | newConnection
  /-- an io loop quits and its thread ends -/
  | stop (l : L)
  -- user code, wherever it runs
  | hold (id : ConnId)
  | drop (id : ConnId)
  | queueInLoop (l : L)
  -- `sendInLoop`, called by user code or run as a functor
  | queueCallback (id : ConnId)
  | enableWriting (id : ConnId)
  -- `~TcpServer`
  | destroyServer
  | destroyItem (name : ConnName)
  | itemDestroyed
  | destroyMembers
  | destroyed
  deriving Repr

namespace EventLoopThreadPool

theorem next_mem_all {L : Type*} (pool : EventLoopThreadPool L) (id : ConnId) :
    pool.getNextLoop id ∈ pool.baseloop_ :: pool.loops_ := by
  have h := pool.next_mem id
  split at h <;> simp_all

/-- A server on its own loop alone. -/
def single : EventLoopThreadPool (Fin 1) where
  baseloop_ := 0
  loops_ := []
  getNextLoop _ := 0
  base_not_mem := List.not_mem_nil
  next_mem _ := List.mem_singleton_self 0

/-- A server with one io loop. -/
def pair : EventLoopThreadPool (Fin 2) where
  baseloop_ := 0
  loops_ := [1]
  getNextLoop _ := 1
  base_not_mem := by decide
  next_mem _ := List.mem_singleton_self 1

end EventLoopThreadPool

namespace ServerProcess

variable {L : Type*}

/-! ## Who owns what -/

/-- The connection's own entry is in `connections_`. -/
def Entry (s : ServerProcess L) (id : ConnId) : Prop :=
  s.connections_.lookup (connNumber id) = some id

instance (s : ServerProcess L) (id : ConnId) : Decidable (s.Entry id) :=
  inferInstanceAs (Decidable (_ = _))

/-- A functor or a dispatch of the loop has a `shared_ptr` to the connection. -/
def LoopOwns (s : ServerProcess L) (l : L) (id : ConnId) : Prop :=
  (∃ f ∈ (s.loops l).queue.objects, f.conn? = some id) ∨
    (s.loops l).current.bind Dispatch.conn? = some id

instance (s : ServerProcess L) (l : L) (id : ConnId) : Decidable (s.LoopOwns l id) :=
  inferInstanceAs (Decidable (_ ∨ _))

/-- Some `shared_ptr` to the connection exists: its entry, a user's, the local one of
`~TcpServer`, or one that a loop has. -/
def Owned (s : ServerProcess L) (pool : EventLoopThreadPool L) (id : ConnId) : Prop :=
  s.Entry id ∨ 0 < s.users id ∨ s.server = .clearing (some id) ∨
    ∃ l ∈ pool.baseloop_ :: pool.loops_, s.LoopOwns l id

instance (s : ServerProcess L) (pool : EventLoopThreadPool L) (id : ConnId) :
    Decidable (s.Owned pool id) :=
  inferInstanceAs (Decidable (_ ∨ _))

/-- The object that the channel is a part of. The acceptor goes with its server. -/
def Exists (s : ServerProcess L) (pool : EventLoopThreadPool L) : Ready → Prop
  | .acceptor => s.server ≠ .dead
  | .conn id _ _ => s.Owned pool id
  | .other => True

instance (s : ServerProcess L) (pool : EventLoopThreadPool L) (r : Ready) :
    Decidable (s.Exists pool r) :=
  match r with
  | .acceptor => inferInstanceAs (Decidable (s.server ≠ .dead))
  | .conn id _ _ => inferInstanceAs (Decidable (s.Owned pool id))
  | .other => isTrue trivial

/-! ## The steps -/

/-- The channel is in the poller of loop `l`. -/
def Polled (s : ServerProcess L) (pool : EventLoopThreadPool L) (l : L) : Ready → Prop
  | .acceptor => l = pool.baseloop_
  | .conn id _ _ => pool.getNextLoop id = l ∧ s.registered id = true
  | .other => True

/-- A poll reports channels in the poller, and nothing is said about a channel after its
destruction. -/
def Admits (s : ServerProcess L) (pool : EventLoopThreadPool L) (l : L) : LoopEvent → Prop
  | .poll ready => ∀ r ∈ ready, s.Polled pool l r ∧ s.Exists pool r
  | .handleEvent => ∀ r ∈ (s.loops l).activeChannels_.head?, s.Exists pool r
  | _ => True

/-- User code has control on the thread of the server's own loop: in a callback, in a
functor, or outside `loop()`. -/
def userCode (s : ServerProcess L) (pool : EventLoopThreadPool L) : Prop :=
  (s.loops pool.baseloop_).current.isSome ∨ (s.loops pool.baseloop_).queue.running.isSome ∨
    (s.loops pool.baseloop_).phase = .polling

instance (s : ServerProcess L) (pool : EventLoopThreadPool L) : Decidable (s.userCode pool) :=
  inferInstanceAs (Decidable (_ ∨ _))

/-- `connectEstablished` and `connectDestroyed`, as far as the poller is concerned. -/
def setRegistered (s : ServerProcess L) (id : ConnId) (b : Bool) : ServerProcess L :=
  { s with registered := Function.update s.registered id b }

/-- A member function of the server is entered. -/
def enter (s : ServerProcess L) : ServerProcess L := { s with calls := s.calls ++ [s.server] }

variable [DecidableEq L]

instance (s : ServerProcess L) (pool : EventLoopThreadPool L) (l : L) (r : Ready) :
    Decidable (s.Polled pool l r) :=
  match r with
  | .acceptor => inferInstanceAs (Decidable (l = pool.baseloop_))
  | .conn _ _ _ => inferInstanceAs (Decidable (_ ∧ _))
  | .other => isTrue trivial

instance (s : ServerProcess L) (pool : EventLoopThreadPool L) (l : L) (e : LoopEvent) :
    Decidable (s.Admits pool l e) :=
  match e with
  | .poll ready => inferInstanceAs (Decidable (∀ r ∈ ready, _ ∧ _))
  | .handleEvent =>
    inferInstanceAs (Decidable (∀ r ∈ (s.loops l).activeChannels_.head?, s.Exists pool r))
  | .callback | .closeCallback | .endDispatch | .swap | .call | .finish | .release =>
    isTrue trivial

/-- The thread of loop `l` goes round its loop. While `~TcpServer` runs, the thread of the
server's own loop is inside it. -/
def runs (s : ServerProcess L) (pool : EventLoopThreadPool L) (l : L) : Prop :=
  (l = pool.baseloop_ ∧ (s.server = .alive ∨ s.server = .dead)) ∨
    (l ∈ pool.loops_ ∧ (s.loops l).stopped = false)

instance (s : ServerProcess L) (pool : EventLoopThreadPool L) (l : L) :
    Decidable (s.runs pool l) :=
  inferInstanceAs (Decidable (_ ∨ _))

def setLoop (s : ServerProcess L) (l : L) (st : LoopState) : ServerProcess L :=
  { s with loops := Function.update s.loops l st }

def queueInLoop (s : ServerProcess L) (l : L) (f : HeldFunctor) : ServerProcess L :=
  s.setLoop l ((s.loops l).push f)

def removeConnectionInLoop (s : ServerProcess L) (pool : EventLoopThreadPool L) (id : ConnId) :
    ServerProcess L :=
  if s.server = .dead then s.enter
  else
    { s.enter with connections_ := s.connections_.erase (connNumber id) }.queueInLoop
      (pool.getNextLoop id) (.connectDestroyed id)

/-- The close callback, called on the thread of loop `l`: `loop_->runInLoop`. -/
def removeConnection (s : ServerProcess L) (pool : EventLoopThreadPool L) (id : ConnId) (l : L) :
    ServerProcess L :=
  if s.server = .dead then s.enter
  else if l = pool.baseloop_ then s.enter.removeConnectionInLoop pool id
  else s.enter.queueInLoop pool.baseloop_ (.removeConnectionInLoop id)

def runFunctor (s : ServerProcess L) (pool : EventLoopThreadPool L) :
    HeldFunctor → ServerProcess L
  | .connectEstablished id => s.setRegistered id true
  | .removeConnectionInLoop id => s.removeConnectionInLoop pool id
  | .connectDestroyed id => s.setRegistered id false
  | .callback _ | .other => s

def apply (s : ServerProcess L) (pool : EventLoopThreadPool L) (l : L) :
    LoopEffect → ServerProcess L
  | .none => s
  | .closeCallback id => s.removeConnection pool id l
  | .run f => s.runFunctor pool f

/-- On the server's own loop the connection is established in place, with `newConnection`
still on the stack. -/
def newConnection (s : ServerProcess L) (pool : EventLoopThreadPool L) : ServerProcess L :=
  let id := s.accepted
  let t :=
    { s with
      accepted := s.accepted + 1
      connections_ := s.connections_.insert (connNumber id) id }.setLoop pool.baseloop_
      { s.loops pool.baseloop_ with current := some (.acceptor (some id)) }
  if pool.getNextLoop id = pool.baseloop_ then t.setRegistered id true
  else t.queueInLoop (pool.getNextLoop id) (.connectEstablished id)

/-- One round of the loop in `~TcpServer`: `conn->getLoop()->runInLoop`. -/
def destroyItem (s : ServerProcess L) (pool : EventLoopThreadPool L) (name : ConnName)
    (id : ConnId) : ServerProcess L :=
  let t := { s with connections_ := s.connections_.erase name }
  if pool.getNextLoop id = pool.baseloop_ then
    { t.setRegistered id false with server := .clearing (some id) }
  else t.queueInLoop (pool.getNextLoop id) (.connectDestroyed id)

def step (pool : EventLoopThreadPool L) (s : ServerProcess L) :
    ProcessLabel L → Option (ServerProcess L)
  | .loop l e =>
    if s.runs pool l ∧ s.Admits pool l e then
      ((s.loops l).step e).map fun r => (s.setLoop l r.1).apply pool l r.2
    else none
  | .newConnection =>
    if s.server = .alive ∧ (s.loops pool.baseloop_).current = some (.acceptor none) then
      some (s.newConnection pool)
    else none
  | .stop l =>
    if s.server = .joining ∧ l ∈ pool.loops_ ∧ (s.loops l).phase = .polling then
      -- `~EventLoop` destroys what is left in `pendingFunctors_`
      some (s.setLoop l { stopped := true })
    else none
  | .hold id =>
    if s.Owned pool id then
      some { s with users := Function.update s.users id (s.users id + 1) }
    else none
  | .drop id =>
    if 0 < s.users id then some { s with users := Function.update s.users id (s.users id - 1) }
    else none
  | .queueInLoop l => if (s.loops l).stopped = false then some (s.queueInLoop l .other) else none
  | .queueCallback id =>
    if s.Owned pool id ∧ (s.loops (pool.getNextLoop id)).stopped = false then
      some (s.queueInLoop (pool.getNextLoop id) (.callback id))
    else none
  | .enableWriting id => if s.Owned pool id then some (s.setRegistered id true) else none
  | .destroyServer =>
    if s.server = .alive ∧ s.userCode pool then some { s with server := .clearing none } else none
  | .destroyItem name =>
    match s.connections_.lookup name with
    | some id => if s.server = .clearing none then some (s.destroyItem pool name id) else none
    | none => none
  | .itemDestroyed =>
    match s.server with
    | .clearing (some _) => some { s with server := .clearing none }
    | _ => none
  | .destroyMembers =>
    if s.server = .clearing none ∧ s.connections_.keys = [] then some { s with server := .joining }
    else none
  | .destroyed =>
    if s.server = .joining ∧ ∀ l ∈ pool.loops_, (s.loops l).stopped = true then
      some { s with server := .dead }
    else none

/-- A started server that has not accepted anything. -/
def machine (pool : EventLoopThreadPool L) : Machine (ServerProcess L) (ProcessLabel L) where
  init s := s = {}
  step := step pool

/-- Every way to move, with its guard: proofs go by cases on this. -/
inductive Moves (pool : EventLoopThreadPool L) (s : ServerProcess L) :
    ProcessLabel L → ServerProcess L → Prop where
  | loop {l : L} {e : LoopEvent} {st : LoopState} {x : LoopEffect} : s.runs pool l →
      s.Admits pool l e → LoopState.Steps (s.loops l) e st x →
      Moves pool s (.loop l e) ((s.setLoop l st).apply pool l x)
  | newConnection : s.server = .alive → (s.loops pool.baseloop_).current = some (.acceptor none) →
      Moves pool s .newConnection (s.newConnection pool)
  | stop {l : L} : s.server = .joining → l ∈ pool.loops_ → (s.loops l).phase = .polling →
      Moves pool s (.stop l) (s.setLoop l { stopped := true })
  | hold {id : ConnId} : s.Owned pool id →
      Moves pool s (.hold id) { s with users := Function.update s.users id (s.users id + 1) }
  | drop {id : ConnId} : 0 < s.users id →
      Moves pool s (.drop id) { s with users := Function.update s.users id (s.users id - 1) }
  | queueInLoop {l : L} : (s.loops l).stopped = false →
      Moves pool s (.queueInLoop l) (s.queueInLoop l .other)
  | queueCallback {id : ConnId} : s.Owned pool id →
      (s.loops (pool.getNextLoop id)).stopped = false →
      Moves pool s (.queueCallback id) (s.queueInLoop (pool.getNextLoop id) (.callback id))
  | enableWriting {id : ConnId} : s.Owned pool id →
      Moves pool s (.enableWriting id) (s.setRegistered id true)
  | destroyServer : s.server = .alive → s.userCode pool →
      Moves pool s .destroyServer { s with server := .clearing none }
  | destroyItem {name : ConnName} {id : ConnId} : s.server = .clearing none →
      s.connections_.lookup name = some id →
      Moves pool s (.destroyItem name) (s.destroyItem pool name id)
  | itemDestroyed {id : ConnId} : s.server = .clearing (some id) →
      Moves pool s .itemDestroyed { s with server := .clearing none }
  | destroyMembers : s.server = .clearing none → s.connections_.keys = [] →
      Moves pool s .destroyMembers { s with server := .joining }
  | destroyed : s.server = .joining → (∀ l ∈ pool.loops_, (s.loops l).stopped = true) →
      Moves pool s .destroyed { s with server := .dead }

variable {pool : EventLoopThreadPool L} {s t : ServerProcess L} {a : ProcessLabel L}

theorem step_moves (h : s.step pool a = some t) : Moves pool s a t := by
  cases a with
  | loop l e =>
    simp only [step, Option.ite_none_right_eq_some, Option.map_eq_some_iff] at h
    obtain ⟨⟨hr, ha⟩, ⟨st, x⟩, hst, rfl⟩ := h
    exact .loop hr ha (LoopState.step_cases hst)
  | destroyItem name =>
    simp only [step] at h
    split at h
    · simp only [Option.ite_none_right_eq_some, Option.some.injEq] at h
      exact h.2 ▸ .destroyItem h.1 ‹_›
    · contradiction
  | itemDestroyed =>
    simp only [step] at h
    split at h
    · exact Option.some.inj h ▸ .itemDestroyed ‹_›
    · contradiction
  | _ =>
    simp only [step, Option.ite_none_right_eq_some, Option.some.injEq] at h
    obtain ⟨hg, rfl⟩ := h
    first
      | exact .newConnection hg.1 hg.2
      | exact .stop hg.1 hg.2.1 hg.2.2
      | exact .hold hg
      | exact .drop hg
      | exact .queueInLoop hg
      | exact .queueCallback hg.1 hg.2
      | exact .enableWriting hg
      | exact .destroyServer hg.1 hg.2
      | exact .destroyMembers hg.1 hg.2
      | exact .destroyed hg.1 hg.2

theorem loops_setLoop (s : ServerProcess L) (l l' : L) (st : LoopState) :
    (s.setLoop l st).loops l' = if l' = l then st else s.loops l' := by
  simp [setLoop, Function.update_apply]

theorem loops_queueInLoop (s : ServerProcess L) (l l' : L) (f : HeldFunctor) :
    (s.queueInLoop l f).loops l' = if l' = l then (s.loops l').push f else s.loops l' := by
  rw [queueInLoop, loops_setLoop]
  split
  · rw [‹l' = l›]
  · rfl

theorem mem_waiting_queueInLoop (l l' : L) (f g : HeldFunctor) :
    g ∈ ((s.queueInLoop l f).loops l').queue.waiting ↔
      g ∈ (s.loops l').queue.waiting ∨ (l' = l ∧ g = f) := by
  rw [loops_queueInLoop]
  split <;> simp [LoopState.push, *]

theorem mem_pending_queueInLoop (l l' : L) (f : HeldFunctor) {g : HeldFunctor}
    (hg : g ∈ (s.loops l').queue.pendingFunctors_) :
    g ∈ ((s.queueInLoop l f).loops l').queue.pendingFunctors_ := by
  rw [loops_queueInLoop]
  split
  · exact List.mem_append_left [f] hg
  · exact hg

omit [DecidableEq L] in
/-- Where another name is erased, an entry stays. -/
theorem Entry.erase {id : ConnId} (h : s.Entry id) {name : ConnName}
    (hn : s.connections_.lookup name ≠ some id) :
    (s.connections_.erase name).lookup (connNumber id) = some id := by
  have hname : connNumber id ≠ name := by
    rintro rfl
    exact hn h
  rw [AList.lookup_erase_ne hname]
  exact h

/-- What a loop calls outside itself leaves all loops where they are. -/
structure Aside (s t : ServerProcess L) : Prop where
  server : t.server = s.server
  active : ∀ l, (t.loops l).activeChannels_ = (s.loops l).activeChannels_
  stopped : ∀ l, (t.loops l).stopped = (s.loops l).stopped

omit [DecidableEq L] in
theorem Aside.trans {u : ServerProcess L} (h : Aside s t) (h' : Aside t u) : Aside s u where
  server := h'.server.trans h.server
  active := fun l => (h'.active l).trans (h.active l)
  stopped := fun l => (h'.stopped l).trans (h.stopped l)

omit [DecidableEq L] in
theorem aside_of_loops (hs : t.server = s.server) (hl : t.loops = s.loops) : Aside s t := by
  refine ⟨hs, ?_, ?_⟩ <;> simp [hl]

theorem aside_queueInLoop (s : ServerProcess L) (l : L) (f : HeldFunctor) :
    Aside s (s.queueInLoop l f) := by
  refine ⟨rfl, fun l' => ?_, fun l' => ?_⟩ <;> rw [loops_queueInLoop] <;> split <;> rfl

theorem aside_removeConnectionInLoop (s : ServerProcess L) (id : ConnId) :
    Aside s (s.removeConnectionInLoop pool id) := by
  unfold removeConnectionInLoop
  split
  · exact aside_of_loops rfl rfl
  · refine (aside_of_loops ?_ ?_).trans (aside_queueInLoop _ _ _)
    · rfl
    · rfl

theorem aside_removeConnection (s : ServerProcess L) (id : ConnId) (l : L) :
    Aside s (s.removeConnection pool id l) := by
  have he : Aside s s.enter := aside_of_loops rfl rfl
  unfold removeConnection
  split_ifs
  · exact he
  · exact he.trans (aside_removeConnectionInLoop _ id)
  · exact he.trans (aside_queueInLoop _ _ _)

theorem aside_newConnection (s : ServerProcess L) : Aside s (s.newConnection pool) := by
  have hset : Aside s
      ({ s with
        accepted := s.accepted + 1
        connections_ := s.connections_.insert (connNumber s.accepted) s.accepted }.setLoop
        pool.baseloop_
        { s.loops pool.baseloop_ with current := some (.acceptor (some s.accepted)) }) := by
    refine ⟨rfl, fun l => ?_, fun l => ?_⟩ <;> rw [loops_setLoop] <;> split <;> simp_all
  unfold newConnection
  dsimp only
  split
  · exact hset.trans (aside_of_loops rfl rfl)
  · exact hset.trans (aside_queueInLoop _ _ _)

/-- The loop in `~TcpServer` stays in it, and the loops stay where they are. -/
theorem aside_destroyItem (pool : EventLoopThreadPool L) (name : ConnName) (id : ConnId)
    (hs : s.server = .clearing none) :
    ∃ conn, Aside { s with server := .clearing conn } (s.destroyItem pool name id) ∧
      (s.destroyItem pool name id).calls = s.calls := by
  unfold destroyItem
  dsimp only
  split
  · exact ⟨some id, aside_of_loops rfl rfl, rfl⟩
  · refine ⟨none, (aside_of_loops ?_ ?_).trans (aside_queueInLoop _ _ _), rfl⟩
    · exact hs
    · rfl

theorem aside_apply (s : ServerProcess L) (pool : EventLoopThreadPool L) (l : L)
    (x : LoopEffect) : Aside s (s.apply pool l x) := by
  cases x with
  | none => exact aside_of_loops rfl rfl
  | closeCallback id => exact aside_removeConnection s id l
  | run f =>
    cases f with
    | removeConnectionInLoop id => exact aside_removeConnectionInLoop s id
    | _ => exact aside_of_loops rfl rfl

/-! ## Where things are -/

/-- The functor belongs in the queue of loop `l`. -/
def QueuedAt (pool : EventLoopThreadPool L) (l : L) : HeldFunctor → Prop
  | .connectEstablished id => pool.getNextLoop id = l ∧ l ≠ pool.baseloop_
  | .removeConnectionInLoop id => l = pool.baseloop_ ∧ pool.getNextLoop id ≠ l
  | .connectDestroyed id | .callback id => pool.getNextLoop id = l
  | .other => True

/-- The channel belongs to loop `l`. -/
def ReadyAt (pool : EventLoopThreadPool L) (l : L) : Ready → Prop
  | .acceptor => l = pool.baseloop_
  | .conn id _ _ => pool.getNextLoop id = l
  | .other => True

/-- Channels and functors are on their loops, and the loops end before the server. -/
structure Wf (pool : EventLoopThreadPool L) (s : ServerProcess L) : Prop where
  loops : ∀ l, (s.loops l).Wf
  queued : ∀ l, ∀ f ∈ (s.loops l).queue.waiting, QueuedAt pool l f
  ready : ∀ l, ∀ r ∈ (s.loops l).activeChannels_, ReadyAt pool l r
  current : ∀ l id read rest closing,
    (s.loops l).current = some (.conn id read rest closing) → pool.getNextLoop id = l
  /-- on the server's own loop, only handlers queue `connectDestroyed` -/
  early : (s.loops pool.baseloop_).phase ≠ .dispatching →
    ∀ id, .connectDestroyed id ∉ (s.loops pool.baseloop_).queue.pendingFunctors_
  cleared : s.server = .joining ∨ s.server = .dead → s.connections_.keys = []
  stopped : s.server = .dead → ∀ l ∈ pool.loops_, (s.loops l).stopped = true

omit [DecidableEq L] in
theorem Wf.called (h : Wf pool s) {l : L} {e : LoopEvent} {st : LoopState} {f : HeldFunctor}
    (hs : LoopState.Steps (s.loops l) e st (.run f)) : QueuedAt pool l f :=
  h.queued l f (hs.run_waiting.1 ▸ List.mem_cons_self)

omit [DecidableEq L] in
theorem Wf.of_loops (h : Wf pool s) (hl : t.loops = s.loops) (hs : t.server = s.server)
    (hc : t.connections_ = s.connections_) : Wf pool t := by
  obtain ⟨h₁, h₂, h₃, h₄, h₅, h₆, h₇⟩ := h
  constructor <;> simp only [hl, hs, hc] <;> assumption

omit [DecidableEq L] in
theorem Wf.enter (h : Wf pool s) : Wf pool s.enter := h.of_loops rfl rfl rfl

omit [DecidableEq L] in
theorem Wf.setRegistered (h : Wf pool s) (id : ConnId) (b : Bool) :
    Wf pool (s.setRegistered id b) :=
  h.of_loops rfl rfl rfl

omit [DecidableEq L] in
/-- Entries go; they do not come back once the members are destroyed. -/
theorem Wf.erase (h : Wf pool s) (name : ConnName) :
    Wf pool { s with connections_ := s.connections_.erase name } where
  loops := h.loops
  queued := h.queued
  ready := h.ready
  current := h.current
  early := h.early
  cleared := by
    intro hs
    rw [AList.keys_erase, h.cleared hs]
    rfl
  stopped := h.stopped

theorem Wf.setLoop (h : Wf pool s) (l : L) (st : LoopState) (hw : st.Wf)
    (hq : ∀ f ∈ st.queue.waiting, QueuedAt pool l f)
    (hr : ∀ r ∈ st.activeChannels_, ReadyAt pool l r)
    (hc : ∀ id read rest closing, st.current = some (.conn id read rest closing) →
      pool.getNextLoop id = l)
    (he : l = pool.baseloop_ → st.phase ≠ .dispatching →
      ∀ id, .connectDestroyed id ∉ st.queue.pendingFunctors_)
    (hs : l ∈ pool.loops_ → (s.loops l).stopped = true → st.stopped = true) :
    Wf pool (s.setLoop l st) := by
  obtain ⟨h₁, h₂, h₃, h₄, h₅, h₆, h₇⟩ := h
  constructor <;> simp only [ServerProcess.setLoop] <;> grind

theorem Wf.queueInLoop (h : Wf pool s) {l : L} {f : HeldFunctor} (hf : QueuedAt pool l f)
    (he : ∀ id, f = .connectDestroyed id → l = pool.baseloop_ → (s.loops l).phase = .dispatching) :
    Wf pool (s.queueInLoop l f) := by
  refine h.setLoop l _ ((h.loops l).push f) ?_ (h.ready l) (h.current l) ?_ fun _ hs => hs
  · intro g hg
    rcases List.mem_append.mp (LoopFunctors.waiting_push _ _ ▸ hg) with hg | hg
    · exact h.queued l g hg
    · exact List.mem_singleton.mp hg ▸ hf
  · rintro rfl hp id hid
    rcases List.mem_append.mp hid with hid | hid
    · exact h.early hp id hid
    · exact hp (he id (List.mem_singleton.mp hid).symm rfl)

theorem Wf.removeConnectionInLoop (h : Wf pool s) {id : ConnId}
    (hd : pool.getNextLoop id = pool.baseloop_ → (s.loops pool.baseloop_).phase = .dispatching) :
    Wf pool (s.removeConnectionInLoop pool id) := by
  unfold ServerProcess.removeConnectionInLoop
  split
  · exact h.enter
  · refine (h.enter.erase (connNumber id)).queueInLoop rfl ?_
    intro _ _ hb
    have hphase : (s.loops (pool.getNextLoop id)).phase = .dispatching := by rw [hb, hd hb]
    exact hphase

theorem Wf.removeConnection (h : Wf pool s) {id : ConnId} {l : L}
    (hid : pool.getNextLoop id = l) (hd : (s.loops l).phase = .dispatching) :
    Wf pool (s.removeConnection pool id l) := by
  unfold ServerProcess.removeConnection
  split_ifs with hs hl
  · exact h.enter
  · refine h.enter.removeConnectionInLoop fun _ => ?_
    rw [← hl]
    exact hd
  · exact h.enter.queueInLoop ⟨rfl, hid ▸ hl⟩ (by simp)

theorem Wf.newConnection (h : Wf pool s) (hs : s.server = .alive)
    (hc : (s.loops pool.baseloop_).current = some (.acceptor none)) :
    Wf pool (s.newConnection pool) := by
  have hp : (s.loops pool.baseloop_).phase = .dispatching := by
    by_contra hp
    simp [(h.loops pool.baseloop_).current hp] at hc
  have hins : Wf pool
      { s with
        accepted := s.accepted + 1
        connections_ := s.connections_.insert (connNumber s.accepted) s.accepted } :=
    ⟨h.loops, h.queued, h.ready, h.current, h.early, by simp [hs], h.stopped⟩
  have hloop := hins.setLoop pool.baseloop_
    { s.loops pool.baseloop_ with current := some (.acceptor (some s.accepted)) }
    ⟨(h.loops _).batch, (h.loops _).active, fun hn => absurd hp hn⟩ (h.queued _) (h.ready _)
    (by simp) (fun _ hn => absurd hp hn) fun hm => absurd hm pool.base_not_mem
  unfold ServerProcess.newConnection
  dsimp only
  split
  · exact hloop.setRegistered _ true
  · exact hloop.queueInLoop ⟨rfl, ‹_›⟩ (by simp)

/-- A loop's own part of a step. -/
theorem Wf.loopStep (h : Wf pool s) {l : L} {e : LoopEvent} {st : LoopState} {x : LoopEffect}
    (ha : s.Admits pool l e) (hst : LoopState.Steps (s.loops l) e st x) :
    Wf pool (s.setLoop l st) := by
  have hw := h.loops l
  refine h.setLoop l st (hw.step hst) ?_ ?_ ?_ ?_ ?_
  · intro f hf
    rcases hst.waiting hw with ⟨g, rfl⟩ | he
    · exact h.queued l f (hst.run_waiting.1 ▸ List.mem_cons_of_mem g hf)
    · exact h.queued l f (he ▸ hf)
  · intro r hr
    rcases hst.active hr with hr | ⟨ready, rfl, hr⟩
    · exact h.ready l r hr
    · have hp := (ha r hr).1
      cases r with
      | acceptor => exact hp
      | conn id revents read => exact hp.1
      | other => trivial
  · intro id read rest closing hc
    rcases hst.current hc with ⟨rest', closing', hc⟩ | ⟨revents, hr⟩
    · exact h.current l id read rest' closing' hc
    · exact h.ready l _ hr
  · rintro rfl hp id hid
    obtain ⟨hp, hid⟩ := hst.pending hp hid
    exact h.early hp id hid
  · exact fun _ hs => hst.stopped.trans hs

theorem Wf.step (h : Wf pool s) (hst : s.step pool a = some t) : Wf pool t := by
  cases step_moves hst with
  | @loop l e st x hr ha hs =>
    have hw := h.loopStep ha hs
    cases x with
    | none => exact hw
    | closeCallback id =>
      obtain ⟨⟨read, rest, hc⟩, hp⟩ := hs.closeCallback_dispatching (h.loops l)
      refine hw.removeConnection (h.current l id read rest true hc) ?_
      simpa [ServerProcess.setLoop] using hp
    | run f =>
      have hq := h.called hs
      cases f with
      | connectEstablished id => exact hw.setRegistered id true
      | connectDestroyed id => exact hw.setRegistered id false
      | callback id => exact hw
      | other => exact hw
      | removeConnectionInLoop id =>
        exact hw.removeConnectionInLoop fun hb => absurd (hb.trans hq.1.symm) hq.2
  | newConnection hs hc => exact h.newConnection hs hc
  | @stop l hj hl hp =>
    refine h.setLoop l _ ⟨fun _ => rfl, fun _ => rfl, fun _ => rfl⟩ ?_ ?_ ?_ ?_ fun _ _ => rfl
    all_goals simp [LoopFunctors.waiting]
  | hold => exact h.of_loops rfl rfl rfl
  | drop => exact h.of_loops rfl rfl rfl
  | queueInLoop => exact h.queueInLoop trivial (by simp)
  | queueCallback => exact h.queueInLoop rfl (by simp)
  | enableWriting => exact h.setRegistered _ true
  | destroyServer =>
    exact ⟨h.loops, h.queued, h.ready, h.current, h.early, by simp, by simp⟩
  | @destroyItem name id hs hn =>
    unfold ServerProcess.destroyItem
    dsimp only
    split
    · have hw := (h.erase name).setRegistered id false
      exact ⟨hw.loops, hw.queued, hw.ready, hw.current, hw.early, by simp, by simp⟩
    · exact (h.erase name).queueInLoop rfl fun _ _ hb => absurd hb ‹_›
  | itemDestroyed =>
    exact ⟨h.loops, h.queued, h.ready, h.current, h.early, by simp, by simp⟩
  | destroyMembers _ hk =>
    exact ⟨h.loops, h.queued, h.ready, h.current, h.early, fun _ => hk, by simp⟩
  | destroyed hj hall =>
    exact ⟨h.loops, h.queued, h.ready, h.current, h.early, fun _ => h.cleared (.inl hj),
      fun _ => hall⟩

theorem wf (h : (machine pool).Reachable s) : Wf pool s := by
  refine h.invariant ?_ fun s a t hs _ hst => hs.step hst
  rintro s rfl
  constructor <;> simp [LoopFunctors.waiting]
  exact fun _ => ⟨fun _ => rfl, fun _ => rfl, fun _ => rfl⟩

end ServerProcess

end Muduo
