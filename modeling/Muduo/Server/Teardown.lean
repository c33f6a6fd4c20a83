import Muduo.Server.Placement

/-!
# One life for each connection

Nothing in the code stops `handleClose` from running twice. While each dispatch runs at most
one handler that closes, a connection goes through five stages, and at each of them at most
one functor of it is queued anywhere.
-/

namespace Muduo

namespace TcpConnection

variable {c : TcpConnection}

@[simp] theorem closeCallbacks_emit (c : TcpConnection) (e : Effect) :
    (c.emit e).closeCallbacks = c.closeCallbacks + if e = .closeCallback then 1 else 0 := by
  by_cases he : e = .closeCallback <;> simp [closeCallbacks, List.count_append, he]

theorem stable_closeCallbacks (n : Nat) : Stable fun c => c.closeCallbacks = n where
  emit := by
    intro c e he h
    have hne : e ≠ .closeCallback := by
      rintro rfl
      simp [Effect.quiet] at he
    simp [hne, h]
  input := fun _ _ h => h
  output := fun _ _ h => h
  enableWriting := fun _ h => h
  disableWriting := fun _ h => h
  disconnecting := fun _ _ h => h

@[simp] theorem closeCallbacks_userCall (c : TcpConnection) (u : UserCall) :
    (c.userCall u).closeCallbacks = c.closeCallbacks :=
  (stable_closeCallbacks c.closeCallbacks).userCall u rfl

@[simp] theorem closeCallbacks_userCalls (c : TcpConnection) (calls : List UserCall) :
    (c.userCalls calls).closeCallbacks = c.closeCallbacks :=
  (stable_closeCallbacks c.closeCallbacks).userCalls calls rfl

@[simp] theorem closeCallbacks_disconnect (c : TcpConnection) :
    c.disconnect.closeCallbacks = c.closeCallbacks := by
  simp only [disconnect, closeCallbacks_emit]
  rfl

@[simp] theorem closeCallbacks_handleClose (c : TcpConnection) (calls : List UserCall) :
    (c.handleClose calls).closeCallbacks = c.closeCallbacks + 1 := by
  simp [handleClose]

@[simp] theorem closeCallbacks_removeChannel (c : TcpConnection) :
    c.removeChannel.closeCallbacks = c.closeCallbacks := by
  unfold removeChannel
  split <;> rfl

@[simp] theorem closeCallbacks_connectDestroyed (c : TcpConnection) (calls : List UserCall) :
    (c.connectDestroyed calls).closeCallbacks = c.closeCallbacks := by
  rw [connectDestroyed, closeCallbacks_removeChannel]
  split <;> simp

@[simp] theorem closeCallbacks_connectEstablished (c : TcpConnection) (calls : List UserCall) :
    (c.connectEstablished calls).closeCallbacks = c.closeCallbacks := by
  simp only [connectEstablished, closeCallbacks_userCalls, closeCallbacks_emit]
  rfl

/-- A closing handler invokes `closeCallback_` once, any other does not. -/
theorem closeCallbacks_runHandler (env : Environment) (c : TcpConnection) (k : Handler) :
    (runHandler env c k).closeCallbacks = c.closeCallbacks + (k.closes env.read).toNat := by
  by_cases hk : k.closes env.read = true
  · rw [runHandler_of_closes hk, closeCallbacks_handleClose, hk]
    rfl
  · have hk' : k.closes env.read = false := by simpa using hk
    rw [hk', Bool.toNat_false, Nat.add_zero]
    rcases runHandler_of_not_closes hk' c with he | ⟨b, he⟩ | he
    · rw [he]
      exact (stable_closeCallbacks c.closeCallbacks).handleWrite env.write rfl
    · rw [he, closeCallbacks_userCalls, closeCallbacks_emit]
      rfl
    · rw [he]

end TcpConnection

namespace TcpServer

open TcpConnection (Fresh Open Closed Removed)

variable {L : Type*}

/-! ## What is under way for a connection -/

/-- The queued functors of a connection, loop by loop. -/
def mine (s : TcpServer L) (id : ConnId) (l : L) : List ServerFunctor :=
  (s.queues l).all.filter (·.conn == id)

/-- The callbacks of a connection still to run, loop by loop. -/
def callbacks (s : TcpServer L) (id : ConnId) (l : L) : List Callback :=
  (s.todo l).filter (·.conn == id)

/-- From `s` to `t` only what belongs to connection `id` has changed. -/
structure Touches (s : TcpServer L) (id : ConnId) (t : TcpServer L) : Prop where
  loop : t.loop_ = s.loop_
  length : s.accepted.length ≤ t.accepted.length
  born : id < t.accepted.length
  accepted : ∀ j, j ≠ id → t.accepted[j]? = s.accepted[j]?
  mine : ∀ j, j ≠ id → t.mine j = s.mine j
  callbacks : ∀ j, j ≠ id → t.callbacks j = s.callbacks j

variable {s t u : TcpServer L} {id : ConnId}

theorem Touches.trans (h : Touches s id t) (h' : Touches t id u) : Touches s id u where
  loop := h'.loop.trans h.loop
  length := h.length.trans h'.length
  born := h'.born
  accepted := fun j hj => (h'.accepted j hj).trans (h.accepted j hj)
  mine := fun j hj => (h'.mine j hj).trans (h.mine j hj)
  callbacks := fun j hj => (h'.callbacks j hj).trans (h.callbacks j hj)

theorem accepted_modify (s : TcpServer L) (id : ConnId) (f : Accepted L → Accepted L) :
    (s.modify id f).accepted[id]? = s.accepted[id]?.map f := by
  simp [modify]

theorem accepted_call {a : Accepted L} (ha : s.accepted[id]? = some a) (l : L) (what : LoopCall)
    (f : TcpConnection → TcpConnection) :
    (s.call l id what f).accepted[id]? = some (a.ran l what (f a.conn)) := by
  rw [call, accepted_modify, ha]
  rfl

theorem accepted_callHandler {a : Accepted L} {k : Callback}
    (ha : s.accepted[k.conn]? = some a) (l : L) :
    (s.callHandler l k).accepted[k.conn]? =
      some (a.ran l (.handler k.handler) (TcpConnection.runHandler k.env a.conn k.handler)) :=
  accepted_call ha _ _ _

theorem touches_modify (hid : id < s.accepted.length) (f : Accepted L → Accepted L) :
    Touches s id (s.modify id f) where
  loop := rfl
  length := by simp [modify]
  born := by simpa [modify] using hid
  accepted := fun j hj => by simp [modify, Ne.symm hj]
  mine := fun _ _ => rfl
  callbacks := fun _ _ => rfl

section

variable [DecidableEq L]

/-- Where a queue gets other functors for one connection only. -/
theorem touches_queues (hid : id < s.accepted.length) {l : L} {q : FunctorQueue ServerFunctor}
    (hq : ∀ j, j ≠ id → q.all.filter (·.conn == j) = (s.queues l).all.filter (·.conn == j)) :
    Touches s id { s with queues := Function.update s.queues l q } where
  loop := rfl
  length := le_rfl
  born := hid
  accepted := fun _ _ => rfl
  mine := by
    intro j hj
    funext l'
    by_cases hl : l' = l
    · subst hl
      simp [TcpServer.mine, hq j hj]
    · simp [TcpServer.mine, hl]
  callbacks := fun _ _ => rfl

theorem touches_queueInLoop (hid : id < s.accepted.length) (l : L) {f : ServerFunctor}
    (hf : f.conn = id) : Touches s id (s.queueInLoop l f) :=
  touches_queues hid fun j hj => by simp [hf, Ne.symm hj]

/-- The first functor queued for a connection is the only one. -/
theorem mine_queueInLoop (hm : s.mine id = fun _ => []) (l : L) {f : ServerFunctor}
    (hf : f.conn = id) : (s.queueInLoop l f).mine id = Function.update (fun _ => []) l [f] := by
  funext l'
  have hm' : (s.queues l').all.filter (·.conn == id) = [] := congrFun hm l'
  by_cases hl : l' = l
  · subst hl
    simp [queueInLoop, mine, hf, hm']
  · simpa [queueInLoop, mine, hl] using hm'

theorem touches_todo (hid : id < s.accepted.length) {l : L} {ks : List Callback}
    (hk : ∀ j, j ≠ id → ks.filter (·.conn == j) = s.callbacks j l) :
    Touches s id { s with todo := Function.update s.todo l ks } where
  loop := rfl
  length := le_rfl
  born := hid
  accepted := fun _ _ => rfl
  mine := fun _ _ => rfl
  callbacks := by
    intro j hj
    funext l'
    by_cases hl : l' = l
    · subst hl
      simpa [TcpServer.callbacks] using hk j hj
    · simp [TcpServer.callbacks, hl]

theorem mine_popped {l : L} {f : ServerFunctor} {q : FunctorQueue ServerFunctor}
    (hn : (s.queues l).next = some (f, q)) (hf : f.conn = id) :
    s.mine id = Function.update ((s.popped l q).mine id) l (f :: (s.popped l q).mine id l) := by
  funext l'
  by_cases hl : l' = l
  · subst hl
    simp [mine, popped, FunctorQueue.all_next hn, hf]
  · simp [mine, popped, hl]

/-- Where a connection has one functor queued, popping one of its functors pops that. -/
theorem eq_of_popped {l l₀ : L} {f f₀ : ServerFunctor} {q : FunctorQueue ServerFunctor}
    (hn : (s.queues l).next = some (f, q)) (hf : f.conn = id)
    (hm : s.mine id = Function.update (fun _ => []) l₀ [f₀]) :
    l = l₀ ∧ f = f₀ ∧ (s.popped l q).mine id = fun _ => [] := by
  have hp := (mine_popped hn hf).symm.trans hm
  have hl : l = l₀ := by
    by_contra hne
    have := congrFun hp l
    simp [hne] at this
  subst hl
  have hhead := congrFun hp l
  simp only [Function.update_self, List.cons.injEq] at hhead
  refine ⟨rfl, hhead.1, ?_⟩
  funext l'
  by_cases hl' : l' = l
  · exact hl' ▸ hhead.2
  · simpa [hl'] using congrFun hp l'

theorem touches_popped (hid : id < s.accepted.length) {l : L} {f : ServerFunctor}
    {q : FunctorQueue ServerFunctor} (hn : (s.queues l).next = some (f, q)) (hf : f.conn = id) :
    Touches s id (s.popped l q) :=
  touches_queues hid fun j hj => by simp [FunctorQueue.all_next hn, hf, Ne.symm hj]

end

/-! ## The stages of a connection -/

/-- Accepted and waiting for `connectEstablished`; open; closing, inside `handleClose`;
leaving, on its way to the base loop; left, on its way back; removed. -/
inductive Stage where
  | waiting | opened | closing | leaving | left | removed
  deriving DecidableEq, Repr

/-- `connectEstablished` came first and once. -/
def Established (log : List LoopCall) (destroyed : Nat) : Prop :=
  log.head? = some .connectEstablished ∧ log.count .connectEstablished = 1 ∧
    log.count .connectDestroyed = destroyed

theorem Established.append {log : List LoopCall} {n : Nat} (h : Established log n)
    {what : LoopCall} (hw : what ≠ .connectEstablished) :
    Established (log ++ [what]) (n + if what = .connectDestroyed then 1 else 0) := by
  obtain ⟨hh, he, hd⟩ := h
  refine ⟨?_, ?_, ?_⟩
  · rw [List.head?_append, hh]
    rfl
  · simp [List.count_append, he, hw]
  · by_cases hd' : what = .connectDestroyed <;> simp [List.count_append, hd, hd']

namespace Stage

def Phase : Stage → TcpConnection → Prop
  | .waiting => Fresh
  | .opened => Open
  | .closing | .leaving | .left => Closed
  | .removed => Removed

def closeCallbacks : Stage → Nat
  | .waiting | .opened => 0
  | .closing | .leaving | .left | .removed => 1

def Logged : Stage → List LoopCall → Prop
  | .waiting => (· = [])
  | .removed => (Established · 1)
  | .opened | .closing | .leaving | .left => (Established · 0)

/-- What is queued for the connection, given the base loop and its io loop. -/
def queued [DecidableEq L] (base io : L) (id : ConnId) : Stage → L → List ServerFunctor
  | .waiting => Function.update (fun _ => []) io [.connectEstablished id]
  | .leaving => Function.update (fun _ => []) base [.removeConnectionInLoop id]
  | .left => Function.update (fun _ => []) io [.connectDestroyed id]
  | .opened | .closing | .removed => fun _ => []

/-- The callbacks that may still be to run. -/
def Allows : Stage → List Callback → Prop
  | .waiting | .removed => (· = [])
  | .opened => fun ks => ks.countP Callback.closes ≤ 1
  | .closing | .leaving | .left => fun ks => ks.countP Callback.closes = 0

end Stage

variable [DecidableEq L]

/-- Connection `a`, object `id`, is at stage `g`. -/
structure Life (s : TcpServer L) (id : ConnId) (a : Accepted L) (g : Stage) : Prop where
  phase : g.Phase a.conn
  closeCallbacks : a.conn.closeCallbacks = g.closeCallbacks
  logged : g.Logged a.log
  queued : s.mine id = g.queued s.loop_ a.loop_ id
  away : ∀ l, l ≠ a.loop_ → s.callbacks id l = []
  here : g.Allows (s.callbacks id a.loop_)

/-- Every connection is at some stage, and nothing is under way for those to come. -/
structure Inv (s : TcpServer L) : Prop where
  life : ∀ id a, s.accepted[id]? = some a → ∃ g, Life s id a g
  unborn : ∀ id, s.accepted.length ≤ id → s.mine id = (fun _ => []) ∧ s.callbacks id = fun _ => []

variable {a : Accepted L} {g : Stage}

theorem Life.congr (h : Life s id a g) (hl : t.loop_ = s.loop_) (hm : t.mine id = s.mine id)
    (hc : t.callbacks id = s.callbacks id) : Life t id a g :=
  ⟨h.phase, h.closeCallbacks, h.logged, by rw [hm, hl, h.queued], by rw [hc]; exact h.away,
    by rw [hc]; exact h.here⟩

/-- A step that touches one connection has to account for that one only. -/
theorem Inv.touches (h : Inv s) (ht : Touches s id t)
    (hid : ∀ a, t.accepted[id]? = some a → ∃ g, Life t id a g) : Inv t where
  life := by
    intro j b hb
    by_cases hj : j = id
    · subst hj
      exact hid b hb
    · rw [ht.accepted j hj] at hb
      obtain ⟨g, hg⟩ := h.life j b hb
      exact ⟨g, hg.congr ht.loop (ht.mine j hj) (ht.callbacks j hj)⟩
  unborn := by
    intro j hj
    have hne : j ≠ id := by
      rintro rfl
      exact absurd ht.born (Nat.not_lt.mpr hj)
    obtain ⟨hm, hc⟩ := h.unborn j (ht.length.trans hj)
    exact ⟨(ht.mine j hne).trans hm, (ht.callbacks j hne).trans hc⟩

/-! ### One step of one connection -/

theorem Life.call (h : Life s id a g) (l : L) {what : LoopCall} {f : TcpConnection → TcpConnection}
    {g' : Stage} (hp : g'.Phase (f a.conn)) (hc : (f a.conn).closeCallbacks = g'.closeCallbacks)
    (hlog : g'.Logged (a.log ++ [what])) (hq : g'.queued s.loop_ a.loop_ id = g.queued s.loop_ a.loop_ id)
    (hh : g'.Allows (s.callbacks id a.loop_)) :
    Life (s.call l id what f) id (a.ran l what (f a.conn)) g' :=
  ⟨hp, hc, hlog, h.queued.trans hq.symm, h.away, hh⟩

theorem Life.removeConnectionInLoop (h : Life s id a .closing) (ha : s.accepted[id]? = some a)
    (l : L) : Life (s.removeConnectionInLoop id l) id a .left := by
  have heq : s.removeConnectionInLoop id l =
      { s with
        connections_ := s.connections_.erase a.name_
        removals := s.removals ++ [(id, l)] }.queueInLoop a.loop_ (.connectDestroyed id) := by
    rw [TcpServer.removeConnectionInLoop, ha]
  rw [heq]
  exact ⟨h.phase, h.closeCallbacks, h.logged,
    mine_queueInLoop (by exact h.queued) a.loop_ rfl, h.away, h.here⟩

theorem Life.removeConnection (h : Life s id a .closing) (ha : s.accepted[id]? = some a) (l : L) :
    ∃ g, Life (s.removeConnection id l) id a g := by
  unfold TcpServer.removeConnection
  split
  · exact ⟨.left, h.removeConnectionInLoop ha l⟩
  · exact ⟨.leaving, h.phase, h.closeCallbacks, h.logged,
      mine_queueInLoop h.queued s.loop_ rfl, h.away, h.here⟩

/-! ### Callbacks -/

theorem Stage.Allows.tail {k : Callback} {ks : List Callback} (h : g.Allows (k :: ks)) :
    g.Allows ks ∧ g ≠ .waiting ∧ g ≠ .removed ∧
      (k.closes = true → g = .opened ∧ Stage.closing.Allows ks) := by
  cases g <;> simp only [Stage.Allows, List.countP_cons] at h ⊢ <;> grind

theorem Stage.Logged.append_handler {log : List LoopCall} (h : g.Logged log) (hg : g ≠ .waiting)
    (k : TcpConnection.Handler) : g.Logged (log ++ [.handler k]) := by
  cases g with
  | waiting => exact absurd rfl hg
  | _ => exact Established.append h (by simp)

theorem touches_removeConnectionInLoop (hid : id < s.accepted.length) (l : L) :
    Touches s id (s.removeConnectionInLoop id l) := by
  unfold TcpServer.removeConnectionInLoop
  rw [List.getElem?_eq_getElem hid]
  have hq := touches_queueInLoop hid s.accepted[id].loop_
    (show (ServerFunctor.connectDestroyed id).conn = id from rfl)
  exact ⟨hq.loop, hq.length, hq.born, hq.accepted, hq.mine, hq.callbacks⟩

theorem touches_removeConnection (hid : id < s.accepted.length) (l : L) :
    Touches s id (s.removeConnection id l) := by
  unfold TcpServer.removeConnection
  split
  · exact touches_removeConnectionInLoop hid l
  · exact touches_queueInLoop hid s.loop_ rfl

@[simp] theorem accepted_queueInLoop (s : TcpServer L) (l : L) (f : ServerFunctor) :
    (s.queueInLoop l f).accepted = s.accepted := rfl

@[simp] theorem accepted_removeConnectionInLoop (s : TcpServer L) (id : ConnId) (l : L) :
    (s.removeConnectionInLoop id l).accepted = s.accepted := by
  unfold TcpServer.removeConnectionInLoop
  split <;> rfl

@[simp] theorem accepted_removeConnection (s : TcpServer L) (id : ConnId) (l : L) :
    (s.removeConnection id l).accepted = s.accepted := by
  unfold TcpServer.removeConnection
  split <;> simp

/-- The dispatch goes on with the rest of its callbacks. -/
theorem Life.popCallback (h : Life s id a g) {l : L} {k : Callback} {ks : List Callback}
    (hk : s.todo l = k :: ks) (hid : k.conn = id) :
    l = a.loop_ ∧ g.Allows (k :: ({ s with todo := Function.update s.todo l ks }).callbacks id l) ∧
      Life { s with todo := Function.update s.todo l ks } id a g := by
  have hcb : s.callbacks id l = k :: ks.filter (·.conn == id) := by
    simp [TcpServer.callbacks, hk, hid]
  have hl : l = a.loop_ := by
    by_contra hne
    simp [h.away l hne] at hcb
  subst hl
  have hhere := h.here
  rw [hcb] at hhere
  have hrest : ({ s with todo := Function.update s.todo a.loop_ ks }).callbacks id a.loop_ =
      ks.filter (·.conn == id) := by
    simp [TcpServer.callbacks]
  refine ⟨rfl, hrest ▸ hhere, h.phase, h.closeCallbacks, h.logged, h.queued, ?_, ?_⟩
  · intro l hl
    simpa [TcpServer.callbacks, hl] using h.away l hl
  · exact hrest ▸ hhere.tail.1

/-- A closing handler ends in `removeConnection`, any other returns. -/
theorem runCallback_eq {k : Callback} (ha : s.accepted[k.conn]? = some a) (l : L) :
    s.runCallback l k =
      if k.closes = true then (s.callHandler l k).removeConnection k.conn l
      else s.callHandler l k := by
  have hcc : s.closeCallbacks k.conn < (s.callHandler l k).closeCallbacks k.conn ↔
      k.closes = true := by
    have hrun := TcpConnection.closeCallbacks_runHandler k.env a.conn k.handler
    simp only [TcpServer.closeCallbacks, accepted_callHandler ha, ha, Option.map_some,
      Option.getD_some, Accepted.ran, hrun, Callback.closes]
    cases k.handler.closes k.env.read <;> simp
  simp [TcpServer.runCallback, hcc]

theorem Life.callHandler {k : Callback} (h : Life s k.conn a g)
    (hallow : g.Allows (k :: s.callbacks k.conn a.loop_)) (l : L) :
    Life (s.callHandler l k) k.conn
      (a.ran l (.handler k.handler) (TcpConnection.runHandler k.env a.conn k.handler))
      (if k.closes = true then .closing else g) := by
  obtain ⟨htail, hw, hr, hclose⟩ := hallow.tail
  have hcc := TcpConnection.closeCallbacks_runHandler k.env a.conn k.handler
  have hlog := h.logged.append_handler hw k.handler
  by_cases hk : k.closes = true
  · obtain ⟨rfl, hclosing⟩ := hclose hk
    have hrun := TcpConnection.runHandler_of_closes hk a.conn
    rw [show k.handler.closes k.env.read = true from hk, h.closeCallbacks] at hcc
    rw [if_pos hk]
    exact h.call l (by exact hrun ▸ h.phase.handleClose _) hcc hlog rfl hclosing
  · have hk' : k.handler.closes k.env.read = false := Bool.eq_false_iff.mpr hk
    rw [hk', h.closeCallbacks] at hcc
    rw [if_neg hk]
    refine h.call l ?_ hcc hlog rfl htail
    cases g with
    | waiting => exact absurd rfl hw
    | removed => exact absurd rfl hr
    | opened => exact Open.runHandler_open h.phase hk'
    | _ => exact Closed.runHandler_closed h.phase hk'

theorem Life.runCallback {k : Callback} (h : Life s k.conn a g)
    (ha : s.accepted[k.conn]? = some a) (hallow : g.Allows (k :: s.callbacks k.conn a.loop_)) :
    Touches s k.conn (s.runCallback a.loop_ k) ∧
      ∀ b, (s.runCallback a.loop_ k).accepted[k.conn]? = some b →
        ∃ g', Life (s.runCallback a.loop_ k) k.conn b g' := by
  have hlife := h.callHandler hallow a.loop_
  have htouch : Touches s k.conn (s.callHandler a.loop_ k) :=
    touches_modify (List.getElem?_eq_some_iff.mp ha).1 _
  rw [runCallback_eq ha]
  split at hlife
  · rw [if_pos ‹_›]
    refine ⟨htouch.trans (touches_removeConnection htouch.born _), ?_⟩
    intro b hb
    rw [accepted_removeConnection, accepted_callHandler ha] at hb
    obtain rfl := Option.some.inj hb
    exact hlife.removeConnection (accepted_callHandler ha _) _
  · rw [if_neg ‹_›]
    refine ⟨htouch, ?_⟩
    intro b hb
    obtain rfl := Option.some.inj ((accepted_callHandler ha _).symm.trans hb)
    exact ⟨_, hlife⟩

theorem Inv.runCallback (h : Inv s) {l : L} {k : Callback} {ks : List Callback}
    (hk : s.todo l = k :: ks) :
    Inv ({ s with todo := Function.update s.todo l ks }.runCallback l k) := by
  have hid : k.conn < s.accepted.length := by
    by_contra hge
    have hcb := congrFun (h.unborn k.conn (Nat.not_lt.mp hge)).2 l
    simp [TcpServer.callbacks, hk] at hcb
  have ha := List.getElem?_eq_getElem hid
  obtain ⟨g, hg⟩ := h.life k.conn _ ha
  obtain ⟨rfl, hallow, hpop⟩ := hg.popCallback hk rfl
  have htouch : Touches s k.conn
      { s with todo := Function.update s.todo (s.accepted[k.conn]).loop_ ks } :=
    touches_todo hid fun j hj => by simp [TcpServer.callbacks, hk, Ne.symm hj]
  obtain ⟨hrest, hlife⟩ := hpop.runCallback ha hallow
  exact h.touches (htouch.trans hrest) hlife

/-! ### Functors -/

/-- The functor that runs is the one its connection was waiting for. -/
theorem Life.runFunctor {l : L} {f : ServerFunctor} {q : FunctorQueue ServerFunctor}
    (h : Life s id a g) (ha : s.accepted[id]? = some a) (hn : (s.queues l).next = some (f, q))
    (hf : f.conn = id) (hl : s.todo l = []) (calls : List UserCall) :
    Touches (s.popped l q) id ((s.popped l q).runFunctor l calls f) ∧
      ∀ b, ((s.popped l q).runFunctor l calls f).accepted[id]? = some b →
        ∃ g', Life ((s.popped l q).runFunctor l calls f) id b g' := by
  have hid : id < (s.popped l q).accepted.length := (List.getElem?_eq_some_iff.mp ha).1
  have ha' : (s.popped l q).accepted[id]? = some a := ha
  have hmine := h.queued
  cases g with
  | waiting =>
    obtain ⟨rfl, rfl, hnone⟩ := eq_of_popped hn hf hmine
    refine ⟨touches_modify hid _, ?_⟩
    intro b hb
    obtain rfl := Option.some.inj ((accepted_call ha' _ _ _).symm.trans hb)
    have hlog : a.log = [] := h.logged
    have hnil : s.callbacks id a.loop_ = [] := h.here
    refine ⟨.opened, Fresh.connectEstablished h.phase calls, ?_, ?_, hnone, h.away, ?_⟩
    · exact (TcpConnection.closeCallbacks_connectEstablished _ _).trans h.closeCallbacks
    · simp [Accepted.ran, hlog, Stage.Logged, Established]
    · exact le_of_eq_of_le (congrArg (List.countP Callback.closes) hnil) (by simp)
  | leaving =>
    obtain ⟨rfl, rfl, hnone⟩ := eq_of_popped hn hf hmine
    refine ⟨touches_removeConnectionInLoop hid _, ?_⟩
    intro b hb
    rw [TcpServer.runFunctor, accepted_removeConnectionInLoop] at hb
    obtain rfl := Option.some.inj (ha'.symm.trans hb)
    have hclosing : Life (s.popped s.loop_ q) id a .closing :=
      ⟨h.phase, h.closeCallbacks, h.logged, hnone, h.away, h.here⟩
    exact ⟨.left, hclosing.removeConnectionInLoop ha' _⟩
  | left =>
    obtain ⟨rfl, rfl, hnone⟩ := eq_of_popped hn hf hmine
    refine ⟨touches_modify hid _, ?_⟩
    intro b hb
    obtain rfl := Option.some.inj ((accepted_call ha' _ _ _).symm.trans hb)
    refine ⟨.removed, Closed.connectDestroyed h.phase calls, ?_, ?_, hnone, h.away, ?_⟩
    · exact (TcpConnection.closeCallbacks_connectDestroyed _ _).trans h.closeCallbacks
    · exact Established.append h.logged (by simp)
    · exact congrArg (List.filter _) hl
  | _ =>
    have hsome := (congrFun (mine_popped hn hf) l).symm.trans (congrFun hmine l)
    simp [Stage.queued] at hsome

theorem Inv.runFunctor (h : Inv s) {l : L} {f : ServerFunctor} {q : FunctorQueue ServerFunctor}
    (hn : (s.queues l).next = some (f, q)) (hl : s.todo l = []) (calls : List UserCall) :
    Inv ((s.popped l q).runFunctor l calls f) := by
  have hid : f.conn < s.accepted.length := by
    by_contra hge
    have hnone := congrFun (h.unborn f.conn (Nat.not_lt.mp hge)).1 l
    simp [mine_popped hn rfl] at hnone
  obtain ⟨g, hg⟩ := h.life f.conn _ (List.getElem?_eq_getElem hid)
  obtain ⟨hrest, hlife⟩ := hg.runFunctor (List.getElem?_eq_getElem hid) hn rfl hl calls
  exact h.touches ((touches_popped hid hn rfl).trans hrest) hlife

/-! ### The other steps -/

/-- Events reach a connection only while it is open. -/
theorem Life.opened_of_registered (h : Life s id a g) (hr : a.conn.registered = true) :
    g = .opened := by
  have hp := h.phase
  cases g with
  | opened => rfl
  | waiting => simp [Fresh.registered hp] at hr
  | removed => simp [Removed.registered hp] at hr
  | _ => simp [Closed.registered hp] at hr

theorem Inv.dispatch (h : Inv s) (ha : s.accepted[id]? = some a) (hp : s.polled a.loop_)
    (hr : a.conn.registered = true) {revents : EventMask} {env : TcpConnection.Environment}
    (hone : (TcpConnection.handlers revents).countP (·.closes env.read) ≤ 1) :
    Inv { s with
      todo := Function.update s.todo a.loop_
        ((TcpConnection.handlers revents).map fun h => ⟨id, env, h⟩) } := by
  have hid : id < s.accepted.length := (List.getElem?_eq_some_iff.mp ha).1
  have hmap : ∀ (hs : List TcpConnection.Handler) (j : ConnId),
      (hs.map fun h => (⟨id, env, h⟩ : Callback)).filter (·.conn == j) =
        if j = id then hs.map fun h => ⟨id, env, h⟩ else [] := by
    intro hs j
    by_cases hj : j = id
    · simp [hj, List.filter_eq_self]
    · simp [hj, List.filter_eq_nil_iff, Ne.symm hj]
  refine h.touches (touches_todo hid ?_) ?_
  · intro j hj
    rw [hmap, if_neg hj]
    simp [TcpServer.callbacks, hp.1]
  · intro b hb
    obtain rfl := Option.some.inj (ha.symm.trans hb)
    obtain ⟨g, hg⟩ := h.life id a ha
    obtain rfl := hg.opened_of_registered hr
    refine ⟨.opened, hg.phase, hg.closeCallbacks, hg.logged, hg.queued, ?_, ?_⟩
    · intro l hl
      simpa [TcpServer.callbacks, hl] using hg.away l hl
    · simp only [Stage.Allows, TcpServer.callbacks, Function.update_self, hmap, if_true,
        List.countP_map]
      exact hone

omit [DecidableEq L] in
theorem touches_entered (s : TcpServer L) (a : Accepted L) :
    Touches s s.accepted.length (s.entered a) := by
  refine ⟨rfl, by simp [entered], by simp [entered], ?_, fun _ _ => rfl, fun _ _ => rfl⟩
  intro j hj
  simp only [entered, List.getElem?_append]
  grind

theorem touches_newConnection (s : TcpServer L) (ioLoop : L) (addr sockfd : Nat)
    (calls : List UserCall) :
    Touches s s.accepted.length (s.newConnection ioLoop addr sockfd calls) := by
  have htouch := touches_entered s (s.newTcpConnection ioLoop addr sockfd)
  unfold TcpServer.newConnection
  dsimp only
  split
  · exact htouch.trans (touches_modify htouch.born _)
  · exact htouch.trans (touches_queueInLoop htouch.born ioLoop rfl)

theorem Inv.newConnection (h : Inv s) (ioLoop : L) (addr sockfd : Nat) (calls : List UserCall) :
    Inv (s.newConnection ioLoop addr sockfd calls) := by
  obtain ⟨hmine, hcb⟩ := h.unborn s.accepted.length le_rfl
  have hfresh : Fresh (s.newTcpConnection ioLoop addr sockfd).conn :=
    ⟨rfl, ⟨rfl, rfl, rfl⟩, rfl, rfl, rfl, rfl⟩
  have hnew : (s.entered (s.newTcpConnection ioLoop addr sockfd)).accepted[s.accepted.length]? =
      some (s.newTcpConnection ioLoop addr sockfd) := accepted_entered_length
  refine h.touches (touches_newConnection s ioLoop addr sockfd calls) ?_
  unfold TcpServer.newConnection
  dsimp only
  split
  · intro b hb
    obtain rfl := Option.some.inj ((accepted_call hnew _ _ _).symm.trans hb)
    refine ⟨.opened, hfresh.connectEstablished calls, ?_, ?_, hmine, fun l _ => congrFun hcb l, ?_⟩
    · exact TcpConnection.closeCallbacks_connectEstablished _ _
    · simp [Accepted.ran, newTcpConnection, Stage.Logged, Established]
    · exact le_of_eq_of_le (congrArg (List.countP Callback.closes) (congrFun hcb ioLoop)) (by simp)
  · intro b hb
    obtain rfl := Option.some.inj (hnew.symm.trans hb)
    exact ⟨.waiting, hfresh, rfl, rfl, mine_queueInLoop hmine ioLoop rfl, fun l _ => congrFun hcb l,
      congrFun hcb ioLoop⟩

theorem Inv.userCall (h : Inv s) (ha : s.accepted[id]? = some a) (hlog : a.log ≠ [])
    (u : UserCall) :
    Inv (s.modify id fun a => { a with conn := a.conn.userCall u }) := by
  refine h.touches (touches_modify (List.getElem?_eq_some_iff.mp ha).1 _) ?_
  intro b hb
  rw [accepted_modify, ha] at hb
  obtain rfl := Option.some.inj hb
  obtain ⟨g, hg⟩ := h.life id a ha
  have hphase : g.Phase (a.conn.userCall u) := by
    have hp := hg.phase
    cases g with
    | waiting => exact absurd hg.logged hlog
    | opened => exact TcpConnection.stable_open.userCall u hp
    | removed => exact Removed.userCalls hp [u]
    | _ => exact Closed.userCalls hp [u]
  exact ⟨g, hphase, (TcpConnection.closeCallbacks_userCall _ u).trans hg.closeCallbacks,
    hg.logged, hg.queued, hg.away, hg.here⟩

theorem Inv.swap (h : Inv s) {l : L} (hf : (s.queues l).functors = []) :
    Inv { s with queues := Function.update s.queues l (s.queues l).swap } := by
  have hmine : ∀ id, mine { s with queues := Function.update s.queues l (s.queues l).swap } id =
      s.mine id := by
    intro id
    funext l'
    by_cases hl : l' = l
    · subst hl
      simp [mine, FunctorQueue.all_swap _ hf]
    · simp [mine, hl]
  constructor
  · intro id a ha
    obtain ⟨g, hg⟩ := h.life id a ha
    exact ⟨g, hg.congr rfl (hmine id) rfl⟩
  · intro id hid
    exact ⟨(hmine id).trans (h.unborn id hid).1, (h.unborn id hid).2⟩

/-! ## Every run -/

/-- Of the handlers that a dispatch runs, at most one closes the connection. -/
def ClosesOnce (_ : TcpServer L) : ServerLabel L → Prop
  | .dispatch _ revents env => (TcpConnection.handlers revents).countP (·.closes env.read) ≤ 1
  | _ => True

theorem Inv.step {l : ServerLabel L} (h : Inv s) (hok : ClosesOnce s l) (hst : s.step l = some t) :
    Inv t := by
  cases step_moves hst with
  | newConnection ioLoop addr sockfd calls => exact h.newConnection ioLoop addr sockfd calls
  | dispatch revents env ha hp hr => exact h.dispatch ha hp hr hok
  | handler hk => exact h.runCallback hk
  | swap hp => exact h.swap hp.2
  | runFunctor calls hl hn => exact h.runFunctor hn hl calls
  | userCall u ha hlog => exact h.userCall ha hlog u

/-- A connection is established once and before anything else, closes at most once, is
destroyed at most once, all on its io loop, and no assertion of the removal fails. -/
structure LivesOnce (s : TcpServer L) (id : ConnId) (a : Accepted L) : Prop where
  established :
    (a.log = [] ∧ (s.queues a.loop_).all.count (.connectEstablished id) = 1) ∨
      (a.log.head? = some .connectEstablished ∧ a.log.count .connectEstablished = 1 ∧
        ∀ l, .connectEstablished id ∉ (s.queues l).all)
  closed : a.conn.closeCallbacks ≤ 1
  destroyed : a.log.count .connectDestroyed ≤ 1
  onLoop : a.OnLoop
  known : a.conn.aborted = none

/-- Only a waiting connection has `connectEstablished` queued. -/
theorem Stage.count_queued (hg : g ≠ .waiting) (base io l : L) (id : ConnId) :
    (g.queued base io id l).count (.connectEstablished id) = 0 := by
  cases g <;> simp only [Stage.queued, Function.update_apply] at hg ⊢ <;> grind

theorem Life.livesOnce (h : Life s id a g) (hon : a.OnLoop) : LivesOnce s id a := by
  have hcount : ∀ l, (s.queues l).all.count (.connectEstablished id) =
      (g.queued s.loop_ a.loop_ id l).count (.connectEstablished id) := by
    intro l
    rw [← h.queued, mine, List.count_filter]
    simp [ServerFunctor.conn]
  have hlog := h.logged
  have hcc := h.closeCallbacks
  have hp := h.phase
  have hnone : g ≠ .waiting → ∀ l, .connectEstablished id ∉ (s.queues l).all := by
    intro hg l hm
    have hpos := List.count_pos_iff.mpr hm
    rw [hcount, Stage.count_queued hg] at hpos
    exact Nat.lt_irrefl 0 hpos
  cases g with
  | waiting =>
    have hnil : a.log = [] := hlog
    exact ⟨.inl ⟨hnil, by rw [hcount]; simp [Stage.queued]⟩, hcc.trans_le (Nat.zero_le 1),
      by simp [hnil], hon, Fresh.running hp⟩
  | removed =>
    obtain ⟨hh, he, hd⟩ := hlog
    exact ⟨.inr ⟨hh, he, hnone (by simp)⟩, hcc.le, hd.le, hon, Removed.running hp⟩
  | opened =>
    obtain ⟨hh, he, hd⟩ := hlog
    exact ⟨.inr ⟨hh, he, hnone (by simp)⟩, hcc.trans_le (Nat.zero_le 1),
      hd.trans_le (Nat.zero_le 1), hon, Open.running hp⟩
  | _ =>
    obtain ⟨hh, he, hd⟩ := hlog
    exact ⟨.inr ⟨hh, he, hnone (by simp)⟩, hcc.le, hd.trans_le (Nat.zero_le 1), hon,
      Closed.running hp⟩

/-- As long as no dispatch runs two handlers that close, on whichever loops and in whatever
order, every connection lives once. -/
theorem lives_once (h : (machine L).Reach ClosesOnce s) {id : ConnId} {a : Accepted L}
    (ha : s.accepted[id]? = some a) : LivesOnce s id a := by
  have hinv : Inv s := by
    refine h.invariant (I := Inv) ?_ ?_
    · rintro s ⟨base, b, rfl⟩
      constructor
      · intro id a ha
        simp at ha
      · intro id _
        exact ⟨rfl, rfl⟩
    · intro s l t hs hok hst
      exact hs.step hok hst
  obtain ⟨g, hg⟩ := hinv.life id a ha
  exact hg.livesOnce ((inPlace h.reachable).placed.calls a (List.mem_of_getElem? ha))

/-- Accepted on the base loop, established, hung up and destroyed on an io loop. -/
theorem lives_once_over_two_loops :
    ∃ (s : TcpServer Bool) (a : Accepted Bool), (machine Bool).Reach ClosesOnce s ∧
      s.accepted[0]? = some a ∧
      a.log = [.connectEstablished, .handler .close, .connectDestroyed] ∧ LivesOnce s 0 a := by
  have h₀ : (machine Bool).Reach ClosesOnce { loop_ := false } := .init ⟨false, false, rfl⟩
  have h₁ := h₀.step (.newConnection true 1 5 []) (by trivial) rfl
  have h₂ := h₁.step (.swap true) (by trivial) rfl
  have h₃ := h₂.step (.runFunctor true []) (by trivial) rfl
  have h₄ := h₃.step (.dispatch 0 EPOLLHUP {}) (by exact Nat.le_of_eq rfl) rfl
  have h₅ := h₄.step (.handler true) (by trivial) rfl
  have h₆ := h₅.step (.swap false) (by trivial) rfl
  have h₇ := h₆.step (.runFunctor false []) (by trivial) rfl
  have h₈ := h₇.step (.swap true) (by trivial) rfl
  have h₉ := h₈.step (.runFunctor true []) (by trivial) rfl
  exact ⟨_, _, h₉, rfl, rfl, lives_once h₉ rfl⟩

/-- A reset reported as `EPOLLHUP | EPOLLERR` closes the connection twice: it is removed
twice, and the second `connectDestroyed` runs into the assertion of `removeChannel`. -/
theorem destroyed_twice :
    ∃ (s : TcpServer Bool) (a : Accepted Bool),
      (machine Bool).run { loop_ := false }
        [.newConnection true 1 5 [], .swap true, .runFunctor true [],
          .dispatch 0 (EPOLLHUP ||| EPOLLERR) {}, .handler true, .handler true, .swap false,
          .runFunctor false [], .runFunctor false [], .swap true, .runFunctor true [],
          .runFunctor true []] = some s ∧
      s.accepted[0]? = some a ∧ a.conn.closeCallbacks = 2 ∧
      a.log.count .connectDestroyed = 2 ∧ a.conn.aborted = some .indexKnown ∧
      ¬ LivesOnce s 0 a := by
  refine ⟨_, _, rfl, rfl, rfl, rfl, rfl, ?_⟩
  intro h
  exact absurd h.closed (by decide)

end TcpServer

end Muduo
