import Muduo.Server.Process

/-!
# Channels that wait for their turn

Nothing in `activeChannels_` keeps a channel alive, and the guard of `handleEvent` comes with
its turn only. Until then its connection lives by its entry in `connections_`; or, when that
has been erased, by a functor that the loop cannot swap in before the end of the dispatch.

`~TcpServer` breaks this on its own loop. It runs `connectDestroyed` in place and drops the
entry's pointer at once, and then destroys the acceptor.
-/

namespace Muduo

theorem suffix_push {α : Type*} {f g : α} {b w : List α} (h : f :: b <:+ w ++ [g]) :
    (∃ c, b = c ++ [g] ∧ f :: c <:+ w) ∨ (b = [] ∧ g = f) := by
  rcases List.suffix_concat_iff.mp h with h | ⟨c, hc, hs⟩
  · simp at h
  · cases c with
    | nil => exact .inr (by simpa [eq_comm, and_comm] using hc)
    | cons f' c =>
      simp only [List.cons_append, List.cons.injEq] at hc
      obtain ⟨rfl, rfl⟩ := hc
      exact .inl ⟨c, rfl, hs⟩

namespace LoopState

variable {st st' : LoopState} {e : LoopEvent} {x : LoopEffect}

/-- While a channel waits, functors are queued and not swapped in. -/
theorem Steps.pending_kept (hst : Steps st e st' x) (ha : st'.activeChannels_ ≠ [])
    {f : HeldFunctor} (hf : f ∈ st.queue.pendingFunctors_) : f ∈ st'.queue.pendingFunctors_ := by
  cases hst with
  | swap _ hn => exact absurd hn ha
  | call hq =>
    obtain ⟨-, -, he⟩ := LoopFunctors.call_eq_some hq
    rw [he]
    exact hf
  | _ => exact hf

end LoopState

namespace ServerProcess

variable {L : Type*} {pool : EventLoopThreadPool L} {s t : ServerProcess L} {a : ProcessLabel L}
  {id : ConnId} {P Q : Prop}

/-! ## What keeps a connection -/

/-- The queue of the connection's loop. -/
def ioQueue (pool : EventLoopThreadPool L) (s : ServerProcess L) (id : ConnId) :
    LoopFunctors HeldFunctor :=
  (s.loops (pool.getNextLoop id)).queue

/-- The connection's channel is among those that its loop is still to dispatch. -/
def Waiting (pool : EventLoopThreadPool L) (s : ServerProcess L) (id : ConnId) : Prop :=
  ∃ revents read, .conn id revents read ∈ (s.loops (pool.getNextLoop id)).activeChannels_

/-- Its removal is under way: `removeConnectionInLoop` waits, or `connectDestroyed` is among
the functors `w` of its loop. -/
def Leaving (pool : EventLoopThreadPool L) (s : ServerProcess L) (id : ConnId)
    (w : List HeldFunctor) : Prop :=
  .removeConnectionInLoop id ∈ (s.loops pool.baseloop_).queue.waiting ∨ .connectDestroyed id ∈ w

/-- As long as the connection's channel can be polled or waits, the connection is kept by its
removal, by `P`, or by a callback that will be swapped in later. -/
structure Kept (pool : EventLoopThreadPool L) (s : ServerProcess L) (id : ConnId) (P : Prop) :
    Prop where
  polled : s.registered id = true → P ∨ Leaving pool s id (ioQueue pool s id).waiting
  /-- functors that wait behind `connectEstablished` -/
  establishing : ∀ b, .connectEstablished id :: b <:+ (ioQueue pool s id).waiting →
    P ∨ Leaving pool s id b
  waiting : Waiting pool s id → P ∨ Leaving pool s id (ioQueue pool s id).waiting ∨
    .callback id ∈ (ioQueue pool s id).pendingFunctors_

/-- What keeps a connection that is not on its way out. -/
def Held (s : ServerProcess L) (id : ConnId) : Prop := s.Entry id ∨ 0 < s.users id

variable [DecidableEq L]

/-- The connection for which the step runs `removeConnectionInLoop`. -/
def removes (pool : EventLoopThreadPool L) (s : ServerProcess L) (l : L) : LoopEvent → Option ConnId
  | .call =>
    match (s.loops l).queue.functors with
    | .removeConnectionInLoop id :: _ => some id
    | _ => none
  | .closeCallback =>
    match (s.loops l).current with
    | some (.conn id _ _ true) => if l = pool.baseloop_ then some id else none
    | _ => none
  | _ => none

/-- No name is taken from a connection that needs its entry; on the server's own loop,
`~TcpServer` finds no waiting connection that only its entry keeps, and the acceptor does not
wait; and no user drops the last pointer to a connection that needs it. -/
def LeavesWaiting (pool : EventLoopThreadPool L) (s : ServerProcess L) : ProcessLabel L → Prop
  | .newConnection =>
    ∀ id, s.connections_.lookup (connNumber s.accepted) = some id → Kept pool s id (0 < s.users id)
  | .loop l e =>
    ∀ id ∈ removes pool s l e, ∀ id', s.connections_.lookup (connNumber id) = some id' →
      id' ≠ id → Kept pool s id' (0 < s.users id')
  | .destroyItem name =>
    ∀ id, s.connections_.lookup name = some id → pool.getNextLoop id = pool.baseloop_ →
      Waiting pool s id → 0 < s.users id ∨ Leaving pool s id (ioQueue pool s id).waiting ∨
        .callback id ∈ (ioQueue pool s id).pendingFunctors_
  | .destroyed => .acceptor ∉ (s.loops pool.baseloop_).activeChannels_
  | .drop id =>
    s.users id = 1 → (s.loops (pool.getNextLoop id)).stopped = false → Kept pool s id (s.Entry id)
  | .enableWriting id =>
    (s.loops (pool.getNextLoop id)).stopped = false →
      s.registered id = true ∨ s.Held id ∨ Leaving pool s id (ioQueue pool s id).waiting
  | _ => True

/-! ## Steps that take nothing away -/

omit [DecidableEq L]

theorem Kept.mono (h : Kept pool s id P) (hp : P → Q)
    (hr : t.registered id = true → s.registered id = true)
    (hl : ∀ b b', (.connectDestroyed id ∈ b → .connectDestroyed id ∈ b') →
      Leaving pool s id b → Leaving pool t id b')
    (hd : .connectDestroyed id ∈ (ioQueue pool s id).waiting →
      .connectDestroyed id ∈ (ioQueue pool t id).waiting)
    (he : ∀ b, .connectEstablished id :: b <:+ (ioQueue pool t id).waiting →
      .connectEstablished id :: b <:+ (ioQueue pool s id).waiting)
    (hw : Waiting pool t id → (Waiting pool s id ∨ s.registered id = true) ∧
      (.callback id ∈ (ioQueue pool s id).pendingFunctors_ →
        .callback id ∈ (ioQueue pool t id).pendingFunctors_)) : Kept pool t id Q where
  polled := fun h' => (h.polled (hr h')).imp hp (hl _ _ hd)
  establishing := fun b hb => (h.establishing b (he b hb)).imp hp (hl _ _ fun hm => hm)
  waiting := by
    intro h'
    obtain ⟨hs | hs, hc⟩ := hw h'
    · exact (h.waiting hs).imp hp (Or.imp (hl _ _ hd) hc)
    · exact (h.polled hs).imp hp fun hq => .inl (hl _ _ hd hq)

/-- The same functors are waiting. -/
theorem Kept.of_queues (h : Kept pool s id P) (hp : P → Q)
    (hr : t.registered id = true → s.registered id = true)
    (hb : (t.loops pool.baseloop_).queue.waiting = (s.loops pool.baseloop_).queue.waiting)
    (hi : (ioQueue pool t id).waiting = (ioQueue pool s id).waiting)
    (hw : Waiting pool t id → (Waiting pool s id ∨ s.registered id = true) ∧
      (.callback id ∈ (ioQueue pool s id).pendingFunctors_ →
        .callback id ∈ (ioQueue pool t id).pendingFunctors_)) : Kept pool t id Q := by
  refine h.mono hp hr ?_ ?_ ?_ hw
  · intro b b' hbb hv
    rw [Leaving, hb]
    exact hv.imp_right hbb
  · exact fun hm => hi ▸ hm
  · exact fun b hsuf => hi ▸ hsuf

/-- What `Kept` reads is the same, and `P` only gets weaker. -/
theorem Kept.of_eq (h : Kept pool s id P) (hp : P → Q)
    (hr : t.registered id = true → s.registered id = true) (hl : t.loops = s.loops) :
    Kept pool t id Q := by
  have hq : ioQueue pool t id = ioQueue pool s id := by rw [ioQueue, ioQueue, hl]
  refine h.of_queues hp hr (by rw [hl]) (by rw [hq]) fun hw => ?_
  rw [Waiting, hl] at hw
  exact ⟨.inl hw, fun hm => hq ▸ hm⟩

theorem Kept.of_holds (hp : P) : Kept pool s id P :=
  ⟨fun _ => .inl hp, fun _ _ => .inl hp, fun _ => .inl hp⟩

theorem Kept.register (h : Kept pool s id P) {id' : ConnId}
    (hid : id' = id → s.registered id = true ∨ P ∨ Leaving pool s id (ioQueue pool s id).waiting) :
    Kept pool (s.setRegistered id' true) id P where
  polled := by
    intro hr
    by_cases he : id = id'
    · exact (hid he.symm).elim h.polled fun hk => hk
    · exact h.polled (by simpa [setRegistered, he] using hr)
  establishing := h.establishing
  waiting := h.waiting

theorem Kept.unregister (h : Kept pool s id P) (id' : ConnId) :
    Kept pool (s.setRegistered id' false) id P := by
  refine h.of_eq (fun hp => hp) (fun hr => ?_) rfl
  by_cases he : id = id'
  · simp [setRegistered, he] at hr
  · simpa [setRegistered, he] using hr

variable [DecidableEq L]

theorem Kept.queueInLoop (h : Kept pool s id P) {l : L} {f : HeldFunctor}
    (hf : f = .connectEstablished id → P) : Kept pool (s.queueInLoop l f) id P := by
  have hmem : ∀ g l', g ∈ (s.loops l').queue.waiting →
      g ∈ ((s.queueInLoop l f).loops l').queue.waiting :=
    fun g l' hg => (mem_waiting_queueInLoop l l' f g).mpr (.inl hg)
  have hleave : ∀ b b', (.connectDestroyed id ∈ b → .connectDestroyed id ∈ b') →
      Leaving pool s id b → Leaving pool (s.queueInLoop l f) id b' :=
    fun b b' hb hv => hv.imp (hmem _ _) hb
  refine ⟨fun hr => (h.polled hr).imp_right (hleave _ _ (hmem _ _)), ?_, ?_⟩
  · intro b hb
    rw [ioQueue, loops_queueInLoop] at hb
    split at hb
    · rcases suffix_push (LoopFunctors.waiting_push _ _ ▸ hb) with ⟨c, rfl, hc⟩ | ⟨-, hf'⟩
      · exact (h.establishing c hc).imp_right (hleave _ _ (List.mem_append_left _))
      · exact .inl (hf hf')
    · exact (h.establishing b hb).imp_right (hleave _ _ fun hm => hm)
  · rintro ⟨revents, read, hm⟩
    rw [(aside_queueInLoop s l f).active] at hm
    exact (h.waiting ⟨revents, read, hm⟩).imp_right
      (Or.imp (hleave _ _ (hmem _ _)) (mem_pending_queueInLoop l _ f))

/-- `connectDestroyed` is queued last, and keeps the connection by itself. -/
theorem kept_destroying (s : ServerProcess L) (id : ConnId) (P : Prop) :
    Kept pool (s.queueInLoop (pool.getNextLoop id) (.connectDestroyed id)) id P := by
  have hmem : .connectDestroyed id ∈
      (ioQueue pool (s.queueInLoop (pool.getNextLoop id) (.connectDestroyed id)) id).waiting :=
    (mem_waiting_queueInLoop _ _ _ _).mpr (.inr ⟨rfl, rfl⟩)
  refine ⟨fun _ => .inr (.inr hmem), ?_, fun _ => .inr (.inl (.inr hmem))⟩
  intro b hb
  rw [ioQueue, loops_queueInLoop, if_pos rfl] at hb
  rcases suffix_push (LoopFunctors.waiting_push _ _ ▸ hb) with ⟨c, rfl, -⟩ | ⟨-, hf⟩
  · exact .inr (.inr (by simp))
  · contradiction

/-! ## Steps of the loops -/

/-- A loop's dispatch changes on the way. -/
theorem Kept.setCurrent (h : Kept pool s id P) (l : L) (d : Option Dispatch) :
    Kept pool (s.setLoop l { s.loops l with current := d }) id P := by
  have hq : ∀ l', ((s.setLoop l { s.loops l with current := d }).loops l').queue =
        (s.loops l').queue ∧
      ((s.setLoop l { s.loops l with current := d }).loops l').activeChannels_ =
        (s.loops l').activeChannels_ := by
    intro l'
    rw [loops_setLoop]
    split
    · rename_i hl
      subst hl
      exact ⟨rfl, rfl⟩
    · exact ⟨rfl, rfl⟩
  refine h.of_queues (fun hp => hp) (fun hr => hr) ?_ ?_ fun hw => ?_
  · rw [(hq _).1]
  · rw [ioQueue, ioQueue, (hq _).1]
  · rw [Waiting, (hq _).2] at hw
    rw [ioQueue, ioQueue, (hq _).1]
    exact ⟨.inl hw, fun hc => hc⟩

theorem Kept.loopStep (h : Kept pool s id P) (hw : Wf pool s) {l : L} {e : LoopEvent}
    {st : LoopState} {x : LoopEffect} (ha : s.Admits pool l e)
    (hs : LoopState.Steps (s.loops l) e st x) (hx : ∀ f, x ≠ .run f) :
    Kept pool (s.setLoop l st) id P := by
  have hq : st.queue.waiting = (s.loops l).queue.waiting :=
    (hs.waiting (hw.loops l)).resolve_left fun ⟨f, hf⟩ => hx f hf
  have hall : ∀ l', ((s.setLoop l st).loops l').queue.waiting = (s.loops l').queue.waiting := by
    intro l'
    rw [loops_setLoop]
    split
    · rw [hq, ‹l' = l›]
    · rfl
  refine h.of_queues (fun hp => hp) (fun hr => hr) (hall _) (hall _) ?_
  rintro ⟨revents, read, hm⟩
  rw [ioQueue, ioQueue, loops_setLoop]
  rw [loops_setLoop] at hm
  split at hm
  · rename_i hl
    rw [if_pos hl, hl]
    refine ⟨?_, hs.pending_kept (List.ne_nil_of_mem hm)⟩
    rcases hs.active hm with hm | ⟨ready, rfl, hm⟩
    · exact .inl ⟨revents, read, hl ▸ hm⟩
    · exact .inr (ha _ hm).1.2
  · rw [if_neg ‹_›]
    exact ⟨.inl ⟨revents, read, hm⟩, fun hc => hc⟩

section

variable {l : L} {e : LoopEvent} {st : LoopState} {f : HeldFunctor}

theorem mem_waiting_of_run (hs : LoopState.Steps (s.loops l) e st (.run f)) {l' : L}
    {g : HeldFunctor} (hg : g ∈ (s.loops l').queue.waiting) (hne : g ≠ f) :
    g ∈ ((s.setLoop l st).loops l').queue.waiting := by
  rw [loops_setLoop]
  split
  · rename_i hl
    rw [hl, hs.run_waiting.1] at hg
    exact (List.mem_cons.mp hg).resolve_left hne
  · exact hg

theorem suffix_of_run (hs : LoopState.Steps (s.loops l) e st (.run f)) {l' : L}
    {w : List HeldFunctor} (hg : w <:+ ((s.setLoop l st).loops l').queue.waiting) :
    w <:+ (s.loops l').queue.waiting := by
  rw [loops_setLoop] at hg
  split at hg
  · rename_i hl
    rw [hl, hs.run_waiting.1]
    exact hg.trans (List.suffix_cons f _)
  · exact hg

/-- While a batch is called, no channel waits. -/
theorem not_waiting_of_run (hw : Wf pool s) (hs : LoopState.Steps (s.loops l) e st (.run f))
    (hl : pool.getNextLoop id = l) : ¬ Waiting pool (s.setLoop l st) id := by
  rintro ⟨revents, read, hm⟩
  have hp : st.phase ≠ .dispatching := by simp [hs.run_waiting.2.2]
  rw [loops_setLoop, if_pos hl, ((hw.loops l).step hs).active hp] at hm
  exact List.not_mem_nil hm

/-- A functor is called that is not part of the connection's removal. -/
theorem Kept.run (h : Kept pool s id P) (hw : Wf pool s)
    (hs : LoopState.Steps (s.loops l) e st (.run f)) (hd : f ≠ .connectDestroyed id)
    (hr : f ≠ .removeConnectionInLoop id) : Kept pool (s.setLoop l st) id P := by
  refine h.mono (fun hp => hp) (fun hr => hr) ?_ ?_ ?_ ?_
  · intro b b' hb hv
    exact hv.imp (fun hm => mem_waiting_of_run hs hm hr.symm) hb
  · exact fun hm => mem_waiting_of_run hs hm hd.symm
  · exact fun b hb => suffix_of_run hs hb
  · intro hwait
    by_cases hl : pool.getNextLoop id = l
    · exact absurd hwait (not_waiting_of_run hw hs hl)
    · obtain ⟨revents, read, hm⟩ := hwait
      rw [ioQueue, ioQueue, loops_setLoop, if_neg hl]
      rw [loops_setLoop, if_neg hl] at hm
      exact ⟨.inl ⟨revents, read, hm⟩, fun hc => hc⟩

/-- What waits behind `connectEstablished` keeps the connection from then on. -/
theorem Kept.established (h : Kept pool s id P) (hw : Wf pool s)
    (hs : LoopState.Steps (s.loops l) e st (.run (.connectEstablished id))) :
    Kept pool ((s.setLoop l st).setRegistered id true) id P := by
  refine (h.run hw hs (by simp) (by simp)).register fun _ => .inr ?_
  have hl : pool.getNextLoop id = l := (hw.called hs).1
  have hsuf : .connectEstablished id :: st.queue.waiting <:+ (ioQueue pool s id).waiting := by
    rw [ioQueue, hl, hs.run_waiting.1]
  refine (h.establishing _ hsuf).imp_right (Or.imp (fun hm => ?_) fun hm => ?_)
  · exact mem_waiting_of_run hs hm (by simp)
  · rw [ioQueue, loops_setLoop, if_pos hl]
    exact hm

/-- After `connectDestroyed` the channel is in no poller. -/
theorem Kept.destroyed (h : Kept pool s id P) (hw : Wf pool s)
    (hs : LoopState.Steps (s.loops l) e st (.run (.connectDestroyed id))) :
    Kept pool ((s.setLoop l st).setRegistered id false) id P where
  polled := fun hr => by simp [setRegistered] at hr
  establishing := by
    intro b hb
    refine (h.establishing b (suffix_of_run hs hb)).imp_right (Or.imp_left fun hm => ?_)
    exact mem_waiting_of_run hs hm (by simp)
  waiting := by
    intro hwait
    exact absurd hwait (not_waiting_of_run hw hs (hw.called hs))

end

theorem mem_removes_of_closeCallback {e : LoopEvent} {st : LoopState}
    (hs : LoopState.Steps (s.loops pool.baseloop_) e st (.closeCallback id)) :
    id ∈ removes pool s pool.baseloop_ e := by
  cases hs with
  | closeCallback hd => simp [removes, hd]

theorem mem_removes_of_run {l : L} {e : LoopEvent} {st : LoopState}
    (hs : LoopState.Steps (s.loops l) e st (.run (.removeConnectionInLoop id))) :
    id ∈ removes pool s l e := by
  cases hs with
  | call hq => simp [removes, (LoopFunctors.call_eq_some hq).2.1]

/-- The connection whose entry is erased leaves, and another one that had the name stays. -/
theorem kept_removeConnectionInLoop {id' : ConnId} (hd : s.server ≠ .dead)
    (hname : s.connections_.lookup (connNumber id') = some id → id ≠ id' →
      Kept pool s id (0 < s.users id))
    (hk : id ≠ id' → Kept pool s id (s.Held id)) :
    Kept pool (s.removeConnectionInLoop pool id') id
      ((s.removeConnectionInLoop pool id').Held id) := by
  unfold removeConnectionInLoop
  rw [if_neg hd]
  by_cases he : id = id'
  · subst he
    exact kept_destroying _ id _
  · refine Kept.queueInLoop ?_ (by simp)
    by_cases hn : s.connections_.lookup (connNumber id') = some id
    · exact (hname hn he).of_eq (fun hu => .inr hu) (fun hr => hr) rfl
    · exact (hk he).of_eq (Or.imp_left fun hent => hent.erase hn) (fun hr => hr) rfl

theorem kept_newConnection
    (hname : s.connections_.lookup (connNumber s.accepted) = some id →
      Kept pool s id (0 < s.users id))
    (hk : Kept pool s id (s.Held id)) :
    Kept pool (s.newConnection pool) id ((s.newConnection pool).Held id) := by
  have hconn : (s.newConnection pool).connections_ =
        s.connections_.insert (connNumber s.accepted) s.accepted ∧
      (s.newConnection pool).users = s.users := by
    unfold newConnection
    dsimp only
    split <;> exact ⟨rfl, rfl⟩
  by_cases he : id = s.accepted
  · refine .of_holds (.inl ?_)
    rw [Entry, hconn.1, he, AList.lookup_insert]
  obtain ⟨P, hP, himp⟩ : ∃ P, Kept pool s id P ∧ (P → (s.newConnection pool).Held id) := by
    by_cases hn : s.connections_.lookup (connNumber s.accepted) = some id
    · exact ⟨_, hname hn, fun hu => .inr (hconn.2 ▸ hu)⟩
    · refine ⟨_, hk, Or.imp (fun hent => ?_) fun hu => hconn.2 ▸ hu⟩
      have hne : connNumber id ≠ connNumber s.accepted := fun heq => hn (heq ▸ hent)
      rw [Entry, hconn.1, AList.lookup_insert_ne hne]
      exact hent
  have hset : Kept pool
      ({ s with
        accepted := s.accepted + 1
        connections_ := s.connections_.insert (connNumber s.accepted) s.accepted }.setLoop
        pool.baseloop_
        { s.loops pool.baseloop_ with current := some (.acceptor (some s.accepted)) }) id P :=
    (hP.setCurrent pool.baseloop_ (some (.acceptor (some s.accepted)))).of_eq
      (fun hp => hp) (fun hr => hr) rfl
  have hnew : Kept pool (s.newConnection pool) id P := by
    unfold newConnection
    dsimp only
    split
    · exact hset.register fun h' => absurd h'.symm he
    · refine hset.queueInLoop fun h' => absurd ?_ he
      simpa [eq_comm] using h'
  exact hnew.of_eq himp (fun hr => hr) rfl

/-- The destructor of the server takes an entry away. On the server's own loop the channel
leaves the poller with it. -/
theorem kept_destroyItem {name : ConnName} {id' : ConnId} (hw : Wf pool s)
    (hn : s.connections_.lookup name = some id')
    (hok : id = id' → pool.getNextLoop id = pool.baseloop_ → Waiting pool s id →
      0 < s.users id ∨ Leaving pool s id (ioQueue pool s id).waiting ∨
        .callback id ∈ (ioQueue pool s id).pendingFunctors_)
    (hk : Kept pool s id (s.Held id)) :
    Kept pool (s.destroyItem pool name id') id ((s.destroyItem pool name id').Held id) := by
  have herase : id ≠ id' →
      Kept pool { s with connections_ := s.connections_.erase name } id
        (Held { s with connections_ := s.connections_.erase name } id) := by
    intro hne
    refine hk.of_eq (Or.imp_left fun hent => hent.erase ?_) (fun hr => hr) rfl
    rw [hn]
    simpa using hne.symm
  unfold destroyItem
  dsimp only
  by_cases he : id = id'
  · subst he
    split
    · rename_i hb
      refine ⟨fun hr => by simp [setRegistered] at hr, ?_, fun hwait => ?_⟩
      · intro b hsuf
        have hm : .connectEstablished id ∈ (s.loops pool.baseloop_).queue.waiting :=
          hb ▸ hsuf.mem List.mem_cons_self
        exact absurd rfl (hw.queued _ _ hm).2
      · exact (hok rfl hb hwait).imp_left .inr
    · exact kept_destroying _ id _
  · split
    · exact ((herase he).unregister id').of_eq (fun hp => hp) (fun hr => hr) rfl
    · exact (herase he).queueInLoop (by simp)

/-- The functors of a loop that stops are its own. -/
theorem kept_stop {l : L} (hl : l ∈ pool.loops_) (hne : pool.getNextLoop id ≠ l)
    (hk : Kept pool s id P) : Kept pool (s.setLoop l { stopped := true }) id P := by
  have hb : pool.baseloop_ ≠ l := fun h => pool.base_not_mem (h ▸ hl)
  refine hk.of_queues (fun hp => hp) (fun hr => hr) ?_ ?_ fun hw => ?_
  · rw [loops_setLoop, if_neg hb]
  · rw [ioQueue, ioQueue, loops_setLoop, if_neg hne]
  · rw [Waiting, loops_setLoop, if_neg hne] at hw
    rw [ioQueue, ioQueue, loops_setLoop, if_neg hne]
    exact ⟨.inl hw, fun hc => hc⟩

/-! ## Every channel is there when its turn comes -/

structure Guarded (pool : EventLoopThreadPool L) (s : ServerProcess L) : Prop where
  wf : Wf pool s
  kept : ∀ id, (s.loops (pool.getNextLoop id)).stopped = false → Kept pool s id (s.Held id)
  ended : ∀ l, (s.loops l).stopped = true → l ∈ pool.loops_ ∧ (s.loops l).activeChannels_ = []
  acceptor : s.server = .dead → .acceptor ∉ (s.loops pool.baseloop_).activeChannels_

/-- What a loop calls outside itself. -/
theorem Guarded.keptApply (h : Guarded pool s) {l : L} {e : LoopEvent} {st : LoopState}
    {x : LoopEffect} (ha : s.Admits pool l e) (hs : LoopState.Steps (s.loops l) e st x)
    (hok : LeavesWaiting pool s (.loop l e))
    (hstop : (s.loops (pool.getNextLoop id)).stopped = false) :
    Kept pool ((s.setLoop l st).apply pool l x) id
      (((s.setLoop l st).apply pool l x).Held id) := by
  have hk := h.kept id hstop
  cases x with
  | none => exact hk.loopStep h.wf ha hs (by simp)
  | closeCallback id' =>
    have hset : ∀ {P : Prop}, Kept pool s id P → Kept pool (s.setLoop l st).enter id P :=
      fun hp => (hp.loopStep h.wf ha hs (by simp)).of_eq (fun hp => hp) (fun hr => hr) rfl
    simp only [apply, removeConnection]
    split_ifs with hd hl
    · exact hset hk
    · refine kept_removeConnectionInLoop hd ?_ fun _ => hset hk
      subst hl
      exact fun hn hne => hset (hok id' (mem_removes_of_closeCallback hs) id hn hne)
    · exact (hset hk).queueInLoop (by simp)
  | run f =>
    have hq := h.wf.called hs
    cases f with
    | callback id' => exact hk.run h.wf hs (by simp) (by simp)
    | other => exact hk.run h.wf hs (by simp) (by simp)
    | connectEstablished id' =>
      by_cases he : id' = id
      · subst he
        exact hk.established h.wf hs
      · exact (hk.run h.wf hs (by simp) (by simp)).register fun h' => absurd h' he
    | connectDestroyed id' =>
      by_cases he : id' = id
      · subst he
        exact hk.destroyed h.wf hs
      · exact (hk.run h.wf hs (by simpa using he) (by simp)).unregister id'
    | removeConnectionInLoop id' =>
      have hset : ∀ {P : Prop}, id ≠ id' → Kept pool s id P → Kept pool (s.setLoop l st) id P :=
        fun hne hp => hp.run h.wf hs (by simp) (by simpa using hne.symm)
      simp only [apply, runFunctor]
      by_cases hd : s.server = .dead
      · have hne : id ≠ id' := by
          rintro rfl
          have hmem := (List.mem_cons.mp (pool.next_mem_all id)).resolve_left (hq.1 ▸ hq.2)
          simp [h.wf.stopped hd _ hmem] at hstop
        rw [removeConnectionInLoop, if_pos (by exact hd)]
        exact (hset hne hk).of_eq (fun hp => hp) (fun hr => hr) rfl
      · refine kept_removeConnectionInLoop hd (fun hn hne => ?_) fun hne => hset hne hk
        exact hset hne (hok id' (mem_removes_of_run hs) id hn hne)

omit [DecidableEq L] in
theorem Guarded.of_loops (h : Guarded pool s) {server : ServerLife} (id : ConnId)
    (hid : (s.loops (pool.getNextLoop id)).stopped = false) :
    Kept pool { s with server := server } id (Held { s with server := server } id) :=
  (h.kept id hid).of_eq (fun hp => hp) (fun hr => hr) rfl

omit [DecidableEq L] in
theorem Guarded.aside (h : Guarded pool s) (hwf : Wf pool t) (ha : Aside s t)
    (hk : ∀ id, (s.loops (pool.getNextLoop id)).stopped = false → Kept pool t id (t.Held id)) :
    Guarded pool t where
  wf := hwf
  kept := fun id hid => hk id (ha.stopped _ ▸ hid)
  ended := fun l hl => (ha.active l).symm ▸ h.ended l (ha.stopped l ▸ hl)
  acceptor := fun hd => (ha.active _).symm ▸ h.acceptor (ha.server ▸ hd)

/-- A running loop goes on. -/
theorem Guarded.loopStep (h : Guarded pool s) {l : L} {e : LoopEvent} {st : LoopState}
    {x : LoopEffect} (hwf : Wf pool ((s.setLoop l st).apply pool l x)) (hr : s.runs pool l)
    (ha : s.Admits pool l e) (hs : LoopState.Steps (s.loops l) e st x)
    (hok : LeavesWaiting pool s (.loop l e)) : Guarded pool ((s.setLoop l st).apply pool l x) := by
  have haside := aside_apply (s.setLoop l st) pool l x
  have hstop : ∀ l', (((s.setLoop l st).apply pool l x).loops l').stopped =
      (s.loops l').stopped := by
    intro l'
    rw [haside.stopped, loops_setLoop]
    split
    · rw [‹l' = l›]
      exact hs.stopped
    · rfl
  refine ⟨hwf, fun id hid => ?_, fun l' hl' => ?_, fun hd => ?_⟩
  · exact h.keptApply ha hs hok (hstop _ ▸ hid)
  · obtain ⟨hmem, hact⟩ := h.ended l' (hstop l' ▸ hl')
    have hne : l' ≠ l := by
      rintro rfl
      rcases hr with ⟨hb, -⟩ | ⟨-, hrun⟩
      · exact pool.base_not_mem (hb ▸ hmem)
      · simp [← hstop l', hl'] at hrun
    refine ⟨hmem, ?_⟩
    rw [haside.active, loops_setLoop, if_neg hne]
    exact hact
  · have hd' : s.server = .dead := haside.server ▸ hd
    rw [haside.active, loops_setLoop]
    split
    · rename_i hl
      subst hl
      intro hm
      rcases hs.active hm with hm | ⟨ready, rfl, hm⟩
      · exact h.acceptor hd' hm
      · exact (ha _ hm).2 hd'
    · exact h.acceptor hd'

/-- An io loop ends, and what its connections need no longer matters. -/
theorem Guarded.stop (h : Guarded pool s) {l : L} (hl : l ∈ pool.loops_)
    (hwf : Wf pool (s.setLoop l { stopped := true })) (hj : s.server = .joining) :
    Guarded pool (s.setLoop l { stopped := true }) := by
  refine ⟨hwf, fun id hid => ?_, fun l' hl' => ?_, by simp [setLoop, hj]⟩
  · rw [loops_setLoop] at hid
    split at hid
    · contradiction
    · exact kept_stop hl ‹_› (h.kept id hid)
  · rw [loops_setLoop] at hl' ⊢
    split
    · rename_i heq
      exact ⟨heq ▸ hl, rfl⟩
    · rw [if_neg ‹_›] at hl'
      exact h.ended l' hl'

theorem Guarded.step (h : Guarded pool s) (hok : LeavesWaiting pool s a)
    (hst : s.step pool a = some t) : Guarded pool t := by
  have hwf := h.wf.step hst
  cases step_moves hst with
  | loop hr ha hs => exact h.loopStep hwf hr ha hs hok
  | newConnection =>
    exact h.aside hwf (aside_newConnection s) fun id hid =>
      kept_newConnection (hok id) (h.kept id hid)
  | stop hj hl => exact h.stop hl hwf hj
  | @hold id' =>
    refine h.aside hwf (aside_of_loops rfl rfl) fun id hid => (h.kept id hid).of_eq ?_ ?_ rfl
    · refine Or.imp_right fun hu => ?_
      by_cases he : id = id'
      · simp [he]
      · simpa [he] using hu
    · exact fun hr => hr
  | @drop id' hpos =>
    refine h.aside hwf (aside_of_loops rfl rfl) fun id hid => ?_
    by_cases he : id = id'
    · subst he
      by_cases hone : s.users id = 1
      · exact (hok hone hid).of_eq .inl (fun hr => hr) rfl
      · have hmore : 0 < s.users id - 1 := by omega
        exact .of_holds (.inr (by simpa using hmore))
    · refine (h.kept id hid).of_eq (Or.imp_right fun hu => ?_) (fun hr => hr) rfl
      simpa [he] using hu
  | queueInLoop =>
    exact h.aside hwf (aside_queueInLoop _ _ _) fun id hid => (h.kept id hid).queueInLoop (by simp)
  | queueCallback =>
    exact h.aside hwf (aside_queueInLoop _ _ _) fun id hid => (h.kept id hid).queueInLoop (by simp)
  | @enableWriting id' =>
    refine h.aside hwf (aside_of_loops rfl rfl) fun id hid => (h.kept id hid).register ?_
    rintro rfl
    exact hok hid
  | destroyServer => exact ⟨hwf, h.of_loops, h.ended, by simp⟩
  | @destroyItem name id' hs hn =>
    obtain ⟨conn, haside, -⟩ := aside_destroyItem pool name id' hs
    refine ⟨hwf, fun id hid => ?_, fun l hl => ?_, by simp [haside.server]⟩
    · refine kept_destroyItem h.wf hn ?_ (h.kept id (haside.stopped _ ▸ hid))
      rintro rfl
      exact hok id hn
    · rw [haside.active]
      exact h.ended l (haside.stopped l ▸ hl)
  | itemDestroyed hs => exact ⟨hwf, h.of_loops, h.ended, by simp⟩
  | destroyMembers hs => exact ⟨hwf, h.of_loops, h.ended, by simp⟩
  | destroyed hj => exact ⟨hwf, h.of_loops, h.ended, fun _ => hok⟩

theorem guarded (h : (machine pool).Reach (LeavesWaiting pool) s) : Guarded pool s := by
  refine h.invariant ?_ fun s a t hs hok hst => hs.step hok hst
  rintro s rfl
  refine ⟨wf (.init rfl), fun id _ => ⟨by simp, ?_, ?_⟩, by simp, by simp⟩
  · simp [ioQueue, LoopFunctors.waiting]
  · simp [Waiting]

omit [DecidableEq L] in
theorem Leaving.owned {w : List HeldFunctor} (h : Leaving pool s id w)
    (hw : w ⊆ (ioQueue pool s id).objects) : s.Owned pool id := by
  refine .inr (.inr (.inr ?_))
  rcases h with hm | hm
  · exact ⟨_, List.mem_cons_self, .inl ⟨_, LoopFunctors.mem_objects_of_mem_waiting hm, rfl⟩⟩
  · exact ⟨_, pool.next_mem_all id, .inl ⟨_, hw hm, rfl⟩⟩

omit [DecidableEq L] in
/-- What keeps a waiting connection is a `shared_ptr`. -/
theorem Kept.owned (h : Kept pool s id (s.Held id)) (hw : Waiting pool s id) :
    s.Owned pool id := by
  rcases h.waiting hw with (he | hu) | hl | hc
  · exact .inl he
  · exact .inr (.inl hu)
  · exact hl.owned fun _ hm => LoopFunctors.mem_objects_of_mem_waiting hm
  · have hobj : .callback id ∈ (ioQueue pool s id).objects := List.mem_append_right _ hc
    exact .inr (.inr (.inr ⟨_, pool.next_mem_all id, .inl ⟨_, hobj, rfl⟩⟩))

/-- A channel that waits in `activeChannels_` exists until its turn. -/
theorem waiting_exists (h : (machine pool).Reach (LeavesWaiting pool) s) {l : L} {r : Ready}
    (hr : r ∈ (s.loops l).activeChannels_) : s.Exists pool r := by
  have hg := guarded h
  cases r with
  | acceptor =>
    intro hd
    have hl : l = pool.baseloop_ := hg.wf.ready l _ hr
    exact hg.acceptor hd (hl ▸ hr)
  | conn id revents read =>
    have hl : pool.getNextLoop id = l := hg.wf.ready l _ hr
    have hrun : (s.loops (pool.getNextLoop id)).stopped = false := by
      by_contra hs
      have hend := (hg.ended l (by simpa [hl] using hs)).2
      rw [hend] at hr
      exact List.not_mem_nil hr
    exact (hg.kept id hrun).owned ⟨revents, read, hl ▸ hr⟩
  | other => trivial

/-- A user's pointer keeps the waiting connection when another channel's callback destroys the
server. -/
theorem waiting_exists_held :
    ∃ t, (machine .single).Reach (LeavesWaiting .single) t ∧ t.connections_.keys = [] ∧
      .conn 0 EPOLLIN (.received [1]) ∈ (t.loops 0).activeChannels_ ∧
      t.Exists .single (.conn 0 EPOLLIN (.received [1])) := by
  have h₁ := Machine.Reach.run (M := machine .single) (.init rfl)
    (Machine.along_of_forall (by simp [LeavesWaiting, removes]) :
      (machine .single).Along (LeavesWaiting .single) _
        [.loop 0 (.poll [.acceptor]), .loop 0 .handleEvent]) rfl
  have h₂ := h₁.step .newConnection (by rintro id ⟨⟩) rfl
  have h₃ := h₂.run
    (Machine.along_of_forall (by simp [LeavesWaiting, removes]) :
      (machine .single).Along (LeavesWaiting .single) _
        [.loop 0 .endDispatch, .loop 0 .swap, .loop 0 .release, .hold 0,
          .loop 0 (.poll [.other, .conn 0 EPOLLIN (.received [1])]), .loop 0 .handleEvent,
          .destroyServer]) rfl
  have h₄ := h₃.step (.destroyItem 1) (by
    rintro id ⟨⟩ _ _
    exact .inl Nat.one_pos) rfl
  have h₅ := h₄.step .itemDestroyed (by trivial) rfl
  refine ⟨_, h₅, rfl, ?_, waiting_exists (l := 0) h₅ ?_⟩
  · exact List.mem_singleton_self _
  · exact List.mem_singleton_self _

/-- The callback of one connection destroys the server, and with it the connection that
waits behind. -/
theorem waiting_destroyed :
    ∃ t, (machine .single).run {}
        [.loop 0 (.poll [.acceptor]), .loop 0 .handleEvent, .newConnection, .loop 0 .endDispatch,
          .loop 0 .swap, .loop 0 .release, .loop 0 (.poll [.acceptor]), .loop 0 .handleEvent,
          .newConnection, .loop 0 .endDispatch, .loop 0 .swap, .loop 0 .release,
          .loop 0 (.poll [.conn 0 EPOLLIN (.received [1]), .conn 1 EPOLLIN (.received [1])]),
          .loop 0 .handleEvent, .loop 0 .callback, .destroyServer, .destroyItem 1,
          .itemDestroyed, .destroyItem 2, .itemDestroyed] = some t ∧
      .conn 1 EPOLLIN (.received [1]) ∈ (t.loops 0).activeChannels_ ∧
      ¬ t.Exists .single (.conn 1 EPOLLIN (.received [1])) :=
  ⟨_, rfl, List.mem_singleton_self _, by decide⟩

end ServerProcess

end Muduo
