import Muduo.Server.Process

/-!
# Calls of a server that is gone

`closeCallback_` and `removeConnectionInLoop` are bound to the bare server. `~TcpServer`
waits for the io loops, but not for what its own loop has in hand: functors that io loops
have queued there, the `handleClose` in the middle of which it may run, and the channels of
the current poll that are still to be dispatched.

Later polls are harmless. By then `connectDestroyed` has run for every connection of that
loop, in place or as a functor.
-/

namespace Muduo

namespace LoopState

variable {st st' : LoopState} {e : LoopEvent} {x : LoopEffect}

/-- Nothing that the last poll reported will run `handleClose` any more. -/
structure Quiet (st : LoopState) : Prop where
  current : ∀ d ∈ st.current, d.willClose = false
  ready : ∀ r ∈ st.activeChannels_, r.dispatch.willClose = false

/-- Nothing left on the loop calls the server. -/
structure Silent (st : LoopState) : Prop where
  functors : ∀ id, .removeConnectionInLoop id ∉ st.queue.waiting
  quiet : Quiet st

theorem Silent.push (h : Silent st) {f : HeldFunctor} (hf : ∀ id, f ≠ .removeConnectionInLoop id) :
    Silent (st.push f) where
  functors := by
    intro id hid
    rw [LoopState.push, LoopFunctors.waiting_push, List.mem_append, List.mem_singleton] at hid
    exact hid.elim (h.functors id) fun he => hf id he.symm
  quiet := ⟨h.quiet.current, h.quiet.ready⟩

theorem Quiet.step (h : Quiet st) (hst : Steps st e st' x)
    (hr : ∀ ready, e = .poll ready → ∀ r ∈ ready, r.dispatch.willClose = false) : Quiet st' := by
  obtain ⟨hc, ha⟩ := h
  cases hst with
  | poll ready => exact ⟨hc, hr ready rfl⟩
  | @handleEvent r rs _ hrs =>
    rw [hrs] at ha
    refine ⟨?_, fun r' hr' => ha r' (List.mem_cons_of_mem r hr')⟩
    intro d hd
    exact Option.mem_some.mp hd ▸ ha r List.mem_cons_self
  | @callback id read k ks hd =>
    have hk := hc _ hd
    simp only [Dispatch.willClose, Bool.false_or, List.any_cons, Bool.or_eq_false_iff] at hk
    refine ⟨?_, ha⟩
    intro d hd
    rw [← Option.mem_some.mp hd]
    simp [Dispatch.willClose, hk.1, hk.2]
  | closeCallback hd => exact absurd (hc _ hd) (by simp [Dispatch.willClose])
  | endDispatch => exact ⟨by simp, ha⟩
  | _ => exact ⟨hc, ha⟩

theorem Quiet.not_closeCallback (h : Quiet st) (hw : Wf st) {id : ConnId} :
    ¬ Steps st e st' (.closeCallback id) := by
  intro hst
  obtain ⟨⟨read, rest, hd⟩, -⟩ := hst.closeCallback_dispatching hw
  simpa [Dispatch.willClose] using h.current _ hd

end LoopState

namespace ServerProcess

variable {L : Type*} [DecidableEq L] {pool : EventLoopThreadPool L} {s t : ServerProcess L}
  {a : ProcessLabel L}

/-! ## What is left on the server's own loop -/

/-- Every connection of the server's own loop that is still in the poller has its entry, or
waits for its `connectDestroyed`. -/
def Tracked (pool : EventLoopThreadPool L) (s : ServerProcess L) : Prop :=
  ∀ id, pool.getNextLoop id = pool.baseloop_ → s.registered id = true →
    s.Entry id ∨ .connectDestroyed id ∈ (s.loops pool.baseloop_).queue.waiting

/-- No entry has got lost when `~TcpServer` begins, and nothing is left on the server's own
loop when it ends. From the one to the other and on, no channel of that loop gets back into
the poller. -/
def EndsClean (pool : EventLoopThreadPool L) (s : ServerProcess L) : ProcessLabel L → Prop
  | .destroyServer => Tracked pool s
  | .enableWriting id =>
    s.server = .alive ∨ s.registered id = true ∨ pool.getNextLoop id ≠ pool.baseloop_
  | .destroyed => (s.loops pool.baseloop_).Silent
  | _ => True

omit [DecidableEq L] in
theorem Tracked.mono (h : Tracked pool s)
    (hr : ∀ id, pool.getNextLoop id = pool.baseloop_ → t.registered id = true →
      s.registered id = true ∧ (s.Entry id → t.Entry id) ∧
        (.connectDestroyed id ∈ (s.loops pool.baseloop_).queue.waiting →
          .connectDestroyed id ∈ (t.loops pool.baseloop_).queue.waiting)) : Tracked pool t := by
  intro id hb hid
  obtain ⟨hs, he, hw⟩ := hr id hb hid
  exact (h id hb hs).imp he hw

theorem Tracked.queueInLoop (h : Tracked pool s) (l : L) (f : HeldFunctor) :
    Tracked pool (s.queueInLoop l f) :=
  h.mono fun _ _ hid => ⟨hid, id, fun hw => (mem_waiting_queueInLoop l _ f _).mpr (.inl hw)⟩

theorem silent_queueInLoop (h : (s.loops pool.baseloop_).Silent) {l : L} {f : HeldFunctor}
    (hf : ∀ id, f ≠ .removeConnectionInLoop id) :
    ((s.queueInLoop l f).loops pool.baseloop_).Silent := by
  rw [loops_queueInLoop]
  split
  · exact h.push hf
  · exact h

/-- Another loop's own part of a step. -/
theorem Tracked.setLoop (h : Tracked pool s) {l : L} (hl : l ≠ pool.baseloop_) (st : LoopState) :
    Tracked pool (s.setLoop l st) :=
  h.mono fun _ _ hid => ⟨hid, id, fun hw => by simpa [ServerProcess.setLoop, hl.symm] using hw⟩

omit [DecidableEq L] in
/-- A functor of the server's own loop is called. -/
theorem Tracked.called (h : Tracked pool s) {f : HeldFunctor} {q : LoopFunctors HeldFunctor}
    (hw : (s.loops pool.baseloop_).queue.waiting = f :: q.waiting)
    (hq : (t.loops pool.baseloop_).queue = q) (hc : t.connections_ = s.connections_)
    (hr : ∀ id, t.registered id = true → s.registered id = true ∧ f ≠ .connectDestroyed id) :
    Tracked pool t := by
  refine h.mono fun id _ hid => ⟨(hr id hid).1, ?_, fun hm => ?_⟩
  · intro he
    rw [Entry, hc]
    exact he
  · rw [hw] at hm
    rw [hq]
    exact (List.mem_cons.mp hm).resolve_left fun he => (hr id hid).2 he.symm

/-- An entry goes with the registration of its connection, or is another loop's. -/
theorem Tracked.destroyItem (h : Tracked pool s) {name : ConnName} {id : ConnId}
    (hn : s.connections_.lookup name = some id) : Tracked pool (s.destroyItem pool name id) := by
  have hother : ∀ id', id' ≠ id → s.Entry id' →
      (s.connections_.erase name).lookup (connNumber id') = some id' := by
    intro id' hne he
    refine he.erase ?_
    rw [hn]
    simpa using hne.symm
  unfold ServerProcess.destroyItem
  dsimp only
  split
  · refine h.mono fun id' _ hid => ?_
    have hne : id' ≠ id := by
      rintro rfl
      simp [setRegistered] at hid
    exact ⟨by simpa [setRegistered, hne] using hid, hother id' hne, fun hw => hw⟩
  · refine Tracked.queueInLoop (s := { s with connections_ := s.connections_.erase name }) ?_ _ _
    refine h.mono fun id' hb hid => ⟨hid, hother id' ?_, fun hw => hw⟩
    rintro rfl
    contradiction

omit [DecidableEq L] in
theorem Tracked.unregister (h : Tracked pool s) (id : ConnId) :
    Tracked pool (s.setRegistered id false) := by
  refine h.mono fun id' _ hid => ⟨?_, fun he => he, fun hw => hw⟩
  by_cases he : id' = id
  · simp [setRegistered, he] at hid
  · simpa [setRegistered, he] using hid

omit [DecidableEq L] in
theorem Tracked.register (h : Tracked pool s) {id : ConnId}
    (hid : s.registered id = true ∨ pool.getNextLoop id ≠ pool.baseloop_) :
    Tracked pool (s.setRegistered id true) := by
  refine h.mono fun id' hb hr => ⟨?_, fun he => he, fun hw => hw⟩
  by_cases he : id' = id
  · subst he
    exact hid.resolve_right (not_not.mpr hb)
  · simpa [setRegistered, he] using hr

/-! ## The server at its calls -/

theorem calls_removeConnectionInLoop {id : ConnId} {c : ServerLife}
    (h : c ∈ (s.removeConnectionInLoop pool id).calls) : c ∈ s.calls ∨ c = s.server := by
  unfold removeConnectionInLoop at h
  split at h <;> simpa [enter, queueInLoop, setLoop] using h

theorem calls_removeConnection {id : ConnId} {l : L} {c : ServerLife}
    (h : c ∈ (s.removeConnection pool id l).calls) : c ∈ s.calls ∨ c = s.server := by
  unfold removeConnection at h
  split_ifs at h
  · simpa [enter] using h
  · rcases calls_removeConnectionInLoop h with h | h
    · simpa [enter] using h
    · exact .inr h
  · simpa [enter, queueInLoop, setLoop] using h

theorem calls_apply {l : L} {x : LoopEffect} {c : ServerLife}
    (h : c ∈ (s.apply pool l x).calls) : c ∈ s.calls ∨ c = s.server := by
  cases x with
  | none => exact .inl h
  | closeCallback id => exact calls_removeConnection h
  | run f =>
    cases f with
    | removeConnectionInLoop id => exact calls_removeConnectionInLoop h
    | _ => exact .inl h

/-! ## From the destructor on -/

structure Clean (pool : EventLoopThreadPool L) (s : ServerProcess L) : Prop where
  wf : Wf pool s
  tracked : s.server ≠ .alive → Tracked pool s
  silent : s.server = .dead → (s.loops pool.baseloop_).Silent
  calls : .dead ∉ s.calls

/-- While the thread of the server's own loop is in the destructor, only io loops move. -/
theorem Tracked.ioLoop (h : Tracked pool s) (hw : Wf pool s) {l : L} (hl : l ≠ pool.baseloop_)
    {e : LoopEvent} {st : LoopState} {x : LoopEffect} (hs : LoopState.Steps (s.loops l) e st x) :
    Tracked pool ((s.setLoop l st).apply pool l x) := by
  have hset := h.setLoop hl st
  cases x with
  | none => exact hset
  | closeCallback id =>
    simp only [apply, removeConnection, hl, if_false]
    split
    · exact hset
    · exact Tracked.queueInLoop (s := (s.setLoop l st).enter) hset _ _
  | run f =>
    have hq := hw.called hs
    cases f with
    | connectEstablished id =>
      have hid : pool.getNextLoop id ≠ pool.baseloop_ := hq.1 ▸ hl
      exact hset.register (.inr hid)
    | removeConnectionInLoop id => exact absurd hq.1 hl
    | connectDestroyed id => exact hset.unregister id
    | callback id => exact hset
    | other => exact hset

omit [DecidableEq L] in
/-- Once the server is gone, its own loop polls none of its channels. -/
theorem Clean.not_polled (h : Clean pool s) (hd : s.server = .dead)
    (hp : (s.loops pool.baseloop_).phase = .polling) {r : Ready}
    (hr : s.Polled pool pool.baseloop_ r ∧ s.Exists pool r) : r = .other := by
  cases r with
  | acceptor => exact absurd hd hr.2
  | other => rfl
  | conn id revents read =>
    exfalso
    rcases h.tracked (by simp [hd]) id hr.1.1 hr.1.2 with he | hw
    · have hmem : connNumber id ∈ s.connections_ := AList.lookup_isSome.mp (by rw [he]; rfl)
      rw [AList.mem_keys, h.wf.cleared (.inr hd)] at hmem
      exact List.not_mem_nil hmem
    · have hf := (h.wf.loops pool.baseloop_).batch (by simp [hp])
      rw [LoopFunctors.waiting, hf] at hw
      exact h.wf.early (by simp [hp]) id hw

/-- The server's own loop goes on alone. -/
theorem Clean.baseLoop (h : Clean pool s) (hd : s.server = .dead) {e : LoopEvent} {st : LoopState}
    {x : LoopEffect} (ha : s.Admits pool pool.baseloop_ e)
    (hs : LoopState.Steps (s.loops pool.baseloop_) e st x) :
    Clean pool ((s.setLoop pool.baseloop_ st).apply pool pool.baseloop_ x) := by
  have hw := h.wf.loops pool.baseloop_
  have hsil := h.silent hd
  have hquiet : st.Quiet := by
    refine hsil.quiet.step hs ?_
    rintro ready rfl r hr
    cases hs with
    | poll _ hp => rw [h.not_polled hd hp (ha r hr), Ready.dispatch, Dispatch.willClose]
  have hset := h.wf.loopStep ha hs
  cases x with
  | none =>
    have hwait : st.queue.waiting = (s.loops pool.baseloop_).queue.waiting :=
      (hs.waiting hw).resolve_left (by simp)
    refine ⟨hset, fun hna => ?_, fun _ => ?_, h.calls⟩
    · refine (h.tracked hna).mono fun id _ hid => ⟨hid, fun he => he, fun hw => ?_⟩
      simpa [apply, setLoop, hwait] using hw
    · simpa [apply, setLoop] using ⟨hwait ▸ hsil.functors, hquiet⟩
  | closeCallback id => exact absurd hs (hsil.quiet.not_closeCallback hw)
  | run f =>
    have hwait := hs.run_waiting.1
    have hsil' : st.Silent := by
      refine ⟨fun id hid => hsil.functors id ?_, hquiet⟩
      exact hwait ▸ List.mem_cons_of_mem f hid
    have hloop : ((s.setLoop pool.baseloop_ st).loops pool.baseloop_) = st := by simp [setLoop]
    have hq := h.wf.called hs
    have htr := h.tracked (by simp [hd])
    cases f with
    | connectEstablished id => exact absurd rfl hq.2
    | removeConnectionInLoop id => exact absurd (hwait ▸ List.mem_cons_self) (hsil.functors id)
    | connectDestroyed id =>
      refine ⟨hset.setRegistered id false, fun _ => ?_, fun _ => hloop.symm ▸ hsil', h.calls⟩
      refine htr.called hwait (congrArg LoopState.queue hloop) rfl fun id' hid => ?_
      have hne : id' ≠ id := by
        rintro rfl
        simp [apply, runFunctor, setRegistered] at hid
      refine ⟨by simpa [apply, runFunctor, setRegistered, setLoop, hne] using hid, ?_⟩
      simpa using hne.symm
    | callback id =>
      refine ⟨hset, fun _ => ?_, fun _ => hloop.symm ▸ hsil', h.calls⟩
      exact htr.called hwait (congrArg LoopState.queue hloop) rfl fun _ hid => ⟨hid, by simp⟩
    | other =>
      refine ⟨hset, fun _ => ?_, fun _ => hloop.symm ▸ hsil', h.calls⟩
      exact htr.called hwait (congrArg LoopState.queue hloop) rfl fun _ hid => ⟨hid, by simp⟩

/-- A loop goes on: the server's own one before and after the destructor, an io loop until
its thread is joined. -/
theorem Clean.loopStep (h : Clean pool s) {l : L} {e : LoopEvent} {st : LoopState}
    {x : LoopEffect} (hwf : Wf pool ((s.setLoop l st).apply pool l x)) (hr : s.runs pool l)
    (ha : s.Admits pool l e) (hs : LoopState.Steps (s.loops l) e st x) :
    Clean pool ((s.setLoop l st).apply pool l x) := by
  by_cases hd : s.server = .dead
  · have hl : l = pool.baseloop_ := by
      rcases hr with ⟨hl, -⟩ | ⟨hl, hstop⟩
      · exact hl
      · simp [h.wf.stopped hd l hl] at hstop
    subst hl
    exact h.baseLoop hd ha hs
  · have hserver : ((s.setLoop l st).apply pool l x).server = s.server :=
      (aside_apply _ pool l x).server
    refine ⟨hwf, ?_, fun hd' => absurd (hserver ▸ hd') hd, ?_⟩
    · intro hna
      rw [hserver] at hna
      have hl : l ≠ pool.baseloop_ := by
        rcases hr with ⟨-, hs⟩ | ⟨hl, -⟩
        · exact absurd hs (not_or.mpr ⟨hna, hd⟩)
        · exact fun hb => pool.base_not_mem (hb ▸ hl)
      exact (h.tracked hna).ioLoop h.wf hl hs
    · intro hc
      rcases calls_apply hc with hc | hc
      · exact h.calls hc
      · exact hd hc.symm

theorem Clean.step (h : Clean pool s) (hok : EndsClean pool s a) (hst : s.step pool a = some t) :
    Clean pool t := by
  have hwf := h.wf.step hst
  cases step_moves hst with
  | loop hr ha hs => exact h.loopStep hwf hr ha hs
  | newConnection halive =>
    have hs : (s.newConnection pool).server = .alive ∧ (s.newConnection pool).calls = s.calls := by
      unfold newConnection
      dsimp only
      split <;> exact ⟨halive, rfl⟩
    exact ⟨hwf, fun hna => absurd hs.1 hna, by simp [hs.1], hs.2 ▸ h.calls⟩
  | stop hj hl =>
    have hne : _ ≠ pool.baseloop_ := fun hb => pool.base_not_mem (hb ▸ hl)
    exact ⟨hwf, fun hna => (h.tracked hna).setLoop hne _, by simp [hj, setLoop], h.calls⟩
  | hold => exact ⟨hwf, h.tracked, h.silent, h.calls⟩
  | drop => exact ⟨hwf, h.tracked, h.silent, h.calls⟩
  | queueInLoop =>
    refine ⟨hwf, fun hna => (h.tracked hna).queueInLoop _ _, fun hd => ?_, h.calls⟩
    exact silent_queueInLoop (h.silent hd) (by simp)
  | queueCallback =>
    refine ⟨hwf, fun hna => (h.tracked hna).queueInLoop _ _, fun hd => ?_, h.calls⟩
    exact silent_queueInLoop (h.silent hd) (by simp)
  | enableWriting =>
    refine ⟨hwf, fun hna => (h.tracked hna).register (hok.resolve_left hna), h.silent, h.calls⟩
  | destroyServer => exact ⟨hwf, fun _ => hok, by simp, h.calls⟩
  | @destroyItem name id hs hn =>
    obtain ⟨conn, haside, hcalls⟩ := aside_destroyItem pool name id hs
    have htr := h.tracked (by simp [hs])
    exact ⟨hwf, fun _ => htr.destroyItem hn, by simp [haside.server], hcalls ▸ h.calls⟩
  | itemDestroyed hs => exact ⟨hwf, fun _ => h.tracked (by simp [hs]), by simp, h.calls⟩
  | destroyMembers hs => exact ⟨hwf, fun _ => h.tracked (by simp [hs]), by simp, h.calls⟩
  | destroyed hj => exact ⟨hwf, fun _ => h.tracked (by simp [hj]), fun _ => hok, h.calls⟩

/-- Neither `removeConnection` nor `removeConnectionInLoop` runs after the server's end, where
that end is clean. -/
theorem no_late_call (h : (machine pool).Reach (EndsClean pool) s) : .dead ∉ s.calls := by
  refine (h.invariant (I := Clean pool) ?_ fun s a t hs hok hst => hs.step hok hst).calls
  rintro s rfl
  exact ⟨wf (.init rfl), by simp, by simp, by simp⟩

/-- The server is destroyed between two polls of its loop, with a connection on an io loop. -/
theorem no_late_call_io :
    ∃ t, (machine .pair).Reach (EndsClean .pair) t ∧ t.server = .dead ∧ .dead ∉ t.calls := by
  have hne : (1 : Fin 2) ≠ 0 := by decide
  have h₁ := Machine.Reach.run (M := machine .pair) (.init rfl)
    (Machine.along_of_forall (by simp [EndsClean]) : (machine .pair).Along (EndsClean .pair) _
      [.loop 0 (.poll [.acceptor]), .loop 0 .handleEvent, .newConnection, .loop 0 .endDispatch,
        .loop 0 .swap, .loop 0 .release, .loop 1 (.poll []), .loop 1 .swap, .loop 1 .call,
        .loop 1 .finish, .loop 1 .release]) rfl
  have h₂ := h₁.step .destroyServer (by
    intro id hb
    exact absurd hb hne) rfl
  have h₃ := h₂.run
    (Machine.along_of_forall (by simp [EndsClean]) : (machine .pair).Along (EndsClean .pair) _
      [.destroyItem 1, .destroyMembers, .loop 1 (.poll []), .loop 1 .swap, .loop 1 .call,
        .loop 1 .finish, .loop 1 .release, .stop 1]) rfl
  have h₄ := h₃.step .destroyed (by
    exact ⟨fun _ => List.not_mem_nil, ⟨by rintro d ⟨⟩, by rintro r ⟨⟩⟩⟩) rfl
  exact ⟨_, h₄, rfl, no_late_call h₄⟩

/-- The server is destroyed inside the `connectionCallback_` of `handleClose`, which then
calls `closeCallback_`. -/
theorem removeConnection_late :
    ∃ t, (machine .single).run {}
        [.loop 0 (.poll [.acceptor]), .loop 0 .handleEvent, .newConnection, .loop 0 .endDispatch,
          .loop 0 .swap, .loop 0 .release, .loop 0 (.poll [.conn 0 EPOLLHUP (.error EAGAIN)]),
          .loop 0 .handleEvent, .loop 0 .callback, .destroyServer, .destroyItem 1,
          .itemDestroyed, .destroyMembers, .destroyed, .loop 0 .closeCallback] = some t ∧
      .dead ∈ t.calls :=
  ⟨_, rfl, List.mem_singleton_self _⟩

-- an io loop has queued `removeConnectionInLoop` when the server is destroyed
example :
    ((machine .pair).run {}
        [.loop 0 (.poll [.acceptor]), .loop 0 .handleEvent, .newConnection, .loop 0 .endDispatch,
          .loop 0 .swap, .loop 0 .release, .loop 1 (.poll []), .loop 1 .swap, .loop 1 .call,
          .loop 1 .finish, .loop 1 .release, .loop 1 (.poll [.conn 0 EPOLLHUP (.error EAGAIN)]),
          .loop 1 .handleEvent, .loop 1 .callback, .loop 1 .closeCallback, .loop 1 .endDispatch,
          .destroyServer, .destroyItem 1, .destroyMembers, .loop 1 .swap, .loop 1 .call,
          .loop 1 .finish, .loop 1 .release, .stop 1, .destroyed, .loop 0 (.poll []),
          .loop 0 .swap, .loop 0 .call]).map calls = some [.alive, .dead] := rfl

end ServerProcess

end Muduo
