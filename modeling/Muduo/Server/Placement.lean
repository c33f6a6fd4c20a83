import Muduo.Server.Basic

/-!
# Everything runs where it belongs

A connection is called on its io loop and taken out of the map on the base loop. Nothing in
the code checks it. It is so because events are dispatched by the loop whose poller has the
channel, and because each functor is pushed to the queue of the loop that it belongs to. So
it is in every run, also where a connection closes more than once.
-/

namespace Muduo

namespace TcpServer

variable {L : Type*}

/-! ## Loops -/

/-- The io loop of a connection. -/
def ioLoop? (s : TcpServer L) (id : ConnId) : Option L := s.accepted[id]?.map Accepted.loop_

/-- The loop that the functor belongs to. -/
def home (s : TcpServer L) : ServerFunctor → Option L
  | .connectEstablished id | .connectDestroyed id => s.ioLoop? id
  | .removeConnectionInLoop _ => some s.loop_

/-- What is to be called waits in the loop that it belongs to. -/
structure Placed (s : TcpServer L) : Prop where
  todo : ∀ l, ∀ k ∈ s.todo l, s.ioLoop? k.conn = some l
  queues : ∀ l, ∀ f ∈ (s.queues l).all, s.home f = some l
  calls : ∀ a ∈ s.accepted, a.OnLoop
  removals : ∀ r ∈ s.removals, r.2 = s.loop_

variable {s t : TcpServer L} {id : ConnId} {a : Accepted L} {l : L} {f : ServerFunctor}

theorem ioLoop?_of_accepted (ha : s.accepted[id]? = some a) : s.ioLoop? id = some a.loop_ := by
  simp [ioLoop?, ha]

/-- Connections stay on their loops while others come. -/
theorem Placed.mono (h : Placed s) (hio : ∀ id l, s.ioLoop? id = some l → t.ioLoop? id = some l)
    (hbase : t.loop_ = s.loop_) (htodo : t.todo = s.todo) (hqueues : t.queues = s.queues)
    (hremovals : t.removals = s.removals) (hcalls : ∀ a ∈ t.accepted, a.OnLoop) : Placed t where
  todo := fun l k hk => hio _ _ (h.todo l k (htodo ▸ hk))
  queues := by
    intro l f hf
    have hhome := h.queues l f (hqueues ▸ hf)
    cases f with
    | connectEstablished | connectDestroyed => exact hio _ _ hhome
    | removeConnectionInLoop => exact (congrArg some hbase).trans hhome
  calls := hcalls
  removals := fun r hr => (h.removals r (hremovals ▸ hr)).trans hbase.symm

theorem Placed.modify (h : Placed s) {f : Accepted L → Accepted L}
    (hloop : ∀ a, (f a).loop_ = a.loop_)
    (hcalls : ∀ a, s.accepted[id]? = some a → a.OnLoop → (f a).OnLoop) :
    Placed (s.modify id f) := by
  refine h.mono ?_ rfl rfl rfl rfl ?_
  · intro j l hj
    obtain ⟨a, ha, rfl⟩ := Option.map_eq_some_iff.mp hj
    by_cases hid : id = j <;> simp [ioLoop?, TcpServer.modify, ha, hid, hloop]
  · intro b hb
    obtain ⟨j, hj⟩ := List.mem_iff_getElem?.mp hb
    simp only [TcpServer.modify, List.getElem?_modify] at hj
    obtain ⟨a, ha, rfl⟩ := Option.map_eq_some_iff.mp hj
    have hon : a.OnLoop := h.calls a (List.mem_of_getElem? ha)
    split
    · subst j
      exact hcalls a ha hon
    · exact hon

theorem Placed.call (h : Placed s) (hl : s.ioLoop? id = some l) (what : LoopCall)
    (f : TcpConnection → TcpConnection) : Placed (s.call l id what f) := by
  refine h.modify (fun _ => rfl) ?_
  intro a ha hon
  obtain rfl := Option.some.inj ((ioLoop?_of_accepted ha).symm.trans hl)
  exact hon.ran what (f a.conn)

/-! ## The map -/

/-- Entries of the map are under the names of their connections, and a connection of which
`connectDestroyed` is queued or has run has been taken out. -/
structure Listed (s : TcpServer L) : Prop where
  named : ∀ name id, s.connections_.lookup name = some id →
    ∃ a, s.accepted[id]? = some a ∧ a.name_ = name
  removed : ∀ r ∈ s.removals, r.1 < s.accepted.length ∧
    ∀ name, s.connections_.lookup name ≠ some r.1
  queued : ∀ l id, .connectDestroyed id ∈ (s.queues l).all → id ∈ s.removals.map Prod.fst
  logged : ∀ id a, s.accepted[id]? = some a → .connectDestroyed ∈ a.log →
    id ∈ s.removals.map Prod.fst

theorem Listed.modify (h : Listed s) {f : Accepted L → Accepted L}
    (hname : ∀ a, (f a).name_ = a.name_)
    (hlog : ∀ a, s.accepted[id]? = some a → .connectDestroyed ∈ (f a).log →
      .connectDestroyed ∈ a.log ∨ id ∈ s.removals.map Prod.fst) :
    Listed (s.modify id f) where
  named := by
    intro name j hj
    obtain ⟨a, ha, hn⟩ := h.named name j hj
    by_cases hid : id = j
    · exact ⟨f a, by simp [TcpServer.modify, ha, hid], (hname a).trans hn⟩
    · exact ⟨a, by simp [TcpServer.modify, ha, hid], hn⟩
  removed := by simpa [TcpServer.modify] using h.removed
  queued := h.queued
  logged := by
    intro j b hb hd
    simp only [TcpServer.modify, List.getElem?_modify] at hb
    obtain ⟨a, ha, rfl⟩ := Option.map_eq_some_iff.mp hb
    by_cases hid : id = j
    · subst hid
      rw [if_pos rfl] at hd
      exact (hlog a ha hd).elim (h.logged id a ha) fun hm => hm
    · rw [if_neg hid] at hd
      exact h.logged j a ha hd

theorem Listed.call (h : Listed s) (what : LoopCall)
    (hw : what = .connectDestroyed → id ∈ s.removals.map Prod.fst) (l : L)
    (f : TcpConnection → TcpConnection) : Listed (s.call l id what f) := by
  refine h.modify (fun _ => rfl) ?_
  intro a _ hd
  rcases List.mem_append.mp hd with hd | hd
  · exact .inl hd
  · exact .inr (hw (List.mem_singleton.mp hd).symm)

/-- The server with the connection's entry taken out, on the base loop. -/
def unlisted (s : TcpServer L) (id : ConnId) (name : ConnName) : TcpServer L :=
  { s with
    connections_ := s.connections_.erase name
    removals := s.removals ++ [(id, s.loop_)] }

theorem lookup_unlisted {name name' : ConnName} {j : ConnId}
    (hj : (s.unlisted id name).connections_.lookup name' = some j) :
    name' ≠ name ∧ s.connections_.lookup name' = some j := by
  have hne : name' ≠ name := by
    rintro rfl
    simp [unlisted] at hj
  exact ⟨hne, by simpa [unlisted, hne] using hj⟩

theorem Placed.unlisted (h : Placed s) (id : ConnId) (name : ConnName) : Placed (s.unlisted id name) where
  todo := h.todo
  queues := h.queues
  calls := h.calls
  removals := by
    intro r hr
    rcases List.mem_append.mp hr with hr | hr
    · exact h.removals r hr
    · rw [List.mem_singleton.mp hr]
      rfl

theorem Listed.unlisted (h : Listed s) (ha : s.accepted[id]? = some a) :
    Listed (s.unlisted id a.name_) where
  named := fun name j hj => h.named name j (lookup_unlisted hj).2
  removed := by
    intro r hr
    rcases List.mem_append.mp hr with hr | hr
    · obtain ⟨hlt, hgone⟩ := h.removed r hr
      exact ⟨hlt, fun name hn => hgone name (lookup_unlisted hn).2⟩
    · obtain rfl := List.mem_singleton.mp hr
      refine ⟨(List.getElem?_eq_some_iff.mp ha).1, fun name hn => ?_⟩
      -- an entry is under the name of its connection, and that one is gone
      obtain ⟨hne, hn⟩ := lookup_unlisted hn
      obtain ⟨b, hb, hname⟩ := h.named name id hn
      obtain rfl := Option.some.inj (ha.symm.trans hb)
      exact hne hname.symm
  queued := by
    intro l j hj
    simp [TcpServer.unlisted, h.queued l j hj]
  logged := by
    intro j b hb hd
    simp [TcpServer.unlisted, h.logged j b hb hd]

/-- The server with one more connection, not yet established. -/
def entered (s : TcpServer L) (a : Accepted L) : TcpServer L :=
  { s with
    nextConnId_ := s.nextConnId_ + 1
    connections_ := s.connections_.insert s.nextConnId_ s.accepted.length
    accepted := s.accepted ++ [a] }

theorem accepted_entered {j : ConnId} {b : Accepted L} (hb : s.accepted[j]? = some b) :
    (s.entered a).accepted[j]? = some b := by
  rw [entered, List.getElem?_append_left (List.getElem?_eq_some_iff.mp hb).1, hb]

theorem accepted_entered_length : (s.entered a).accepted[s.accepted.length]? = some a := by
  simp [entered]

theorem Placed.entered (h : Placed s) (hon : a.OnLoop) : Placed (s.entered a) := by
  refine h.mono ?_ rfl rfl rfl rfl ?_
  · intro j l hj
    obtain ⟨b, hb, rfl⟩ := Option.map_eq_some_iff.mp hj
    exact ioLoop?_of_accepted (accepted_entered hb)
  · intro b hb
    rcases List.mem_append.mp hb with hb | hb
    · exact h.calls b hb
    · exact List.mem_singleton.mp hb ▸ hon

/-- The new name takes the entry of no connection that has been removed. -/
theorem Listed.entered (h : Listed s) (hname : a.name_ = s.nextConnId_) (hlog : a.log = []) :
    Listed (s.entered a) where
  named := by
    intro name j hj
    by_cases hn : name = s.nextConnId_
    · subst hn
      obtain rfl : s.accepted.length = j := by simpa [TcpServer.entered] using hj
      exact ⟨a, accepted_entered_length, hname⟩
    · obtain ⟨b, hb, hb'⟩ := h.named name j (by simpa [TcpServer.entered, hn] using hj)
      exact ⟨b, accepted_entered hb, hb'⟩
  removed := by
    intro r hr
    obtain ⟨hlt, hgone⟩ := h.removed r hr
    refine ⟨by simpa [TcpServer.entered] using Nat.lt_succ_of_lt hlt, fun name hn => ?_⟩
    by_cases hname : name = s.nextConnId_
    · subst hname
      have heq : s.accepted.length = r.1 := by simpa [TcpServer.entered] using hn
      exact absurd heq hlt.ne'
    · exact hgone name (by simpa [TcpServer.entered, hname] using hn)
  queued := h.queued
  logged := by
    intro j b hb hd
    rw [TcpServer.entered] at hb
    rcases Nat.lt_or_ge j s.accepted.length with hj | hj
    · exact h.logged j b (List.getElem?_append_left hj ▸ hb) hd
    · rw [List.getElem?_append_right hj, List.getElem?_singleton] at hb
      obtain ⟨-, hb⟩ := Option.ite_none_right_eq_some.mp hb
      simp [← Option.some.inj hb, hlog] at hd

/-! ## Queues -/

section

variable [DecidableEq L] {q : FunctorQueue ServerFunctor}

theorem Placed.queue (h : Placed s)
    (hq : ∀ f ∈ q.all, f ∈ (s.queues l).all ∨ s.home f = some l) :
    Placed { s with queues := Function.update s.queues l q } where
  todo := h.todo
  queues := by
    intro l' f hf
    by_cases hl : l' = l
    · subst hl
      exact (hq f (by simpa using hf)).elim (h.queues l' f) fun hhome => hhome
    · exact h.queues l' f (by simpa [hl] using hf)
  calls := h.calls
  removals := h.removals

theorem Listed.queue (h : Listed s)
    (hq : ∀ id, .connectDestroyed id ∈ q.all →
      .connectDestroyed id ∈ (s.queues l).all ∨ id ∈ s.removals.map Prod.fst) :
    Listed { s with queues := Function.update s.queues l q } where
  named := h.named
  removed := h.removed
  queued := by
    intro l' id hid
    by_cases hl : l' = l
    · subst hl
      exact (hq id (by simpa using hid)).elim (h.queued l' id) fun hm => hm
    · exact h.queued l' id (by simpa [hl] using hid)
  logged := h.logged

theorem Placed.queueInLoop (h : Placed s) (hf : s.home f = some l) : Placed (s.queueInLoop l f) := by
  refine h.queue fun g hg => ?_
  rcases List.mem_append.mp (FunctorQueue.all_push _ f ▸ hg) with hg | hg
  · exact .inl hg
  · exact .inr (List.mem_singleton.mp hg ▸ hf)

theorem Listed.queueInLoop (h : Listed s)
    (hf : ∀ id, f = .connectDestroyed id → id ∈ s.removals.map Prod.fst) (l : L) :
    Listed (s.queueInLoop l f) := by
  refine h.queue fun id hg => ?_
  rcases List.mem_append.mp (FunctorQueue.all_push _ f ▸ hg) with hg | hg
  · exact .inl hg
  · exact .inr (hf id (List.mem_singleton.mp hg).symm)

/-! ## What the server and its loops do -/

/-- Functors, events and entries of the map are where they belong. -/
structure InPlace (s : TcpServer L) : Prop where
  placed : Placed s
  listed : Listed s

omit [DecidableEq L] in
theorem InPlace.call (h : InPlace s) (hl : s.ioLoop? id = some l) (what : LoopCall)
    (hw : what = .connectDestroyed → id ∈ s.removals.map Prod.fst)
    (f : TcpConnection → TcpConnection) : InPlace (s.call l id what f) :=
  ⟨h.placed.call hl what f, h.listed.call what hw l f⟩

theorem InPlace.queueInLoop (h : InPlace s) (hf : s.home f = some l)
    (hd : ∀ id, f = .connectDestroyed id → id ∈ s.removals.map Prod.fst) :
    InPlace (s.queueInLoop l f) :=
  ⟨h.placed.queueInLoop hf, h.listed.queueInLoop hd l⟩

theorem InPlace.todo (h : InPlace s) {ks : List Callback}
    (hk : ∀ k ∈ ks, s.ioLoop? k.conn = some l) :
    InPlace { s with todo := Function.update s.todo l ks } := by
  obtain ⟨⟨ht, hq, hc, hr⟩, hn, hg, hd, hlog⟩ := h
  refine ⟨⟨?_, hq, hc, hr⟩, hn, hg, hd, hlog⟩
  intro l' k hk'
  by_cases hl : l' = l
  · subst hl
    exact hk k (by simpa using hk')
  · exact ht l' k (by simpa [hl] using hk')

/-- The entry goes before `connectDestroyed` is queued. -/
theorem InPlace.removeConnectionInLoop (h : InPlace s) (id : ConnId) :
    InPlace (s.removeConnectionInLoop id s.loop_) := by
  unfold TcpServer.removeConnectionInLoop
  split
  · rename_i a ha
    have hu : InPlace (s.unlisted id a.name_) := ⟨h.placed.unlisted id a.name_, h.listed.unlisted ha⟩
    refine hu.queueInLoop (ioLoop?_of_accepted ha) ?_
    rintro j he
    obtain rfl := ServerFunctor.connectDestroyed.inj he
    simp [unlisted]
  · exact h

theorem InPlace.removeConnection (h : InPlace s) (id : ConnId) (l : L) :
    InPlace (s.removeConnection id l) := by
  unfold TcpServer.removeConnection
  split
  · subst l
    exact h.removeConnectionInLoop id
  · exact h.queueInLoop rfl (by simp)

theorem InPlace.runCallback (h : InPlace s) {k : Callback} (hk : s.ioLoop? k.conn = some l) :
    InPlace (s.runCallback l k) := by
  have hcall : InPlace (s.callHandler l k) := h.call hk (.handler k.handler) (by simp) _
  unfold TcpServer.runCallback
  split
  · exact hcall.removeConnection k.conn l
  · exact hcall

theorem InPlace.runFunctor (h : InPlace s) (hf : s.home f = some l)
    (hd : ∀ id, f = .connectDestroyed id → id ∈ s.removals.map Prod.fst) (calls : List UserCall) :
    InPlace (s.runFunctor l calls f) := by
  cases f with
  | connectEstablished id => exact h.call hf .connectEstablished (by simp) (·.connectEstablished calls)
  | removeConnectionInLoop id =>
    obtain rfl := Option.some.inj hf
    exact h.removeConnectionInLoop id
  | connectDestroyed id => exact h.call hf .connectDestroyed (fun _ => hd id rfl) (·.connectDestroyed calls)

theorem InPlace.newConnection (h : InPlace s) (ioLoop : L) (addr sockfd : Nat)
    (calls : List UserCall) : InPlace (s.newConnection ioLoop addr sockfd calls) := by
  have hu : InPlace (s.entered (s.newTcpConnection ioLoop addr sockfd)) :=
    ⟨h.placed.entered rfl, h.listed.entered rfl rfl⟩
  have hio : (s.entered (s.newTcpConnection ioLoop addr sockfd)).ioLoop? s.accepted.length =
      some ioLoop := ioLoop?_of_accepted accepted_entered_length
  unfold TcpServer.newConnection
  dsimp only
  split
  · subst ioLoop
    exact hu.call hio .connectEstablished (by simp) _
  · exact hu.queueInLoop hio (by simp)

theorem InPlace.step (h : InPlace s) {lab : ServerLabel L} (hst : s.step lab = some t) :
    InPlace t := by
  cases step_moves hst with
  | newConnection ioLoop addr sockfd calls => exact h.newConnection ioLoop addr sockfd calls
  | @dispatch id a revents env ha =>
    refine h.todo fun k hk => ?_
    obtain ⟨_, -, rfl⟩ := List.mem_map.mp hk
    exact ioLoop?_of_accepted ha
  | @handler l k ks hk =>
    have hall := h.placed.todo l
    rw [hk] at hall
    have hrest := h.todo fun k' hk' => hall k' (List.mem_cons_of_mem k hk')
    exact hrest.runCallback (hall k List.mem_cons_self)
  | @swap l hp =>
    have hall : (s.queues l).swap.all = (s.queues l).all := FunctorQueue.all_swap _ hp.2
    exact ⟨h.placed.queue fun f hf => .inl (hall ▸ hf), h.listed.queue fun id hid => .inl (hall ▸ hid)⟩
  | @runFunctor l f q calls _ hn =>
    have hall : (s.queues l).all = f :: q.all := FunctorQueue.all_next hn
    have hmem : f ∈ (s.queues l).all := hall ▸ List.mem_cons_self
    have hpop : InPlace (s.popped l q) :=
      ⟨h.placed.queue fun g hg => .inl (hall ▸ List.mem_cons_of_mem f hg),
        h.listed.queue fun id hg => .inl (hall ▸ List.mem_cons_of_mem f hg)⟩
    have hhome : (s.popped l q).home f = some l := by
      have := h.placed.queues l f hmem
      cases f <;> exact this
    exact hpop.runFunctor hhome (fun id he => h.listed.queued l id (he ▸ hmem)) calls
  | userCall u ha =>
    exact ⟨h.placed.modify (fun _ => rfl) fun _ _ hon => hon,
      h.listed.modify (fun _ => rfl) fun _ _ hd => .inl hd⟩

theorem inPlace (h : (machine L).Reachable s) : InPlace s := by
  refine h.invariant ?_ fun _ _ _ hs _ hst => hs.step hst
  rintro s ⟨base, b, rfl⟩
  exact ⟨⟨by simp, by simp [FunctorQueue.all], by simp, by simp⟩,
    ⟨by simp, by simp, by simp [FunctorQueue.all], by simp⟩⟩

end

end TcpServer

end Muduo
