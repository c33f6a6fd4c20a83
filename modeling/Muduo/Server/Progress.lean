import Muduo.EventLoop.Progress
import Muduo.Server.Teardown

/-!
# Connections come to life and go

`LivesOnce` says what happens to a connection at most once. Here it does happen, as long as
every loop goes round: an accepted connection is established, and one that has invoked its
close callback makes all three hops and is destroyed.

A functor that waits in a loop is called between the next two swaps of the loop, whatever
else is queued. The stages of a connection only move forward, and none rests inside
`handleClose`, so each hop is followed by the next.
-/

namespace Muduo

namespace TcpServer

open TcpConnection (Fresh Open Closed Removed)

variable {L : Type*} [DecidableEq L]

variable {s t : TcpServer L} {id : ConnId} {a : Accepted L} {lab : ServerLabel L}

/-! ## A waiting functor is called -/

@[simp] theorem functors_queueInLoop (s : TcpServer L) (l l' : L) (f : ServerFunctor) :
    ((s.queueInLoop l f).queues l').functors = (s.queues l').functors := by
  by_cases hl : l' = l
  · subst hl
    simp [queueInLoop]
  · simp [queueInLoop, hl]

@[simp] theorem functors_removeConnectionInLoop (s : TcpServer L) (id : ConnId) (l l' : L) :
    ((s.removeConnectionInLoop id l).queues l').functors = (s.queues l').functors := by
  unfold removeConnectionInLoop
  split <;> simp

@[simp] theorem functors_removeConnection (s : TcpServer L) (id : ConnId) (l l' : L) :
    ((s.removeConnection id l).queues l').functors = (s.queues l').functors := by
  unfold removeConnection
  split <;> simp

/-- Only its own call takes a functor out of the batch. -/
theorem functors_step (hst : s.step lab = some t) {l : L} {f : ServerFunctor}
    (hf : f ∈ (s.queues l).functors) : f ∈ (t.queues l).functors ∨
      ∃ calls q, s.todo l = [] ∧ (s.queues l).next = some (f, q) ∧
        t = (s.popped l q).runFunctor l calls f := by
  cases step_moves hst with
  | newConnection =>
    left
    unfold newConnection
    split <;> simpa [call, modify] using hf
  | dispatch | userCall => exact .inl hf
  | @handler l' k ks =>
    left
    unfold runCallback
    split <;> simpa [callHandler, call, modify] using hf
  | @swap l' hp =>
    left
    have hne : l ≠ l' := by
      rintro rfl
      simp [hp.2] at hf
    simpa [hne] using hf
  | @runFunctor l' f' q calls htodo hn =>
    have hkept : ∀ l, (((s.popped l' q).runFunctor l' calls f').queues l).functors =
        ((s.popped l' q).queues l).functors := by
      intro l
      cases f' <;> simp [TcpServer.runFunctor, call, modify]
    rw [hkept]
    by_cases hl : l = l'
    · subst hl
      obtain ⟨hfs, -⟩ := FunctorQueue.next_eq_some hn
      rw [hfs, List.mem_cons] at hf
      rcases hf with rfl | hf
      · exact .inr ⟨calls, q, htodo, hn, rfl⟩
      · exact .inl (by simpa [popped] using hf)
    · exact .inl (by simpa [popped, hl] using hf)

/-- Every loop goes round for ever: a poll that has nothing to report times out, and
handlers and functors return. -/
def GoesRound (e : (machine L).Execution ClosesOnce) : Prop :=
  ∀ l n, ∃ m, n ≤ m ∧ e.label m = some (.swap l)

variable {e : (machine L).Execution ClosesOnce}

/-! ## Stages only move forward -/

def Stage.order : Stage → ℕ
  | .waiting => 0
  | .opened => 1
  | .closing => 2
  | .leaving => 3
  | .left => 4
  | .removed => 5

/-- The connection at a stage at which it may rest between two steps. -/
structure Rests (s : TcpServer L) (id : ConnId) (a : Accepted L) (g : Stage) : Prop where
  accepted : s.accepted[id]? = some a
  life : Life s id a g
  resting : g ≠ .closing

/-- The connection is on the same loop, at the stage or further. -/
def Forward (t : TcpServer L) (id : ConnId) (a : Accepted L) (g : Stage) : Prop :=
  ∃ b g', Rests t id b g' ∧ b.loop_ = a.loop_ ∧ g.order ≤ g'.order

/-- The connection is on the same loop, past the stage. -/
def Past (t : TcpServer L) (id : ConnId) (a : Accepted L) (g : Stage) : Prop :=
  ∃ b g', Rests t id b g' ∧ b.loop_ = a.loop_ ∧ g.order < g'.order

variable {g : Stage} {j : ConnId}

/-- A step of another connection. -/
theorem Rests.touches (h : Rests s id a g) (ht : Touches s j t) (hj : id ≠ j) :
    Forward t id a g :=
  ⟨a, g, ⟨(ht.accepted id hj).trans h.accepted,
    h.life.congr ht.loop (ht.mine id hj) (ht.callbacks id hj), h.resting⟩, rfl, le_rfl⟩

theorem Inv.touches_runCallback (h : Inv s) {l : L} {k : Callback} {ks : List Callback}
    (hk : s.todo l = k :: ks) :
    Touches s k.conn ({ s with todo := Function.update s.todo l ks }.runCallback l k) := by
  have hborn : k.conn < s.accepted.length := by
    by_contra hge
    have hcb := congrFun (h.unborn k.conn (Nat.not_lt.mp hge)).2 l
    simp [TcpServer.callbacks, hk] at hcb
  have ha := List.getElem?_eq_getElem hborn
  obtain ⟨g, hg⟩ := h.life k.conn _ ha
  obtain ⟨rfl, hallow, hpop⟩ := hg.popCallback hk rfl
  refine Touches.trans (touches_todo hborn ?_) (hpop.runCallback ha hallow).1
  intro j hj
  simp [TcpServer.callbacks, hk, Ne.symm hj]

theorem Inv.touches_runFunctor (h : Inv s) {l : L} {f : ServerFunctor}
    {q : FunctorQueue ServerFunctor} (hn : (s.queues l).next = some (f, q)) (hl : s.todo l = [])
    (calls : List UserCall) : Touches s f.conn ((s.popped l q).runFunctor l calls f) := by
  have hborn : f.conn < s.accepted.length := by
    by_contra hge
    have hnone := congrFun (h.unborn f.conn (Nat.not_lt.mp hge)).1 l
    simp [mine_popped hn rfl] at hnone
  have ha := List.getElem?_eq_getElem hborn
  obtain ⟨g, hg⟩ := h.life f.conn _ ha
  exact (touches_popped hborn hn rfl).trans (hg.runFunctor ha hn rfl hl calls).1

/-- A callback that closes sends the connection off to the base loop, or all the way. -/
theorem Rests.runCallback {l : L} {k : Callback} {ks : List Callback} (h : Rests s k.conn a g)
    (hk : s.todo l = k :: ks) :
    Forward ({ s with todo := Function.update s.todo l ks }.runCallback l k) k.conn a g := by
  obtain ⟨rfl, hallow, hpop⟩ := h.life.popCallback hk rfl
  have hlife := hpop.callHandler hallow a.loop_
  have ha := accepted_callHandler (s := { s with todo := Function.update s.todo a.loop_ ks })
    h.accepted a.loop_
  rw [runCallback_eq (s := { s with todo := Function.update s.todo a.loop_ ks }) h.accepted]
  by_cases hc : k.closes = true
  · obtain rfl := (hallow.tail.2.2.2 hc).1
    rw [if_pos hc] at hlife ⊢
    unfold removeConnection
    split
    · exact ⟨_, .left, ⟨by rwa [accepted_removeConnectionInLoop], hlife.removeConnectionInLoop ha _,
        by simp⟩, rfl, by decide⟩
    · exact ⟨_, .leaving, ⟨ha, ⟨hlife.phase, hlife.closeCallbacks, hlife.logged,
        mine_queueInLoop hlife.queued _ rfl, hlife.away, hlife.here⟩, by simp⟩, rfl, by decide⟩
  · rw [if_neg hc] at hlife ⊢
    exact ⟨_, g, ⟨ha, hlife, h.resting⟩, rfl, le_rfl⟩

/-- A stage is told by the log. -/
theorem Life.eq_removed (h : Life s id a g) (hd : .connectDestroyed ∈ a.log) : g = .removed := by
  have hlog := h.logged
  have hpos := List.count_pos_iff.mpr hd
  cases g with
  | removed => rfl
  | waiting => simp [show a.log = [] from hlog] at hd
  | _ => exact absurd hlog.2.2 (by omega)

/-- The functor that a connection waits for takes it to its next stage. -/
theorem Rests.runFunctor {l : L} {f : ServerFunctor} {q : FunctorQueue ServerFunctor}
    (h : Rests s f.conn a g) (hn : (s.queues l).next = some (f, q)) (hl : s.todo l = [])
    (calls : List UserCall) : Past ((s.popped l q).runFunctor l calls f) f.conn a g := by
  obtain ⟨-, hlife⟩ := h.life.runFunctor h.accepted hn rfl hl calls
  have ha : (s.popped l q).accepted[f.conn]? = some a := h.accepted
  have hmine := h.life.queued
  have hcc := h.life.closeCallbacks
  cases g with
  | waiting =>
    obtain ⟨rfl, hf, -⟩ := eq_of_popped hn rfl hmine
    generalize hid : f.conn = id at *
    subst hf
    have hb := accepted_call ha a.loop_ .connectEstablished (·.connectEstablished calls)
    obtain ⟨g', hg'⟩ := hlife _ hb
    refine ⟨_, g', ⟨hb, hg', ?_⟩, rfl, ?_⟩
    · rintro rfl
      have hone := hg'.closeCallbacks
      simp only [Accepted.ran, TcpConnection.closeCallbacks_connectEstablished, hcc] at hone
      contradiction
    · have hlog := hg'.logged
      cases g' with
      | waiting => simp [Stage.Logged, Accepted.ran] at hlog
      | _ => simp [Stage.order]
  | leaving =>
    obtain ⟨rfl, hf, hnone⟩ := eq_of_popped hn rfl hmine
    generalize hid : f.conn = id at *
    subst hf
    have hb := (congrArg (·[id]?) (accepted_removeConnectionInLoop (s.popped s.loop_ q) id s.loop_)).trans ha
    have hclosing : Life (s.popped s.loop_ q) id a .closing :=
      ⟨h.life.phase, hcc, h.life.logged, hnone, h.life.away, h.life.here⟩
    exact ⟨a, .left, ⟨hb, hclosing.removeConnectionInLoop ha _, by simp⟩, rfl, by decide⟩
  | left =>
    obtain ⟨rfl, hf, -⟩ := eq_of_popped hn rfl hmine
    generalize hid : f.conn = id at *
    subst hf
    have hb := accepted_call ha a.loop_ .connectDestroyed (·.connectDestroyed calls)
    obtain ⟨g', hg'⟩ := hlife _ hb
    have hremoved : g' = .removed := hg'.eq_removed (by simp [Accepted.ran])
    exact ⟨_, g', ⟨hb, hg', by simp [hremoved]⟩, rfl, by simp [hremoved, Stage.order]⟩
  | _ =>
    have hsome := (congrFun (mine_popped hn rfl) l).symm.trans (congrFun hmine l)
    simp [Stage.queued] at hsome

/-- Every step leaves every connection at its stage or takes it further. -/
theorem Rests.step (h : Rests s id a g) (hinv : Inv s) (hok : ClosesOnce s lab)
    (hst : s.step lab = some t) : Forward t id a g := by
  have hborn : id < s.accepted.length := (List.getElem?_eq_some_iff.mp h.accepted).1
  cases step_moves hst with
  | newConnection ioLoop addr sockfd calls =>
    exact h.touches (touches_newConnection s ioLoop addr sockfd calls) hborn.ne
  | @dispatch j b revents env hb hp hr =>
    by_cases hj : id = j
    · subst hj
      obtain rfl := Option.some.inj (h.accepted.symm.trans hb)
      obtain rfl := h.life.opened_of_registered hr
      obtain ⟨g', hg'⟩ := (hinv.step hok hst).life id a h.accepted
      obtain rfl := hg'.opened_of_registered hr
      exact ⟨a, .opened, ⟨h.accepted, hg', by simp⟩, rfl, le_rfl⟩
    · have hborn' : j < s.accepted.length := (List.getElem?_eq_some_iff.mp hb).1
      refine h.touches (touches_todo hborn' fun i hi => ?_) hj
      simp [TcpServer.callbacks, hp.1, List.filter_eq_nil_iff, Ne.symm hi]
  | @handler l k ks hk =>
    by_cases hid : k.conn = id
    · subst hid
      exact h.runCallback hk
    · exact h.touches (hinv.touches_runCallback hk) (Ne.symm hid)
  | @swap l hp =>
    refine ⟨a, g, ⟨h.accepted, h.life.congr rfl ?_ rfl, h.resting⟩, rfl, le_rfl⟩
    funext l'
    by_cases hl : l' = l
    · subst hl
      simp [mine, FunctorQueue.all_swap _ hp.2]
    · simp [mine, hl]
  | @runFunctor l f q calls hl hn =>
    by_cases hid : f.conn = id
    · subst hid
      obtain ⟨b, g', hb, hloop, hlt⟩ := h.runFunctor hn hl calls
      exact ⟨b, g', hb, hloop, hlt.le⟩
    · exact h.touches (hinv.touches_runFunctor hn hl calls) (Ne.symm hid)
  | @userCall j b u hb hlog =>
    by_cases hj : id = j
    · subst hj
      obtain rfl := Option.some.inj (h.accepted.symm.trans hb)
      have hphase : g.Phase (a.conn.userCall u) := by
        have hp := h.life.phase
        cases g with
        | waiting => exact absurd h.life.logged hlog
        | opened => exact TcpConnection.stable_open.userCall u hp
        | removed => exact Removed.userCalls hp [u]
        | _ => exact Closed.userCalls hp [u]
      refine ⟨{ a with conn := a.conn.userCall u }, g, ⟨?_, ?_, h.resting⟩, rfl, le_rfl⟩
      · rw [accepted_modify, h.accepted]
        rfl
      · exact ⟨hphase, (TcpConnection.closeCallbacks_userCall _ u).trans h.life.closeCallbacks,
          h.life.logged, h.life.queued, h.life.away, h.life.here⟩
    · exact h.touches (touches_modify (List.getElem?_eq_some_iff.mp hb).1 _) hj

/-! ## Every run -/

theorem loop_step (hst : s.step lab = some t) : t.loop_ = s.loop_ := by
  cases step_moves hst with
  | newConnection =>
    unfold newConnection
    split <;> rfl
  | handler =>
    unfold runCallback removeConnection removeConnectionInLoop
    split
    · split
      · split <;> rfl
      · rfl
    · rfl
  | @runFunctor l f =>
    cases f with
    | removeConnectionInLoop =>
      simp only [TcpServer.runFunctor, removeConnectionInLoop]
      split <;> rfl
    | _ => rfl
  | _ => rfl

/-- A connection that a step has added has not closed. -/
theorem closeCallbacks_of_new (hst : s.step lab = some t) (hid : s.accepted.length ≤ id)
    (ha : t.accepted[id]? = some a) : a.conn.closeCallbacks = 0 := by
  have hold : t.accepted.length ≤ s.accepted.length → a.conn.closeCallbacks = 0 := by
    intro hle
    rw [List.getElem?_eq_none (hle.trans hid)] at ha
    contradiction
  cases step_moves hst with
  | newConnection ioLoop addr sockfd calls =>
    have hlast : id = s.accepted.length := by
      have hlt : id < (s.newConnection ioLoop addr sockfd calls).accepted.length :=
        (List.getElem?_eq_some_iff.mp ha).1
      have hlen : (s.newConnection ioLoop addr sockfd calls).accepted.length =
          s.accepted.length + 1 := by
        unfold newConnection
        split <;> simp [call, modify]
      rw [hlen] at hlt
      exact Nat.le_antisymm (Nat.lt_succ_iff.mp hlt) hid
    subst hlast
    have hnew : ∀ t : TcpServer L,
        t.accepted = s.accepted ++ [s.newTcpConnection ioLoop addr sockfd] →
        t.accepted[s.accepted.length]? = some (s.newTcpConnection ioLoop addr sockfd) := by
      intro t ht
      simp [ht]
    have hzero : (s.newTcpConnection ioLoop addr sockfd).conn.closeCallbacks = 0 := rfl
    unfold newConnection at ha
    dsimp only at ha
    split at ha
    · rw [accepted_call (hnew _ rfl)] at ha
      obtain rfl := Option.some.inj ha
      exact (TcpConnection.closeCallbacks_connectEstablished _ _).trans hzero
    · obtain rfl := Option.some.inj ((hnew _ rfl).symm.trans ha)
      exact hzero
  | dispatch => exact hold le_rfl
  | swap => exact hold le_rfl
  | userCall => exact hold (by simp [modify])
  | handler =>
    refine hold ?_
    unfold runCallback
    split <;> simp [callHandler, call, modify]
  | @runFunctor l f =>
    refine hold ?_
    cases f <;> simp [TcpServer.runFunctor, popped, call, modify]

/-- Whatever happens, every connection is at a stage at which it may rest. -/
theorem rests (h : (machine L).Reach ClosesOnce s) :
    Inv s ∧ ∀ id a, s.accepted[id]? = some a → ∃ g, Rests s id a g := by
  refine h.invariant
    (I := fun s => Inv s ∧ ∀ id a, s.accepted[id]? = some a → ∃ g, Rests s id a g) ?_ ?_
  · rintro s ⟨base, b, rfl⟩
    exact ⟨⟨by simp, fun _ _ => ⟨rfl, rfl⟩⟩, by simp⟩
  · rintro s lab t ⟨hinv, hrest⟩ hok hst
    refine ⟨hinv.step hok hst, ?_⟩
    intro id b hb
    by_cases hid : id < s.accepted.length
    · obtain ⟨g, hg⟩ := hrest id _ (List.getElem?_eq_getElem hid)
      obtain ⟨c, g', hc, -⟩ := hg.step hinv hok hst
      obtain rfl := Option.some.inj (hc.accepted.symm.trans hb)
      exact ⟨g', hc⟩
    · obtain ⟨g, hg⟩ := (hinv.step hok hst).life id b hb
      refine ⟨g, hb, hg, ?_⟩
      rintro rfl
      have hone := hg.closeCallbacks
      rw [closeCallbacks_of_new hst (Nat.not_lt.mp hid) hb] at hone
      contradiction

theorem Stage.order_injective : Function.Injective Stage.order := by
  intro g g' h
  cases g <;> cases g' <;> first | rfl | simp [Stage.order] at h

/-- A connection that waits for a functor gets past the stage. -/
theorem Rests.hop (hround : GoesRound e) {n : ℕ} (h : Rests (e.state n) id a g) {l : L}
    {f : ServerFunctor} (hf : f.conn = id)
    (hq : g.queued (e.state n).loop_ a.loop_ id = Function.update (fun _ => []) l [f]) :
    ∃ m, n ≤ m ∧ Past (e.state m) id a g := by
  have hhere : ∀ s, Forward s id a g → s.loop_ = (e.state n).loop_ → ¬ Past s id a g →
      ∃ b, Rests s id b g ∧ b.loop_ = a.loop_ ∧ s.mine id = Function.update (fun _ => []) l [f] := by
    rintro s ⟨b, g', hb, hloop, hle⟩ hbase hpast
    have hsame : g' = g := by
      refine Stage.order_injective (Nat.le_antisymm ?_ hle)
      by_contra hlt
      exact hpast ⟨b, g', hb, hloop, Nat.not_le.mp hlt⟩
    subst hsame
    exact ⟨b, hb, hloop, by rw [hb.life.queued, hbase, hloop, hq]⟩
  refine FunctorQueue.eventually_called (P := fun s => Past s id a g)
    (J := fun s => Forward s id a g ∧ s.loop_ = (e.state n).loop_) (fun s => s.queues l)
    (fun lab => lab = .swap l) f ?_ ?_ ?_ ?_ ?_ ⟨⟨a, g, h, rfl, le_rfl⟩, rfl⟩
  · rintro s lab t hs hok hst ⟨⟨b, g', hb, hloop, hle⟩, hbase⟩
    obtain ⟨c, g'', hc, hloop', hle'⟩ := hb.step (rests hs).1 hok hst
    exact ⟨⟨c, g'', hc, hloop'.trans hloop, hle.trans hle'⟩, (loop_step hst).trans hbase⟩
  · rintro s hs ⟨hfwd, hbase⟩ hpast
    obtain ⟨b, hb, -, hmine⟩ := hhere s hfwd hbase hpast
    have hmem : f ∈ s.mine id l := by simp [hmine]
    exact (List.mem_filter.mp hmem).1
  · rintro s lab t rfl hst
    cases step_moves hst with
    | swap hp => exact ⟨hp.2, by simp⟩
  · rintro s lab t hs - hst ⟨hfwd, hbase⟩ hpast hmem
    refine (functors_step hst hmem).imp_right ?_
    rintro ⟨calls, q, hl, hn, rfl⟩
    obtain ⟨b, hb, hloop, -⟩ := hhere s hfwd hbase hpast
    subst hf
    obtain ⟨c, g', hc, hloop', hlt⟩ := hb.runFunctor hn hl calls
    exact ⟨c, g', hc, hloop'.trans hloop, hlt⟩
  · intro k
    obtain ⟨m, hm, hl⟩ := hround l k
    exact ⟨m, _, hm, hl, rfl⟩

theorem Rests.established (h : Rests s id a g) (hg : 1 ≤ g.order) :
    a.log.head? = some .connectEstablished := by
  have hlog := h.life.logged
  cases g with
  | waiting => simp [Stage.order] at hg
  | _ => exact hlog.1

/-- A connection that waits for it is established. -/
theorem Rests.opens (hround : GoesRound e) {n : ℕ} (h : Rests (e.state n) id a g) :
    ∃ m b, n ≤ m ∧ (e.state m).accepted[id]? = some b ∧
      b.log.head? = some .connectEstablished := by
  by_cases hw : g = .waiting
  · subst hw
    obtain ⟨m, hm, b, g', hb, -, hlt⟩ := h.hop hround rfl rfl
    exact ⟨m, b, hm, hb.accepted, hb.established hlt⟩
  · refine ⟨n, a, le_rfl, h.accepted, h.established ?_⟩
    cases g <;> simp [Stage.order] at hw ⊢

/-- Every accepted connection is established in the end. -/
theorem established_eventually (hround : GoesRound e) {n : ℕ}
    (ha : (e.state n).accepted[id]? = some a) :
    ∃ m b, n ≤ m ∧ (e.state m).accepted[id]? = some b ∧
      b.log.head? = some .connectEstablished := by
  obtain ⟨g, hg⟩ := (rests (e.reach n)).2 id a ha
  exact hg.opens hround

/-- On its way back to its io loop, a connection gets there. -/
theorem Rests.removed (hround : GoesRound e) {n : ℕ} (h : Rests (e.state n) id a g)
    (hg : 4 ≤ g.order) :
    ∃ m b, n ≤ m ∧ Rests (e.state m) id b .removed := by
  by_cases hl : g = .left
  · subst hl
    obtain ⟨m, hm, b, g', hb, -, hlt⟩ := h.hop hround rfl rfl
    refine ⟨m, b, hm, ?_⟩
    cases g' <;> simp [Stage.order] at hlt
    exact hb
  · refine ⟨n, a, le_rfl, ?_⟩
    cases g <;> simp [Stage.order] at hg hl
    exact h

/-- A connection that has been destroyed stays so. -/
theorem Rests.stays_removed {n m : ℕ} (hnm : n ≤ m) (h : Rests (e.state n) id a .removed) :
    ∃ b, Rests (e.state m) id b .removed := by
  refine e.stays (J := fun s => ∃ b, Rests s id b .removed) ?_ hnm ⟨a, h⟩
  rintro s lab t hs hok hst ⟨b, hb⟩
  obtain ⟨c, g, hc, -, hle⟩ := hb.step (rests hs).1 hok hst
  refine ⟨c, ?_⟩
  cases g <;> simp [Stage.order] at hle
  exact hc

/-- The base loop has taken the connection out of the map, and its io loop has run
`connectDestroyed` on it once. -/
structure Destroyed (s : TcpServer L) (id : ConnId) (a : Accepted L) : Prop where
  removed : (id, s.loop_) ∈ s.removals
  gone : ∀ name, s.connections_.lookup name ≠ some id
  once : a.log.count .connectDestroyed = 1
  onLoop : a.OnLoop

/-- What is under `connectDestroyed` in the log has made all three hops. -/
theorem Rests.destroyed (h : Rests s id a .removed) (hplace : InPlace s) : Destroyed s id a := by
  have honce : a.log.count .connectDestroyed = 1 := h.life.logged.2.2
  have hlogged : .connectDestroyed ∈ a.log := List.count_pos_iff.mp (honce ▸ Nat.one_pos)
  obtain ⟨r, hr, rfl⟩ := List.mem_map.mp (hplace.listed.logged id a h.accepted hlogged)
  have hbase : r.2 = s.loop_ := hplace.placed.removals r hr
  exact ⟨hbase ▸ hr, (hplace.listed.removed r hr).2, honce,
    hplace.placed.calls a (List.mem_of_getElem? h.accepted)⟩

/-- Every connection that has invoked its close callback is destroyed in the end, once. -/
theorem destroyed_eventually (hround : GoesRound e) {n : ℕ}
    (ha : (e.state n).accepted[id]? = some a) (hclosed : 0 < a.conn.closeCallbacks) :
    ∃ m, n ≤ m ∧ ∀ k, m ≤ k →
      ∃ b, (e.state k).accepted[id]? = some b ∧ Destroyed (e.state k) id b := by
  obtain ⟨g, hg⟩ := (rests (e.reach n)).2 id a ha
  rw [hg.life.closeCallbacks] at hclosed
  obtain ⟨m, b, g', hm, hb, hle⟩ : ∃ m b g', n ≤ m ∧ Rests (e.state m) id b g' ∧ 4 ≤ g'.order := by
    by_cases hl : g = .leaving
    · subst hl
      obtain ⟨m, hm, b, g', hb, -, hlt⟩ := hg.hop hround rfl rfl
      exact ⟨m, b, g', hm, hb, hlt⟩
    · refine ⟨n, a, g, le_rfl, hg, ?_⟩
      have hrest := hg.resting
      cases g <;> simp [Stage.order, Stage.closeCallbacks] at hclosed hrest hl ⊢
  obtain ⟨i, c, hi, hc⟩ := hb.removed hround hle
  refine ⟨i, hm.trans hi, fun k hk => ?_⟩
  obtain ⟨d, hd⟩ := hc.stays_removed hk
  exact ⟨d, hd.accepted, hd.destroyed (inPlace (e.reach k).reachable)⟩

/-- A loop without work goes round and changes nothing. -/
theorem step_swap_idle (hrun : s.accepted.all (·.conn.aborted.isNone) = true) {l : L}
    (hp : s.polled l) (hq : (s.queues l).pendingFunctors_ = []) : s.step (.swap l) = some s := by
  have hsame : (s.queues l).swap = s.queues l := by
    have hf := hp.2
    cases h : s.queues l
    simp_all [FunctorQueue.swap]
  simp [step, hrun, move, hp, hsame]

/-- A connection on an io loop is hung up on, and from then on both loops go round idle. -/
theorem exists_goesRound :
    ∃ e : (machine Bool).Execution ClosesOnce, GoesRound e ∧
      (∃ a, (e.state 1).accepted[0]? = some a ∧ a.log = []) ∧
      ∃ a, (e.state 5).accepted[0]? = some a ∧ a.conn.closeCallbacks = 1 ∧
        a.log.count .connectDestroyed = 0 := by
  have along : (machine Bool).Along ClosesOnce { loop_ := false }
      [.newConnection true 1 5 [], .swap true, .runFunctor true [], .dispatch 0 EPOLLHUP {},
        .handler true, .swap false, .runFunctor false [], .swap true, .runFunctor true []] := by
    refine Machine.along_of_forall ?_
    simp only [List.forall_mem_cons, ClosesOnce]
    exact ⟨fun _ => trivial, fun _ => trivial, fun _ => trivial, fun _ => Nat.le_of_eq rfl,
      fun _ => trivial, fun _ => trivial, fun _ => trivial, fun _ => trivial, fun _ => trivial,
      by simp⟩
  obtain ⟨t, ht, hrun, hidle⟩ : ∃ t, (machine Bool).run { loop_ := false }
      [.newConnection true 1 5 [], .swap true, .runFunctor true [], .dispatch 0 EPOLLHUP {},
        .handler true, .swap false, .runFunctor false [], .swap true, .runFunctor true []] =
        some t ∧ t.accepted.all (·.conn.aborted.isNone) = true ∧
      ∀ l, t.polled l ∧ (t.queues l).pendingFunctors_ = [] := by
    refine ⟨_, rfl, rfl, ?_⟩
    rintro (_ | _) <;> exact ⟨⟨rfl, rfl⟩, rfl⟩
  have hinit : (machine Bool).init { loop_ := false } := ⟨false, false, rfl⟩
  refine ⟨.ofRun (fun u => u = t) (fun n _ => some (.swap (n % 2 == 0))) hinit along ht rfl ?_, ?_,
    ⟨_, rfl, rfl⟩, _, rfl, rfl, rfl⟩
  · rintro n u lab rfl hl
    obtain rfl := Option.some.inj hl
    exact ⟨trivial, u, step_swap_idle hrun (hidle _).1 (hidle _).2, rfl⟩
  · intro l n
    refine ⟨2 * (n + 9) + (!l).toNat, by omega, ?_⟩
    refine (Machine.Execution.label_ofRun ?_).trans ?_
    · simp only [List.length_cons, List.length_nil]
      omega
    · cases l <;> simp

theorem established_eventually_two_loops :
    ∃ (e : (machine Bool).Execution ClosesOnce) (m : ℕ) (b : Accepted Bool), 1 ≤ m ∧
      (e.state m).accepted[0]? = some b ∧ b.log.head? = some .connectEstablished := by
  obtain ⟨e, hround, ⟨a, ha, -⟩, -⟩ := exists_goesRound
  exact ⟨e, established_eventually hround ha⟩

theorem destroyed_eventually_two_loops :
    ∃ (e : (machine Bool).Execution ClosesOnce) (m : ℕ), 5 ≤ m ∧ ∀ k, m ≤ k →
      ∃ b, (e.state k).accepted[0]? = some b ∧ Destroyed (e.state k) 0 b := by
  obtain ⟨e, hround, -, a, ha, hclosed, -⟩ := exists_goesRound
  exact ⟨e, destroyed_eventually hround ha (hclosed ▸ Nat.one_pos)⟩

end TcpServer

end Muduo
