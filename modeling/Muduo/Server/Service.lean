import Muduo.Library.Product
import Muduo.Server.Acceptor
import Muduo.Server.Progress

/-!
# From the listening socket to the connection

The acceptor and the server behind it, put together: whatever `handleRead` hands on becomes a
connection of the server, on that descriptor, and nothing else does. On the base loop the
acceptor's channel is one among those of the connections. It is polled when a batch of
functors has come to its end, and its event is handled before the next batch is swapped in.

So whoever connects is served: the connections that the kernel completes become connections of
the server in the same order, and each is established in its loop.
-/

namespace Muduo

/-! ## A connection keeps its descriptor -/

namespace TcpConnection

variable {c : TcpConnection}

theorem stable_fd (fd : Nat) : Stable fun c => c.channel_.fd_ = fd where
  emit := fun _ _ _ h => h
  input := fun _ _ h => h
  output := fun _ _ h => h
  enableWriting := fun _ h => (Channel.update_sameObject ..).fd.trans h
  disableWriting := fun _ h => (Channel.update_sameObject ..).fd.trans h
  disconnecting := fun _ _ h => h

theorem fd_userCall (u : UserCall) : (c.userCall u).channel_.fd_ = c.channel_.fd_ :=
  (stable_fd _).userCall u rfl

theorem fd_userCalls (calls : List UserCall) :
    (c.userCalls calls).channel_.fd_ = c.channel_.fd_ :=
  (stable_fd _).userCalls calls rfl

theorem fd_disconnect : c.disconnect.channel_.fd_ = c.channel_.fd_ :=
  (Channel.update_sameObject ..).fd

theorem fd_handleClose (calls : List UserCall) :
    (c.handleClose calls).channel_.fd_ = c.channel_.fd_ :=
  (fd_userCalls calls).trans fd_disconnect

theorem fd_removeChannel : c.removeChannel.channel_.fd_ = c.channel_.fd_ := by
  unfold removeChannel
  split
  · exact (Channel.remove_sameObject ‹_›).fd
  · rfl

theorem fd_connectDestroyed (calls : List UserCall) :
    (c.connectDestroyed calls).channel_.fd_ = c.channel_.fd_ := by
  refine fd_removeChannel.trans ?_
  split
  · exact (fd_userCalls calls).trans fd_disconnect
  · rfl

theorem fd_connectEstablished (calls : List UserCall) :
    (c.connectEstablished calls).channel_.fd_ = c.channel_.fd_ :=
  (fd_userCalls calls).trans (Channel.update_sameObject ..).fd

theorem fd_runHandler (env : Environment) (h : Handler) :
    (runHandler env c h).channel_.fd_ = c.channel_.fd_ := by
  cases h with
  | close | error => exact fd_handleClose _
  | write => exact (stable_fd _).handleWrite env.write rfl
  | read =>
    simp only [runHandler, handleRead]
    split
    · split
      · exact fd_userCalls _
      · exact fd_handleClose _
    · rfl

end TcpConnection

/-- The descriptor of the connection that the step adds. -/
def ServerLabel.sockfd? {L : Type*} : ServerLabel L → Option Nat
  | .newConnection _ _ sockfd _ => some sockfd
  | _ => none

namespace TcpServer

variable {L : Type*} {s t : TcpServer L} {lab : ServerLabel L}

/-- The descriptors of all connections, in the order in which they were accepted. -/
def fds (s : TcpServer L) : List Nat := s.accepted.map fun a => a.conn.channel_.fd_

theorem fds_modify (s : TcpServer L) (id : ConnId) {f : Accepted L → Accepted L}
    (hf : ∀ a, (f a).conn.channel_.fd_ = a.conn.channel_.fd_) : (s.modify id f).fds = s.fds := by
  refine List.ext_getElem? fun i => ?_
  simp only [fds, modify, List.getElem?_map, List.getElem?_modify]
  cases s.accepted[i]? with
  | none => rfl
  | some a =>
    by_cases hid : id = i
    · simp [hid, hf]
    · simp [hid]

theorem fds_call (s : TcpServer L) (l : L) (id : ConnId) (what : LoopCall)
    {f : TcpConnection → TcpConnection} (hf : ∀ c, (f c).channel_.fd_ = c.channel_.fd_) :
    (s.call l id what f).fds = s.fds :=
  s.fds_modify id fun a => hf a.conn

variable [DecidableEq L]

theorem fds_removeConnectionInLoop (s : TcpServer L) (id : ConnId) (l : L) :
    (s.removeConnectionInLoop id l).fds = s.fds := by
  unfold removeConnectionInLoop
  split <;> rfl

theorem fds_runCallback (s : TcpServer L) (l : L) (k : Callback) :
    (s.runCallback l k).fds = s.fds := by
  have hcall : (s.callHandler l k).fds = s.fds :=
    s.fds_call _ _ _ fun _ => TcpConnection.fd_runHandler _ _
  unfold runCallback removeConnection
  split
  · split
    · exact (fds_removeConnectionInLoop _ _ _).trans hcall
    · exact hcall
  · exact hcall

theorem fds_newConnection (s : TcpServer L) (ioLoop : L) (addr sockfd : Nat)
    (calls : List UserCall) :
    (s.newConnection ioLoop addr sockfd calls).fds = s.fds ++ [sockfd] := by
  have hnew : ∀ t : TcpServer L,
      t.accepted = s.accepted ++ [s.newTcpConnection ioLoop addr sockfd] →
      t.fds = s.fds ++ [sockfd] := by
    intro t ht
    simp [fds, ht, newTcpConnection, TcpConnection.new]
  unfold newConnection
  dsimp only
  split
  · exact (fds_call _ _ _ _ fun _ => TcpConnection.fd_connectEstablished _).trans (hnew _ rfl)
  · exact hnew _ rfl

/-- Descriptors change hands in `newConnection` alone. -/
theorem fds_step (hst : s.step lab = some t) : t.fds = s.fds ++ lab.sockfd?.toList := by
  cases step_moves hst with
  | newConnection => exact fds_newConnection ..
  | dispatch | swap => exact (List.append_nil _).symm
  | handler => exact (fds_runCallback ..).trans (List.append_nil _).symm
  | userCall u =>
    exact (s.fds_modify _ fun a => TcpConnection.fd_userCall u).trans (List.append_nil _).symm
  | @runFunctor l f q calls =>
    refine Eq.trans ?_ (List.append_nil _).symm
    cases f with
    | connectEstablished => exact fds_call _ _ _ _ fun _ => TcpConnection.fd_connectEstablished _
    | removeConnectionInLoop => exact fds_removeConnectionInLoop _ _ _
    | connectDestroyed => exact fds_call _ _ _ _ fun _ => TcpConnection.fd_connectDestroyed _

end TcpServer

/-- The acceptor and its server. -/
abbrev ServingServer (L : Type*) := Acceptor × TcpServer L

namespace ServingServer

variable {L : Type*} [DecidableEq L]

/-- What `handleRead` hands to the callback. -/
def hands (s : ServingServer L) (len : BitVec 32) (r : AcceptResult) : Option (Nat × InetAddress) :=
  if s.1.newConnectionCallback_ then (s.1.accept len r).1 else none

/-- Which steps belong together, and when. -/
def together (s : ServingServer L) : Machine.Joint AcceptorLabel (ServerLabel L) → Bool
  | .left .setNewConnectionCallback | .left .listen | .left (.arrive _) | .left (.others _) => true
  -- the base loop polls when its batch has run, and then handles one event at a time
  | .left .poll => decide (s.2.polled s.2.loop_)
  | .left (.handleEvent len r) =>
    decide (s.2.polled s.2.loop_) && (s.hands len r).isNone
  | .both (.handleEvent len r) (.newConnection _ _ sockfd _) =>
    (s.hands len r).map Prod.fst == some sockfd
  | .right (.newConnection ..) => false
  -- all active channels have been handled before the next batch is swapped in
  | .right (.swap l) => l != s.2.loop_ || !s.1.active
  | .right _ => true
  | .both _ _ => false

/-- Every interleaving of the kernel, the base loop and the io loops. -/
def machine (L : Type*) [DecidableEq L] :
    Machine (ServingServer L) (Machine.Joint AcceptorLabel (ServerLabel L)) :=
  Acceptor.machine.sync (TcpServer.machine L) fun s j => together s j = true

variable {s t : ServingServer L} {j : Machine.Joint AcceptorLabel (ServerLabel L)}

/-- The connections of the server are those that were handed on. -/
def Linked (s : ServingServer L) : Prop := s.2.fds = s.1.handed.map Prod.fst

omit [DecidableEq L] in
theorem handed_handleEvent {len : BitVec 32} {r : AcceptResult} {u : Acceptor}
    (hst : s.1.step (.handleEvent len r) = some u) :
    u.handed = s.1.handed ++ (s.hands len r).toList := by
  obtain ⟨-, hu⟩ := Option.ite_none_right_eq_some.mp hst
  rw [← Option.some.inj hu]
  simp only [Acceptor.handleRead, hands]
  cases r with
  | error e => simp [Acceptor.accept]
  | accepted fd =>
    simp only [Acceptor.accept]
    cases s.1.backlog with
    | nil => simp
    | cons peer rest =>
      cases len.slt 0#32 with
      | true => simp
      | false => cases s.1.newConnectionCallback_ <;> simp

omit [DecidableEq L] in
/-- The kernel and the other channels hand nothing on. -/
theorem handed_of_not_handleEvent {l : AcceptorLabel} {u : Acceptor}
    (hl : ∀ len r, l ≠ .handleEvent len r) (hst : s.1.step l = some u) :
    u.handed = s.1.handed := by
  cases l with
  | handleEvent len r => exact absurd rfl (hl len r)
  | setNewConnectionCallback => exact Option.some.inj hst ▸ rfl
  | listen | poll | arrive | others =>
    obtain ⟨-, hu⟩ := Option.ite_none_right_eq_some.mp hst
    exact Option.some.inj hu ▸ rfl

theorem Linked.step (h : Linked s) (hst : (machine L).step s j = some t) : Linked t := by
  obtain ⟨u, v⟩ := t
  unfold Linked at h ⊢
  cases j with
  | left l =>
    obtain ⟨hj, hl, rfl⟩ := Machine.step_sync_left.mp hst
    by_cases hevent : ∃ len r, l = .handleEvent len r
    · obtain ⟨len, r, rfl⟩ := hevent
      simp only [together, Bool.and_eq_true, Option.isNone_iff_eq_none] at hj
      rw [h, handed_handleEvent hl, hj.2, Option.toList_none, List.append_nil]
    · simp only [not_exists] at hevent
      rw [h, handed_of_not_handleEvent hevent hl]
  | right k =>
    obtain ⟨hj, rfl, hk⟩ := Machine.step_sync_right.mp hst
    have hnone : k.sockfd? = none := by
      cases k with
      | newConnection => simp [together] at hj
      | _ => rfl
    rw [TcpServer.fds_step hk, hnone, Option.toList_none, List.append_nil, h]
  | both l k =>
    obtain ⟨hj, hl, hk⟩ := Machine.step_sync_both.mp hst
    obtain ⟨len, r, ioLoop, addr, sockfd, calls, rfl, rfl, hhands⟩ : ∃ len r ioLoop addr sockfd calls,
        l = .handleEvent len r ∧ k = .newConnection ioLoop addr sockfd calls ∧
          (s.hands len r).map Prod.fst = some sockfd := by
      cases l <;> cases k <;> simp_all [together]
    obtain ⟨⟨fd, peer⟩, hpair, rfl⟩ := Option.map_eq_some_iff.mp hhands
    rw [TcpServer.fds_step hk, h, handed_handleEvent hl, hpair]
    simp [ServerLabel.sockfd?]

theorem linked {ok : ServingServer L → Machine.Joint AcceptorLabel (ServerLabel L) → Prop}
    (h : (machine L).Reach ok s) : Linked s := by
  refine h.invariant ?_ fun _ _ _ hs _ hst => hs.step hst
  rintro ⟨u, v⟩ ⟨⟨p, addr, fd, -, -, rfl⟩, base, b, rfl⟩
  rfl

/-! ## Whoever connects is served -/

/-- The acceptor gets on with its connections, and every loop goes round. -/
structure KeepsServing
    (e : (machine L).Execution (Machine.Both Acceptor.Suits TcpServer.ClosesOnce)) : Prop where
  accepting : Acceptor.KeepsAccepting e.fst
  rounds : TcpServer.GoesRound e.snd

variable {e : (machine L).Execution (Machine.Both Acceptor.Suits TcpServer.ClosesOnce)}

/-- The server's `i`-th connection is the `i`-th that arrived. -/
theorem handed_of_accepted
    (h : (machine L).Reach (Machine.Both Acceptor.Suits TcpServer.ClosesOnce) s) {i : ℕ}
    {b : Accepted L} (hb : s.2.accepted[i]? = some b) :
    ∃ peer, s.1.handed[i]? = some (b.conn.channel_.fd_, peer) ∧
      s.1.arrived[i]? = some peer := by
  have hfd : (s.1.handed.map Prod.fst)[i]? = some b.conn.channel_.fd_ := by
    rw [← linked h, TcpServer.fds, List.getElem?_map, hb, Option.map_some]
  rw [List.getElem?_map, Option.map_eq_some_iff] at hfd
  obtain ⟨⟨fd, peer⟩, hhanded, rfl⟩ := hfd
  have hlen : i < (s.1.handed.map Prod.snd).length := by
    rw [List.length_map]
    exact (List.getElem?_eq_some_iff.mp hhanded).1
  refine ⟨peer, hhanded, ?_⟩
  rw [← (Acceptor.consistent h.fst).order, List.getElem?_append_left hlen, List.getElem?_map,
    hhanded, Option.map_some]

/-- Every connection that the kernel completes becomes a connection of the server, the `i`-th to
arrive its `i`-th, on the descriptor that `::accept` returned for it, and is established in
the end. -/
theorem served_eventually (hgo : KeepsServing e) {n i : ℕ} {peer : InetAddress}
    (hi : (e.state n).1.arrived[i]? = some peer) :
    ∃ m b, n ≤ m ∧ (e.state m).2.accepted[i]? = some b ∧
      (e.state m).1.handed[i]? = some (b.conn.channel_.fd_, peer) ∧
      b.log.head? = some .connectEstablished := by
  obtain ⟨m, hm, hcaught⟩ := hgo.accepting.catches_up n
  have hlt : i < (e.state n).1.arrived.length := (List.getElem?_eq_some_iff.mp hi).1
  have hacc : i < (e.state m).2.accepted.length := by
    have hlen := congrArg List.length (linked (e.reach m))
    rw [TcpServer.fds, List.length_map, List.length_map] at hlen
    have hcaught : (e.state n).1.arrived.length ≤ (e.state m).1.handed.length := hcaught
    omega
  obtain ⟨g, hg⟩ := (TcpServer.rests (e.snd.reach m)).2 i _ (List.getElem?_eq_getElem hacc)
  obtain ⟨k, b, hk, hb, hlog⟩ := hg.opens hgo.rounds
  obtain ⟨p, hhanded, harrived⟩ := handed_of_accepted (e.reach k) hb
  obtain ⟨later, hgrown⟩ : (e.state n).1.arrived <+: (e.state k).1.arrived :=
    Acceptor.arrived_stays (e := e.fst) (hm.trans hk)
  rw [← hgrown, List.getElem?_append_left hlt, hi] at harrived
  obtain rfl := Option.some.inj harrived
  exact ⟨k, b, hm.trans hk, hb, hhanded, hlog⟩

/-- `::accept` fails once while a connection waits. Then the connection goes to an io loop, and
from then on all loops go round without work. -/
theorem exists_keepsServing :
    ∃ e : (machine Bool).Execution (Machine.Both Acceptor.Suits TcpServer.ClosesOnce),
      KeepsServing e ∧ (e.state 4).1.arrived = [⟨(10, 0, 0, 1), 4000⟩] ∧
      (e.state 4).2.accepted = [] := by
  have hlen : 8 ≤ (16 : BitVec 32).toInt := by decide
  have along : (machine Bool).Along (Machine.Both Acceptor.Suits TcpServer.ClosesOnce)
      ({ acceptChannel_ := { addr := 1, fd_ := 3 } }, { loop_ := false })
      [.left .setNewConnectionCallback, .left .listen, .left (.arrive ⟨(10, 0, 0, 1), 4000⟩),
        .left .poll, .left (.handleEvent 16 (.error EMFILE)), .left .poll,
        .both (.handleEvent 16 (.accepted 7)) (.newConnection true 5 7 []), .right (.swap true),
        .right (.runFunctor true [])] :=
    .cons trivial rfl <| .cons rfl rfl <| .cons trivial rfl <| .cons trivial rfl <|
    .cons hlen rfl <| .cons trivial rfl <| .cons ⟨hlen, trivial⟩ rfl <|
    .cons trivial rfl <| .cons trivial rfl trivial
  obtain ⟨t, hrun, hquiet, hempty, halive, hidle⟩ : ∃ t : ServingServer Bool, (machine Bool).run
      ({ acceptChannel_ := { addr := 1, fd_ := 3 } }, { loop_ := false })
      [.left .setNewConnectionCallback, .left .listen, .left (.arrive ⟨(10, 0, 0, 1), 4000⟩),
        .left .poll, .left (.handleEvent 16 (.error EMFILE)), .left .poll,
        .both (.handleEvent 16 (.accepted 7)) (.newConnection true 5 7 []), .right (.swap true),
        .right (.runFunctor true [])] = some t ∧ t.1.active = false ∧ t.1.backlog = [] ∧
      t.2.accepted.all (·.conn.aborted.isNone) = true ∧
      ∀ l, t.2.polled l ∧ (t.2.queues l).pendingFunctors_ = [] := by
    refine ⟨_, rfl, rfl, rfl, rfl, ?_⟩
    rintro (_ | _) <;> exact ⟨⟨rfl, rfl⟩, rfl⟩
  have hinit : (machine Bool).init
      ({ acceptChannel_ := { addr := 1, fd_ := 3 } }, { loop_ := false }) :=
    ⟨⟨{}, 1, 3, rfl, rfl, rfl⟩, false, false, rfl⟩
  have hpoll : (machine Bool).step t (.left .poll) = some t := by
    refine Machine.step_sync_left.mpr ⟨?_, Acceptor.step_poll_idle hquiet hempty, rfl⟩
    simp [together, (hidle _).1]
  have hswap (l : Bool) : (machine Bool).step t (.right (.swap l)) = some t := by
    refine Machine.step_sync_right.mpr ⟨?_, rfl, TcpServer.step_swap_idle halive (hidle l).1
      (hidle l).2⟩
    simp [together, hquiet]
  let next (n : ℕ) : Machine.Joint AcceptorLabel (ServerLabel Bool) :=
    if n % 3 = 0 then .left .poll else .right (.swap (n % 3 == 1))
  let e := Machine.Execution.ofRun (fun u => u = t) (fun n _ => some (next n)) hinit along hrun rfl
    (by
      rintro n u j rfl hj
      obtain rfl := Option.some.inj hj
      simp only [next]
      split
      · exact ⟨trivial, u, hpoll, rfl⟩
      · exact ⟨trivial, u, hswap _, rfl⟩)
  have hstate : ∀ n, 9 ≤ n → e.state n = t := fun n hn =>
    Machine.Execution.state_ofRun (I := fun u => u = t) hn
  have hlabel : ∀ n, 9 ≤ n → e.label n = some (next n) := fun n hn =>
    Machine.Execution.label_ofRun hn
  have hleft : ∀ n, 9 ≤ n → e.fst.label n = (next n).left? := fun n hn =>
    congrArg (·.bind Machine.Joint.left?) (hlabel n hn)
  refine ⟨e, ⟨⟨?_, ?_, ?_⟩, ?_⟩, rfl, rfl⟩
  · intro n
    refine ⟨3 * (n + 9), by omega, ?_⟩
    rw [hleft _ (by omega)]
    simp [next, Machine.Joint.left?]
  · intro n hn
    by_cases h₆ : n ≤ 6
    · exact ⟨6, 16, _, h₆, rfl⟩
    · have hmid : ∀ n < 9, 6 < n → (e.state n).1.active = false := by
        simp only [e, Machine.Execution.ofRun]
        decide
      have hafter : (e.state n).1.active = false := by
        rcases Nat.lt_or_ge n 9 with h₉ | h₉
        · exact hmid n h₉ (by omega)
        · rw [hstate n h₉, hquiet]
      exact absurd hn (ne_true_of_eq_false hafter)
  · intro n hmany
    obtain ⟨k, len, r, hk, hl⟩ := hmany (n + 9) (by omega)
    rw [hleft k (by omega)] at hl
    simp only [next] at hl
    split at hl <;> simp [Machine.Joint.left?] at hl
  · intro l n
    refine ⟨3 * (n + 9) + if l then 1 else 2, by omega, ?_⟩
    have hright : e.snd.label (3 * (n + 9) + if l then 1 else 2) =
        (e.label (3 * (n + 9) + if l then 1 else 2)).bind Machine.Joint.right? := rfl
    rw [hright, hlabel _ (by omega)]
    cases l <;> simp [next, Machine.Joint.right?, Nat.add_mod]

theorem served_eventually_emfile :
    ∃ (e : (machine Bool).Execution (Machine.Both Acceptor.Suits TcpServer.ClosesOnce)) (m : ℕ)
      (b : Accepted Bool), (e.state 4).2.accepted = [] ∧ 4 ≤ m ∧
      (e.state m).2.accepted[0]? = some b ∧
      (e.state m).1.handed[0]? = some (b.conn.channel_.fd_, ⟨(10, 0, 0, 1), 4000⟩) ∧
      b.log.head? = some .connectEstablished := by
  obtain ⟨e, hgo, harrived, hnone⟩ := exists_keepsServing
  obtain ⟨m, b, h⟩ := served_eventually hgo (n := 4) (i := 0) (by rw [harrived]; rfl)
  exact ⟨e, m, b, hnone, h⟩

end ServingServer

end Muduo
