import Muduo.Library.Fairness
import Muduo.Poller.Registration
import Muduo.Server.Address

/-!
# The acceptor

`listen` opens the socket to connections and watches its channel for read events. The kernel
queues connections whose handshake is complete; every `handleRead` takes the oldest of them
with `::accept` and hands it to `newConnectionCallback_`, or closes it if there is none. When
`::accept` fails for want of descriptors the connection stays queued, and the next `poll`
reports the socket again.

`Socket::accept` does not initialise the length that it passes along with the buffer for the
peer's address, so the model takes it as part of the environment.
-/

namespace Muduo

def EMFILE : Errno := 24

/-- What `::accept` does: it takes a connection and opens `fd` for it, or it takes none. -/
inductive AcceptResult where
  | accepted (fd : Nat)
  | error (e : Errno)
  deriving DecidableEq, Repr

namespace InetAddress

/-- The bytes of a `sockaddr_in`, whose port and address are in network order. -/
def sockaddr (a : InetAddress) : List (BitVec 8) :=
  [2, 0, a.sin_port.extractLsb' 8 8, a.sin_port.extractLsb' 0 8,
    a.sin_addr.1, a.sin_addr.2.1, a.sin_addr.2.2.1, a.sin_addr.2.2.2, 0, 0, 0, 0, 0, 0, 0, 0]

def ofSockaddr (bytes : List (BitVec 8)) : InetAddress where
  sin_addr := (bytes.getD 4 0, bytes.getD 5 0, bytes.getD 6 0, bytes.getD 7 0)
  sin_port := bytes.getD 2 0 ++ bytes.getD 3 0

/-- The peer's address as it arrives in a zeroed buffer, of which the kernel writes at most
`len` bytes. -/
def copied (len : Nat) (a : InetAddress) : InetAddress :=
  ofSockaddr (a.sockaddr.take len ++ List.replicate (16 - len) 0)

/-- Every address arrives as it is exactly if the eight bytes that hold it are written. -/
theorem copied_eq_iff (len : Nat) : (∀ a, copied len a = a) ↔ 8 ≤ len := by
  constructor
  · intro h
    by_contra hlt
    have hlast := h ⟨(0, 0, 0, 1), 0⟩
    have hcases : len = 0 ∨ len = 1 ∨ len = 2 ∨ len = 3 ∨ len = 4 ∨ len = 5 ∨ len = 6 ∨
        len = 7 := by omega
    rcases hcases with rfl | rfl | rfl | rfl | rfl | rfl | rfl | rfl <;> revert hlast <;> decide
  · rintro hlen ⟨⟨a, b, c, d⟩, port⟩
    obtain ⟨k, rfl⟩ := Nat.exists_eq_add_of_le hlen
    have hport : port.extractLsb' 8 8 ++ port.extractLsb' 0 8 = port := by
      ext i
      grind
    simp [copied, sockaddr, ofSockaddr, Nat.add_comm 8 k, hport]

end InetAddress

/-- The acceptor with its poller, the kernel's side of the socket, and the history. -/
structure Acceptor where
  acceptChannel_ : Channel
  poller : EpollPoller := {}
  listenning_ : Bool := false
  newConnectionCallback_ : Bool := false
  /-- the channel is in `activeChannels_` -/
  active : Bool := false
  /-- the peers of the connections that wait to be accepted, the oldest first -/
  backlog : List InetAddress := []
  /-- the peers of all connections whose handshake was completed -/
  arrived : List InetAddress := []
  /-- the calls of `newConnectionCallback_` -/
  handed : List (Nat × InetAddress) := []
  /-- the descriptors that were closed for want of a callback -/
  closed : List Nat := []
  /-- the connections that `::accept` took and did not return -/
  dropped : List InetAddress := []

inductive AcceptorLabel where
  | setNewConnectionCallback
  | listen
  | poll
  /-- with the uninitialised length and the outcome of `::accept` -/
  | handleEvent (len : BitVec 32) (r : AcceptResult)
  -- the kernel completes a handshake
  | arrive (peer : InetAddress)
  -- other channels of the loop use the poller
  | others (p : EpollPoller)

namespace Acceptor

/-- `Socket::accept`: the descriptor with the peer's address, if the call succeeds, and the
socket's queue after it. A negative length is refused after the connection was taken. -/
def accept (len : BitVec 32) (s : Acceptor) : AcceptResult → Option (Nat × InetAddress) × Acceptor
  | .error _ => (none, s)
  | .accepted fd =>
    match s.backlog with
    | [] => (none, s)
    | peer :: rest =>
      if len.slt 0 then (none, { s with backlog := rest, dropped := s.dropped ++ [peer] })
      else (some (fd, peer.copied len.toNat), { s with backlog := rest })

def handleRead (s : Acceptor) (len : BitVec 32) (r : AcceptResult) : Acceptor :=
  match s.accept len r with
  | (some (connfd, peerAddr), s) =>
    if s.newConnectionCallback_ then { s with handed := s.handed ++ [(connfd, peerAddr)] }
    else { s with closed := s.closed ++ [connfd] }
  | (none, s) => s

def listen (s : Acceptor) : Acceptor :=
  let (p, ch) := Channel.enableReading s.poller s.acceptChannel_ none
  { s with listenning_ := true, poller := p, acceptChannel_ := ch }

/-- `epoll_wait` reports the socket while a connection waits. -/
def reported (s : Acceptor) : Bool :=
  match s.poller.interest s.acceptChannel_.fd_ with
  | some (m, _) => m.has EPOLLIN && !s.backlog.isEmpty
  | none => false

/-- The destructor, as far as the channel goes. -/
def destroy (s : Acceptor) : Except Assertion (EpollPoller × Channel) :=
  let (p, ch) := Channel.disableAll s.poller s.acceptChannel_ none
  Channel.remove p ch none

def step (s : Acceptor) : AcceptorLabel → Option Acceptor
  | .setNewConnectionCallback => some { s with newConnectionCallback_ := true }
  | .listen => if s.active = false then some s.listen else none
  | .poll => if s.active = false then some { s with active := s.reported } else none
  | .handleEvent len r =>
    if s.active = true then some ({ s with active := false }.handleRead len r) else none
  | .arrive peer =>
    if s.listenning_ = true then
      some { s with backlog := s.backlog ++ [peer], arrived := s.arrived ++ [peer] }
    else none
  | .others p =>
    if p.channels_ s.acceptChannel_.fd_ = s.poller.channels_ s.acceptChannel_.fd_ ∧
        p.interest s.acceptChannel_.fd_ = s.poller.interest s.acceptChannel_.fd_ then
      some { s with poller := p }
    else none

/-- An acceptor as constructed, whose descriptor the poller does not know. -/
def machine : Machine Acceptor AcceptorLabel where
  init s := ∃ p addr fd, p.channels_ fd = none ∧ p.interest fd = none ∧
    s = { acceptChannel_ := { addr := addr, fd_ := fd }, poller := p }
  step := step

/-- The server sets its callback before it listens, and the length happens to be large enough
for an address. -/
def Suits (s : Acceptor) : AcceptorLabel → Prop
  | .listen => s.newConnectionCallback_ = true
  | .handleEvent len _ => 8 ≤ len.toInt
  | _ => True

/-! ## The steps as a relation -/

/-- `handleRead` takes the oldest connection or changes nothing. -/
theorem handleRead_cases {s : Acceptor} {len : BitVec 32} {r : AcceptResult}
    (hlen : 8 ≤ len.toInt) (hcb : s.newConnectionCallback_ = true) :
    (∃ fd peer rest, r = .accepted fd ∧ s.backlog = peer :: rest ∧
      s.handleRead len r = { s with backlog := rest, handed := s.handed ++ [(fd, peer)] }) ∨
    (∀ fd, r = .accepted fd → s.backlog = []) ∧ s.handleRead len r = s := by
  have hneg : len.slt 0#32 = false := by
    rw [BitVec.slt_eq_decide]
    simp
    omega
  have hnat : 8 ≤ len.toNat := by
    have := BitVec.toInt_eq_toNat_cond len
    split at this <;> omega
  cases r with
  | error e => exact .inr ⟨by simp, rfl⟩
  | accepted fd =>
    cases hb : s.backlog with
    | nil => exact .inr ⟨fun _ _ => rfl, by simp [handleRead, accept, hb]⟩
    | cons peer rest =>
      refine .inl ⟨fd, peer, rest, rfl, rfl, ?_⟩
      have hpeer := (InetAddress.copied_eq_iff len.toNat).mpr hnat peer
      simp [handleRead, accept, hb, hneg, hcb, hpeer]

/-- Every way to move when the steps suit. -/
inductive Steps (s : Acceptor) : AcceptorLabel → Acceptor → Prop where
  | setNewConnectionCallback :
      Steps s .setNewConnectionCallback { s with newConnectionCallback_ := true }
  | listen : s.newConnectionCallback_ = true → Steps s .listen s.listen
  | poll : Steps s .poll { s with active := s.reported }
  | taken {len : BitVec 32} {fd : Nat} {peer : InetAddress} {rest : List InetAddress} :
      s.active = true → s.backlog = peer :: rest →
      Steps s (.handleEvent len (.accepted fd))
        { s with active := false, backlog := rest, handed := s.handed ++ [(fd, peer)] }
  | failed {len : BitVec 32} {r : AcceptResult} : s.active = true →
      (∀ fd, r = .accepted fd → s.backlog = []) →
      Steps s (.handleEvent len r) { s with active := false }
  | arrive {peer : InetAddress} : s.listenning_ = true →
      Steps s (.arrive peer)
        { s with backlog := s.backlog ++ [peer], arrived := s.arrived ++ [peer] }
  | others {p : EpollPoller} :
      p.channels_ s.acceptChannel_.fd_ = s.poller.channels_ s.acceptChannel_.fd_ →
      p.interest s.acceptChannel_.fd_ = s.poller.interest s.acceptChannel_.fd_ →
      Steps s (.others p) { s with poller := p }

variable {s t : Acceptor} {l : AcceptorLabel}

/-- Before it listens the acceptor is unknown to the poller and no connection arrives;
afterwards its channel is watched for read events. -/
structure Consistent (s : Acceptor) : Prop where
  before : s.listenning_ = false → Absent s.poller s.acceptChannel_ ∧ s.active = false ∧
    s.arrived = []
  after : s.listenning_ = true → Watched s.poller s.acceptChannel_ ∧
    s.acceptChannel_.events_.has EPOLLIN = true ∧ s.newConnectionCallback_ = true
  /-- the event that was reported has not been lost -/
  waits : s.active = true → s.backlog ≠ []
  order : s.handed.map Prod.snd ++ s.backlog = s.arrived
  kept : s.closed = [] ∧ s.dropped = []

theorem step_cases (h : Consistent s) (hok : Suits s l) (hst : s.step l = some t) :
    Steps s l t := by
  cases l <;> simp only [step, Option.ite_none_right_eq_some, Option.some.injEq] at hst
  case setNewConnectionCallback => exact hst ▸ .setNewConnectionCallback
  case listen => exact hst.2 ▸ .listen hok
  case poll => exact hst.2 ▸ .poll
  case handleEvent len r =>
    obtain ⟨hactive, rfl⟩ := hst
    have hcb : s.newConnectionCallback_ = true := by
      cases hl : s.listenning_ with
      | false => simp [(h.before hl).2.1] at hactive
      | true => exact (h.after hl).2.2
    have hcb' : ({ s with active := false } : Acceptor).newConnectionCallback_ = true := hcb
    rcases handleRead_cases (r := r) hok hcb' with ⟨fd, peer, rest, rfl, hb, he⟩ | ⟨hnone, he⟩
    · rw [he]
      exact .taken hactive hb
    · rw [he]
      exact .failed hactive hnone
  case arrive => exact hst.2 ▸ .arrive hst.1
  case others => exact hst.2 ▸ .others hst.1.1 hst.1.2

/-! ## What a run keeps -/

theorem watched_listen (h : Consistent s) :
    Watched s.listen.poller s.listen.acceptChannel_ ∧
      s.listen.acceptChannel_.events_.has EPOLLIN = true := by
  have hread : (s.acceptChannel_.events_ ||| Channel.kReadEvent).has EPOLLIN = true := by
    rw [EventMask.has_or]
    exact Bool.or_eq_true_iff.mpr (.inr (by decide))
  have hsame := Channel.update_sameObject s.poller
    { s.acceptChannel_ with events_ := s.acceptChannel_.events_ ||| Channel.kReadEvent } none
  refine ⟨?_, (congrArg (EventMask.has · EPOLLIN) hsame.events).trans hread⟩
  cases hl : s.listenning_ with
  | false =>
    obtain ⟨hi, hc, hk⟩ := (h.before hl).1
    exact Channel.update_absent ⟨hi, hc, hk⟩
  | true => exact Channel.update_watched (h.after hl).1 (EventMask.ne_zero_of_has hread)

theorem Consistent.step (h : Consistent s) (hok : Suits s l) (hst : s.step l = some t) :
    Consistent t := by
  have hsteps := step_cases h hok hst
  obtain ⟨hb, ha, hw, ho, hk⟩ := h
  cases hsteps with
  | setNewConnectionCallback => exact ⟨hb, fun hl => ⟨(ha hl).1, (ha hl).2.1, rfl⟩, hw, ho, hk⟩
  | listen hcb =>
    obtain ⟨hwatched, hin⟩ := watched_listen ⟨hb, ha, hw, ho, hk⟩
    exact ⟨fun hl => by simp [listen] at hl, fun _ => ⟨hwatched, hin, hcb⟩, hw, ho, hk⟩
  | poll =>
    refine ⟨fun hl => ?_, ha, ?_, ho, hk⟩
    · obtain ⟨habs, -, harr⟩ := hb hl
      exact ⟨habs, by simp [reported, habs.interest], harr⟩
    · intro hr
      simp only [reported] at hr
      split at hr
      · simpa using (Bool.and_eq_true_iff.mp hr).2
      · contradiction
  | taken _ hcons =>
    refine ⟨fun hl => ⟨(hb hl).1, rfl, (hb hl).2.2⟩, ha, by simp, ?_, hk⟩
    rw [← ho, hcons]
    simp
  | failed => exact ⟨fun hl => ⟨(hb hl).1, rfl, (hb hl).2.2⟩, ha, by simp, ho, hk⟩
  | arrive hl =>
    refine ⟨fun hl' => by simp [hl] at hl', ha, fun _ => by simp, ?_, hk⟩
    rw [← List.append_assoc, ho]
  | others hc hi =>
    refine ⟨fun hl => ⟨⟨(hb hl).1.index, ?_, ?_⟩, (hb hl).2⟩, fun hl => ⟨⟨?_, ?_, ?_⟩, (ha hl).2⟩,
      hw, ho, hk⟩
    · exact hc.trans (hb hl).1.channels
    · exact hi.trans (hb hl).1.interest
    · exact (ha hl).1.index
    · exact hc.trans (ha hl).1.channels
    · exact hi.trans (ha hl).1.interest

theorem consistent (h : machine.Reach Suits s) : Consistent s := by
  refine h.invariant ?_ fun _ _ _ hs hok hst => hs.step hok hst
  rintro s ⟨p, addr, fd, hc, hi, rfl⟩
  exact ⟨fun _ => ⟨⟨rfl, hc, hi⟩, rfl, rfl⟩, by simp, by simp, rfl, rfl, rfl⟩

/-- The destructor takes the channel out of the poller, also where `listen` was never called
and `disableAll` first puts it there. -/
theorem destroy_absent (h : Consistent s) :
    ∃ p ch, s.destroy = .ok (p, ch) ∧ Absent p ch ∧ ch.fd_ = s.acceptChannel_.fd_ := by
  have hnone : (Channel.disableAll s.poller s.acceptChannel_ none).2.isNoneEvent = true := by
    simp [Channel.isNoneEvent, Channel.disableAll, (Channel.update_sameObject ..).events]
  have hfd : (Channel.disableAll s.poller s.acceptChannel_ none).2.fd_ = s.acceptChannel_.fd_ :=
    (Channel.update_sameObject ..).fd
  cases hl : s.listenning_ with
  | false =>
    obtain ⟨hi, hc, hk⟩ := (h.before hl).1
    have hw : Watched (Channel.disableAll s.poller s.acceptChannel_ none).1
        (Channel.disableAll s.poller s.acceptChannel_ none).2 := Channel.update_absent ⟨hi, hc, hk⟩
    obtain ⟨p, ch, hr, habs, hsame⟩ := Channel.remove_watched hw hnone
    exact ⟨p, ch, hr, habs, hsame.fd.trans hfd⟩
  | true =>
    have hp := Channel.disableAll_watched (h.after hl).1
    obtain ⟨p, ch, hr, habs, hsame⟩ := Channel.remove_parked hp hnone
    exact ⟨p, ch, hr, habs, hsame.fd.trans hfd⟩

/-- Connections are handed on in the order in which they arrived, each once and with its
peer's address, however often `::accept` fails in between. The acceptor can be destroyed at
any time, and leaves nothing in the poller. -/
theorem handed_in_order (h : machine.Reach Suits s) :
    s.handed.map Prod.snd ++ s.backlog = s.arrived ∧ s.closed = [] ∧ s.dropped = [] ∧
      ∃ p ch, s.destroy = .ok (p, ch) ∧ p.channels_ s.acceptChannel_.fd_ = none ∧
        p.interest s.acceptChannel_.fd_ = none := by
  have hc := consistent h
  obtain ⟨p, ch, hd, habs, hfd⟩ := destroy_absent hc
  exact ⟨hc.order, hc.kept.1, hc.kept.2, p, ch, hd, hfd ▸ habs.channels, hfd ▸ habs.interest⟩

instance (s : Acceptor) : DecidablePred (Suits s)
  | .listen => decEq s.newConnectionCallback_ true
  | .handleEvent len _ => Int.decLe 8 len.toInt
  | .setNewConnectionCallback | .poll | .arrive _ | .others _ => instDecidableTrue

/-- The process runs out of descriptors while two connections wait. -/
theorem handed_in_order_emfile :
    ∃ s, machine.runIf Suits { acceptChannel_ := { addr := 1, fd_ := 3 } }
        [.setNewConnectionCallback, .listen, .arrive ⟨(10, 0, 0, 1), 4000⟩,
          .arrive ⟨(10, 0, 0, 2), 4001⟩, .poll, .handleEvent 16 (.error EMFILE), .poll,
          .handleEvent 16 (.accepted 7)] = some s ∧
      s.handed.map Prod.snd ++ s.backlog = s.arrived ∧ s.closed = [] ∧ s.dropped = [] ∧
      ∃ p ch, s.destroy = .ok (p, ch) ∧ p.channels_ s.acceptChannel_.fd_ = none ∧
        p.interest s.acceptChannel_.fd_ = none := by
  refine Machine.exists_runIf ?_ (by decide) fun _ _ h => handed_in_order h
  exact ⟨{}, 1, 3, rfl, rfl, rfl⟩

/-- A length that happens to be negative costs a connection. -/
example : (machine.run { acceptChannel_ := { addr := 1, fd_ := 3 } }
    [.setNewConnectionCallback, .listen, .arrive ⟨(10, 0, 0, 1), 4000⟩, .poll,
      .handleEvent 0x80000000 (.accepted 7)]).map (·.dropped) =
    some [⟨(10, 0, 0, 1), 4000⟩] := by
  decide

/-! ## Every connection is accepted -/

theorem arrived_step (h : Consistent s) (hok : Suits s l) (hst : s.step l = some t) :
    s.arrived <+: t.arrived := by
  cases step_cases h hok hst with
  | arrive => exact List.prefix_append _ _
  | _ => exact List.prefix_rfl

theorem handed_step (h : Consistent s) (hok : Suits s l) (hst : s.step l = some t) :
    s.handed.length ≤ t.handed.length := by
  cases step_cases h hok hst with
  | taken => simp
  | _ => exact le_rfl

/-- `::accept` succeeds. -/
def Accepts (l : AcceptorLabel) : Prop := ∃ len fd, l = .handleEvent len (.accepted fd)

theorem handed_of_accepts (h : Consistent s) (hok : Suits s l) (hst : s.step l = some t)
    (hl : Accepts l) : t.handed.length = s.handed.length + 1 := by
  obtain ⟨len, fd, rfl⟩ := hl
  cases step_cases h hok hst with
  | taken => simp
  | failed hactive hnone => exact absurd (hnone fd rfl) (h.waits hactive)

/-- Level-triggered: as long as a connection waits, every `poll` reports the socket. -/
theorem reported_of_waiting (h : Consistent s) (hb : s.backlog ≠ []) : s.reported = true := by
  have hl : s.listenning_ = true := by
    by_contra hl
    have harr := (h.before (by simpa using hl)).2.2
    rw [← h.order] at harr
    exact hb (List.append_eq_nil_iff.mp harr).2
  obtain ⟨hw, hin, -⟩ := h.after hl
  simp [reported, hw.interest, hin, hb]

/-- The loop goes on to poll and to dispatch, and if `::accept` is called again and again, it
succeeds in the end. -/
structure KeepsAccepting (e : machine.Execution Suits) : Prop where
  polls : ∀ n, ∃ m, n ≤ m ∧ e.label m = some .poll
  handles : ∀ n, (e.state n).active = true →
    ∃ m len r, n ≤ m ∧ e.label m = some (.handleEvent len r)
  accepts : ∀ n, (∀ m, n ≤ m → ∃ k len r, m ≤ k ∧ e.label k = some (.handleEvent len r)) →
    ∃ m l, n ≤ m ∧ e.label m = some l ∧ Accepts l

variable {e : machine.Execution Suits}

theorem arrived_stays {n m : ℕ} (hm : n ≤ m) : (e.state n).arrived <+: (e.state m).arrived :=
  e.stays (J := fun s => (e.state n).arrived <+: s.arrived)
    (fun _ _ _ hs hok hst h => h.trans (arrived_step (consistent hs) hok hst)) hm List.prefix_rfl

/-- As many connections as have arrived are handed on in the end, whatever arrives later. -/
theorem KeepsAccepting.catches_up (hgo : KeepsAccepting e) (n : ℕ) :
    ∃ m, n ≤ m ∧ (e.state n).arrived.length ≤ (e.state m).handed.length := by
  refine e.eventually (J := fun _ => True)
    (P := fun s => (e.state n).arrived.length ≤ s.handed.length) (fun _ => Accepts)
    (fun s => (e.state n).arrived.length - s.handed.length) ?_ ?_ ?_ trivial ?_
  · exact fun _ _ _ _ _ _ _ => trivial
  · intro s l t hs hok hst _ hlt _ hl
    have := handed_of_accepts (consistent hs) hok hst hl
    omega
  · intro s l t hs hok hst _ _ _
    have := handed_step (consistent hs) hok hst
    omega
  · intro k hk hnever
    refine hgo.accepts k fun m hm => ?_
    obtain ⟨i, hi, hpoll⟩ := hgo.polls m
    have hc := consistent (e.reach i)
    have hb : (e.state i).backlog ≠ [] := by
      have hlt := hnever i (by omega)
      have hle := (arrived_stays (e := e) (hk.trans (hm.trans hi))).length_le
      have hlen := congrArg List.length hc.order
      rw [List.length_append, List.length_map] at hlen
      rw [← List.length_pos_iff]
      omega
    have hactive : (e.state (i + 1)).active = true := by
      have hnext := e.step_of_label hpoll
      obtain ⟨-, hstate⟩ := Option.ite_none_right_eq_some.mp hnext.2
      rw [← Option.some.inj hstate]
      exact reported_of_waiting hc hb
    obtain ⟨j, len, r, hj, hl⟩ := hgo.handles (i + 1) hactive
    exact ⟨j, len, r, by omega, hl⟩

/-- Every connection that has arrived is handed on in the end. -/
theorem handed_eventually (hgo : KeepsAccepting e) (n : ℕ) :
    ∃ m, n ≤ m ∧ (e.state n).arrived <+: (e.state m).handed.map Prod.snd := by
  obtain ⟨m, hm, hlen⟩ := hgo.catches_up n
  have hhanded : (e.state m).handed.map Prod.snd <+: (e.state m).arrived :=
    ⟨_, (consistent (e.reach m)).order⟩
  refine ⟨m, hm, List.prefix_of_prefix_length_le (arrived_stays hm) hhanded ?_⟩
  rwa [List.length_map]

/-- A loop whose acceptor has nothing to do polls and changes nothing. -/
theorem step_poll_idle (ha : s.active = false) (hb : s.backlog = []) : s.step .poll = some s := by
  have hr : s.reported = false := by
    rw [reported]
    split <;> simp [hb]
  rw [step, if_pos ha, hr, ← ha]

/-- `::accept` fails once while a connection waits, and from then on the loop polls idle. -/
theorem exists_keepsAccepting :
    ∃ e : machine.Execution Suits, KeepsAccepting e ∧
      (e.state 6).arrived = [⟨(10, 0, 0, 1), 4000⟩] ∧ (e.state 6).handed = [] := by
  obtain ⟨t, hrun, ha, hb⟩ : ∃ t, machine.run { acceptChannel_ := { addr := 1, fd_ := 3 } }
      [.setNewConnectionCallback, .listen, .arrive ⟨(10, 0, 0, 1), 4000⟩, .poll,
        .handleEvent 16 (.error EMFILE), .poll, .handleEvent 16 (.accepted 7)] = some t ∧
      t.active = false ∧ t.backlog = [] := ⟨_, rfl, rfl, rfl⟩
  have along : machine.Along Suits { acceptChannel_ := { addr := 1, fd_ := 3 } }
      [.setNewConnectionCallback, .listen, .arrive ⟨(10, 0, 0, 1), 4000⟩, .poll,
        .handleEvent 16 (.error EMFILE), .poll, .handleEvent 16 (.accepted 7)] :=
    Machine.along_of_runIf (by decide)
  have hinit : machine.init { acceptChannel_ := { addr := 1, fd_ := 3 } } :=
    ⟨{}, 1, 3, rfl, rfl, rfl⟩
  let I : Acceptor → Prop := fun u => u.active = false ∧ u.backlog = []
  refine ⟨.ofRun I (fun _ _ => some .poll) hinit along hrun ⟨ha, hb⟩ ?_, ⟨?_, ?_, ?_⟩, rfl, rfl⟩
  · rintro n u l hu hl
    obtain rfl := Option.some.inj hl
    exact ⟨trivial, u, step_poll_idle hu.1 hu.2, hu⟩
  · intro n
    exact ⟨n + 7, by omega, Machine.Execution.label_ofRun (by simp)⟩
  · intro n hn
    by_cases h : n ≤ 6
    · exact ⟨6, _, _, h, rfl⟩
    · rw [(Machine.Execution.state_ofRun (I := I) (by simp; omega)).1] at hn
      contradiction
  · intro n hmany
    obtain ⟨k, len, r, hk, hl⟩ := hmany (n + 7) (by omega)
    rw [Machine.Execution.label_ofRun (by simp; omega)] at hl
    cases hl

theorem handed_eventually_emfile :
    ∃ e : machine.Execution Suits, (e.state 6).handed = [] ∧
      ∃ m, 6 ≤ m ∧ (e.state 6).arrived <+: (e.state m).handed.map Prod.snd := by
  obtain ⟨e, hgo, -, hnone⟩ := exists_keepsAccepting
  exact ⟨e, hnone, handed_eventually hgo 6⟩

end Acceptor

end Muduo
