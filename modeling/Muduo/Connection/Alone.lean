import Muduo.Connection.Stream
import Muduo.Poller.Mirror

/-!
# A connection and the rest of its poller

All connections of a loop share one `EpollPoller`. A connection reaches only the slots
of its own descriptor there: what it does is what it would do with every other slot
empty, and the other slots are left as they were.
-/

namespace Muduo

/-! ## One slot of the poller -/

namespace EpollPoller

/-- The poller with every slot but one emptied. -/
def restrict (p : EpollPoller) (fd : Nat) : EpollPoller where
  channels_ x := if x = fd then p.channels_ x else none
  interest x := if x = fd then p.interest x else none

variable {p q : EpollPoller} {ch : Channel} {fd : Nat}

@[simp] theorem restrict_interest : (p.restrict fd).interest fd = p.interest fd := if_pos rfl

/-- Two pollers have the same slot for a descriptor. -/
theorem restrict_congr (hc : p.channels_ fd = q.channels_ fd) (hk : p.interest fd = q.interest fd) :
    p.restrict fd = q.restrict fd := by
  unfold restrict
  congr 1
  · funext x
    split
    · subst x
      exact hc
    · rfl
  · funext x
    split
    · subst x
      exact hk
    · rfl

theorem restrict_eq_empty (hc : p.channels_ fd = none) (hk : p.interest fd = none) :
    p.restrict fd = {} :=
  (restrict_congr (q := {}) hc hk).trans (by simp [restrict])

theorem restrict_update (op : EpollOp) :
    (p.restrict ch.fd_).update op ch none =
      ((p.update op ch none).1.restrict ch.fd_, (p.update op ch none).2) := by
  unfold update epoll_ctl
  rw [restrict_interest]
  have hother : ∀ (k : InterestSet) v, (fun x => if x = ch.fd_ then Function.update k ch.fd_ v x else none) =
      Function.update (fun x => if x = ch.fd_ then k x else none) ch.fd_ v := by
    intro k v
    funext x
    by_cases hx : x = ch.fd_
    · subst hx
      simp
    · simp [hx]
  cases op <;> cases p.interest ch.fd_ <;> simp [restrict, hother]

theorem restrict_setChannel (v : Option Nat) :
    ({ p with channels_ := Function.update p.channels_ fd v } : EpollPoller).restrict fd =
      { p.restrict fd with channels_ := Function.update (p.restrict fd).channels_ fd v } := by
  unfold restrict
  congr 1
  funext x
  by_cases hx : x = fd
  · subst hx
    simp
  · simp [hx]

/-- `updateChannel` reads and writes the channel's own slot only. -/
theorem restrict_updateChannel :
    (p.restrict ch.fd_).updateChannel ch none =
      ((p.updateChannel ch none).1.restrict ch.fd_, (p.updateChannel ch none).2) := by
  unfold updateChannel
  split_ifs
  · have h := @restrict_update { p with channels_ := Function.update p.channels_ ch.fd_ (some ch.addr) }
      { ch with index_ := .kAdded } .EPOLL_CTL_ADD
    simp only [restrict_setChannel] at h ⊢
    rw [h]
  · have h := @restrict_update p { ch with index_ := .kAdded } .EPOLL_CTL_ADD
    simp only at h ⊢
    rw [h]
  · rw [restrict_update]
  · rw [restrict_update]

theorem restrict_removeChannel :
    (p.restrict ch.fd_).removeChannel ch none =
      (p.removeChannel ch none).map fun r => (r.1.restrict ch.fd_, r.2) := by
  unfold removeChannel
  split
  · simp only [Except.map, ← restrict_setChannel]
    split
    · rw [restrict_update]
    · rfl
  · rfl

end EpollPoller

namespace Channel

variable {p : EpollPoller} {ch : Channel}

/-- An operation on a channel that works in the channel's own slot. -/
def Local (f : EpollPoller → Channel → Option Errno → EpollPoller × Channel) : Prop :=
  ∀ p ch, f (p.restrict ch.fd_) ch none =
    ((f p ch none).1.restrict (f p ch none).2.fd_, (f p ch none).2)

theorem local_update {g : Channel → Channel} (hg : ∀ ch, (g ch).fd_ = ch.fd_) :
    Local fun p ch fault => update p (g ch) fault := by
  intro p ch
  have hfd : (update p (g ch) none).2.fd_ = ch.fd_ := (update_sameObject p _ none).fd.trans (hg ch)
  have h := @EpollPoller.restrict_updateChannel p { g ch with addedToLoop_ := true }
  simp only [update] at hfd h ⊢
  rw [hfd, ← hg ch, h]

theorem local_enableReading : Local enableReading := local_update fun _ => rfl
theorem local_enableWriting : Local enableWriting := local_update fun _ => rfl
theorem local_disableWriting : Local disableWriting := local_update fun _ => rfl
theorem local_disableAll : Local disableAll := local_update fun _ => rfl

theorem restrict_remove :
    remove (p.restrict ch.fd_) ch none =
      (remove p ch none).map fun r => (r.1.restrict r.2.fd_, r.2) := by
  unfold remove
  split
  · have h := @EpollPoller.restrict_removeChannel p { ch with addedToLoop_ := false }
    simp only at h
    rw [h]
    cases hr : p.removeChannel { ch with addedToLoop_ := false } none with
    | error a => rfl
    | ok r =>
      have hfd : r.2.1.fd_ = ch.fd_ := (EpollPoller.removeChannel_sameObject hr).fd
      simp [Except.map, hfd]
  · rfl

end Channel

/-! ## What is recorded in a channel -/

/-- The channel is registered in one of the three ways, and `addedToLoop_` says whether the
poller knows it. -/
structure Settled (p : EpollPoller) (ch : Channel) : Prop where
  registered : Registered p ch
  added : ch.addedToLoop_ = true ↔ ch.index_ ≠ .kNew

namespace Settled

variable {p q : EpollPoller} {ch ch' : Channel}

theorem congr (h : Settled p ch) (hc : q.channels_ ch.fd_ = p.channels_ ch.fd_)
    (hk : q.interest ch.fd_ = p.interest ch.fd_) : Settled q ch :=
  ⟨h.registered.congr hc hk, h.added⟩

/-- A channel that is not added is unknown to the poller, and so is its descriptor. -/
theorem absent (h : Settled p ch) (ha : ch.addedToLoop_ = false) : Absent p ch :=
  h.registered.of_new (by simpa [ha] using h.added)

/-- An added channel is the poller's entry for its descriptor. -/
theorem channels (h : Settled p ch) (ha : ch.addedToLoop_ = true) :
    p.channels_ ch.fd_ = some ch.addr := by
  have hi := h.added.mp ha
  cases h.registered with
  | absent h => exact absurd h.index hi
  | watched h => exact h.channels
  | parked h => exact h.channels

/-- The flags of the channel's owner play no part in it. -/
theorem flags (h : Settled p ch) (handling tied : Bool) :
    Settled p { ch with eventHandling_ := handling, tied_ := tied } := by
  refine ⟨?_, h.added⟩
  cases h.registered with
  | absent h => exact .absent ⟨h.index, h.channels, h.interest⟩
  | watched h => exact .watched ⟨h.index, h.channels, h.interest⟩
  | parked h => exact .parked ⟨h.index, h.channels, h.interest⟩

theorem hasChannel_iff (h : Settled p ch) : p.hasChannel ch = true ↔ ch.addedToLoop_ = true := by
  rw [h.registered.hasChannel_iff, h.added]
  cases ch.index_ <;> simp

end Settled

namespace Channel

variable {p p' : EpollPoller} {ch ch' : Channel}

theorem added_update (p : EpollPoller) (ch : Channel) (fault : Option Errno) :
    (update p ch fault).2.addedToLoop_ = true ∧ (update p ch fault).2.index_ ≠ .kNew ∧
      (update p ch fault).2.eventHandling_ = ch.eventHandling_ := by
  unfold update EpollPoller.updateChannel
  split_ifs <;> grind

theorem added_remove {fault : Option Errno} (h : remove p ch fault = .ok (p', ch')) :
    ch'.addedToLoop_ = false ∧ ch'.index_ = .kNew ∧ ch'.eventHandling_ = ch.eventHandling_ := by
  obtain ⟨-, e, hr⟩ := remove_ok h
  unfold EpollPoller.removeChannel at hr
  split_ifs at hr
  · obtain ⟨-, rfl, -⟩ := Except.ok.inj hr
    exact ⟨rfl, rfl, rfl⟩
  · obtain ⟨-, rfl, -⟩ := Except.ok.inj hr
    exact ⟨rfl, rfl, rfl⟩

end Channel

namespace ChannelOp

variable {op : ChannelOp} {p p' : EpollPoller} {ch ch' : Channel}

theorem eventHandling_changed : (op.changed ch).eventHandling_ = ch.eventHandling_ := by
  cases op <;> rfl

theorem eventHandling_perform (h : op.perform p ch = .ok (p', ch')) :
    ch'.eventHandling_ = ch.eventHandling_ := by
  by_cases hop : op = .remove
  · subst hop
    exact (Channel.added_remove h).2.2
  · have hu := (Channel.added_update p (op.changed ch) none).2.2
    rw [perform_update hop h] at hu
    exact hu.trans eventHandling_changed

/-- Every operation but `remove` leaves the channel added. -/
theorem added_perform (hop : op ≠ .remove) (h : op.perform p ch = .ok (p', ch')) :
    ch'.addedToLoop_ = true ∧ ch'.index_ ≠ .kNew := by
  have hu := Channel.added_update p (op.changed ch) none
  rw [perform_update hop h] at hu
  exact ⟨hu.1, hu.2.1⟩

end ChannelOp

theorem Settled.perform {op : ChannelOp} {p p' : EpollPoller} {ch ch' : Channel}
    (h : Settled p ch) (hr : op.perform p ch = .ok (p', ch')) : Settled p' ch' := by
  refine ⟨h.registered.perform hr, ?_⟩
  by_cases hop : op = .remove
  · subst hop
    obtain ⟨ha, hi, -⟩ := Channel.added_remove hr
    simp [ha, hi]
  · obtain ⟨ha, hi⟩ := ChannelOp.added_perform hop hr
    simp [ha, hi]

/-! ## The functions of a connection -/

namespace TcpConnection

/-- The connection, with the rest of its poller emptied. -/
def alone (c : TcpConnection) : TcpConnection :=
  { c with poller := c.poller.restrict c.channel_.fd_ }

section

variable (c : TcpConnection) (data : List UInt8) (w : WriteResult)

@[simp] theorem state_alone : c.alone.state_ = c.state_ := rfl
@[simp] theorem channel_alone : c.alone.channel_ = c.channel_ := rfl
@[simp] theorem effects_alone : c.alone.effects = c.effects := rfl

theorem alone_emit (e : Effect) : c.alone.emit e = (c.emit e).alone := rfl
theorem alone_setState (s : StateE) : c.alone.setState s = (c.setState s).alone := rfl

theorem alone_onChannel {f} (hf : Channel.Local f) : c.alone.onChannel f = (c.onChannel f).alone := by
  have h := hf c.poller c.channel_
  simp only [onChannel, alone]
  rw [h]

theorem alone_shutdownInLoop : c.alone.shutdownInLoop = c.shutdownInLoop.alone := by
  unfold shutdownInLoop
  rw [channel_alone]
  split <;> rfl

theorem alone_writeDirect :
    c.alone.writeDirect data w = ((c.writeDirect data w).1.alone, (c.writeDirect data w).2) := by
  unfold writeDirect
  rw [channel_alone, show c.alone.outputBuffer_ = c.outputBuffer_ from rfl]
  split
  · cases w with
    | wrote n =>
      dsimp only
      rw [apply_ite alone]
      rfl
    | error errno => rfl
  · rfl

theorem alone_checkHighWater (n : Nat) : c.alone.checkHighWater n = (c.checkHighWater n).alone := by
  simp only [checkHighWater, apply_ite alone]
  rfl

theorem alone_bufferRest (s : SendProgress) :
    c.alone.bufferRest data s = (c.bufferRest data s).alone := by
  unfold bufferRest
  split
  · rw [alone_checkHighWater]
    dsimp only
    rw [show (c.checkHighWater s.remaining).alone.channel_ = (c.checkHighWater s.remaining).channel_
      from rfl]
    split
    · rfl
    · exact alone_onChannel { c.checkHighWater s.remaining with
        outputBuffer_ := (c.checkHighWater s.remaining).outputBuffer_ ++
          (data.drop s.nwrote).take s.remaining } Channel.local_enableWriting
  · rfl

theorem alone_sendInLoop : c.alone.sendInLoop data w = (c.sendInLoop data w).alone := by
  unfold sendInLoop
  rw [state_alone, alone_writeDirect, alone_bufferRest]
  split <;> rfl

theorem alone_userCall (u : UserCall) : c.alone.userCall u = (c.userCall u).alone := by
  cases u with
  | send data w =>
    simp only [userCall, send, state_alone, alone_sendInLoop]
    split <;> rfl
  | shutdown =>
    simp only [userCall, shutdown, state_alone, alone_setState, alone_shutdownInLoop]
    split <;> rfl
  | retrieve n => rfl

theorem alone_userCalls (calls : List UserCall) :
    c.alone.userCalls calls = (c.userCalls calls).alone := by
  induction calls generalizing c with
  | nil => rfl
  | cons u us ih =>
    simp only [userCalls, List.foldl_cons, alone_userCall] at ih ⊢
    exact ih (c.userCall u)

theorem alone_disconnect : c.alone.disconnect = c.disconnect.alone := by
  simp only [disconnect, alone_setState, alone_onChannel _ Channel.local_disableAll, alone_emit]

theorem alone_handleClose (calls : List UserCall) :
    c.alone.handleClose calls = (c.handleClose calls).alone := by
  simp only [handleClose, alone_disconnect, alone_userCalls, alone_emit]

theorem alone_removeChannel : c.alone.removeChannel = c.removeChannel.alone := by
  have h := @Channel.restrict_remove c.poller c.channel_
  simp only [removeChannel, channel_alone]
  rw [show c.alone.poller = c.poller.restrict c.channel_.fd_ from rfl, h]
  cases Channel.remove c.poller c.channel_ none with
  | ok r => rfl
  | error a => rfl

theorem alone_connectDestroyed (calls : List UserCall) :
    c.alone.connectDestroyed calls = (c.connectDestroyed calls).alone := by
  simp only [connectDestroyed, state_alone, alone_disconnect, alone_userCalls]
  rw [← alone_removeChannel]
  split <;> rfl

theorem alone_connectEstablished (calls : List UserCall) :
    c.alone.connectEstablished calls = (c.connectEstablished calls).alone := by
  simp only [connectEstablished, ← alone_userCalls, ← alone_emit,
    ← alone_onChannel _ Channel.local_enableReading]
  rfl

theorem alone_handleRead (r : ReadResult) (calls : List UserCall) :
    c.alone.handleRead r calls = (c.handleRead r calls).alone := by
  rcases r with (_ | ⟨b, bs⟩) | e
  · exact alone_handleClose c calls
  · simp only [handleRead, List.length_cons, gt_iff_lt, Nat.zero_lt_succ, if_true, ← alone_userCalls]
    rfl
  · rfl

theorem alone_stopWriting : c.alone.stopWriting = c.stopWriting.alone := by
  simp only [stopWriting, alone_onChannel _ Channel.local_disableWriting]
  rw [apply_ite alone]
  rfl

theorem alone_writeOut : c.alone.writeOut w = ((c.writeOut w).1.alone, (c.writeOut w).2) := by
  unfold writeOut
  rw [channel_alone]
  split
  · cases w with
    | wrote k =>
      dsimp only
      rw [show c.alone.outputBuffer_ = c.outputBuffer_ from rfl, alone_emit]
      generalize c.emit (.write (c.outputBuffer_.take (min k c.outputBuffer_.length))) = d
      rw [show d.alone.outputBuffer_ = d.outputBuffer_ from rfl]
      split
      · split
        · exact Prod.ext (alone_stopWriting { d with
            outputBuffer_ := d.outputBuffer_.drop (min k c.outputBuffer_.length) }) rfl
        · rfl
      · rfl
    | error errno => rfl
  · rfl

theorem alone_handleWrite : c.alone.handleWrite w = (c.handleWrite w).alone := by
  simp only [handleWrite, alone_writeOut, finishDrain, state_alone, alone_shutdownInLoop]
  split
  · split <;> rfl
  · rfl

/-- Whatever is called on a connection, the call sees only the connection's own slot. -/
theorem alone_streamStep (l : StreamStep) : c.alone.streamStep l = (c.streamStep l).alone := by
  cases l with
  | sendInLoop data w => exact alone_sendInLoop c data w
  | userCall u => exact alone_userCall c u
  | handleWrite w => exact alone_handleWrite c w
  | handleRead r => exact alone_handleRead c r []
  | shutdownInLoop => exact alone_shutdownInLoop c
  | handleClose calls => exact alone_handleClose c calls
  | connectDestroyed calls => exact alone_connectDestroyed c calls

end

/-! ## What a call leaves as it was -/

/-- `c` is what calls on `c₀` have made of it: the same channel, settled in the poller, and a
poller that has changed at the channel's descriptor only. -/
structure Confined (c₀ c : TcpConnection) : Prop where
  fd : c.channel_.fd_ = c₀.channel_.fd_
  addr : c.channel_.addr = c₀.channel_.addr
  handling : c.channel_.eventHandling_ = c₀.channel_.eventHandling_
  others : ∀ fd ≠ c₀.channel_.fd_, c.poller.channels_ fd = c₀.poller.channels_ fd ∧
    c.poller.interest fd = c₀.poller.interest fd
  settled : Settled c.poller c.channel_

namespace Confined

variable {c₀ c : TcpConnection}

theorem refl (h : Settled c.poller c.channel_) : Confined c c :=
  ⟨rfl, rfl, rfl, fun _ _ => ⟨rfl, rfl⟩, h⟩

/-- An operation on the channel stays within the channel's descriptor. -/
theorem onChannel (h : Confined c₀ c) (op : ChannelOp) {f}
    (hf : ∀ p ch, op.perform p ch = .ok (f p ch none)) : Confined c₀ (c.onChannel f) := by
  have hr := hf c.poller c.channel_
  obtain ⟨hfd, haddr⟩ := ChannelOp.perform_identity hr
  refine ⟨hfd.trans h.fd, haddr.trans h.addr, (ChannelOp.eventHandling_perform hr).trans h.handling,
    ?_, h.settled.perform hr⟩
  intro fd hne
  obtain ⟨hc, hk⟩ := ChannelOp.perform_of_ne hr (by rw [h.fd]; exact hne)
  exact ⟨hc.trans (h.others fd hne).1, hk.trans (h.others fd hne).2⟩

theorem stable (c₀ : TcpConnection) : Stable (Confined c₀) where
  emit := fun _ _ _ h => ⟨h.fd, h.addr, h.handling, h.others, h.settled⟩
  input := fun _ _ h => ⟨h.fd, h.addr, h.handling, h.others, h.settled⟩
  output := fun _ _ h => ⟨h.fd, h.addr, h.handling, h.others, h.settled⟩
  enableWriting := fun _ h => h.onChannel .enableWriting fun _ _ => rfl
  disableWriting := fun _ h => h.onChannel .disableWriting fun _ _ => rfl
  disconnecting := fun _ _ h => ⟨h.fd, h.addr, h.handling, h.others, h.settled⟩

theorem emit (h : Confined c₀ c) (e : Effect) : Confined c₀ (c.emit e) :=
  ⟨h.fd, h.addr, h.handling, h.others, h.settled⟩

theorem disconnect (h : Confined c₀ c) : Confined c₀ c.disconnect := by
  have hs : Confined c₀ (c.setState .kDisconnected) := ⟨h.fd, h.addr, h.handling, h.others, h.settled⟩
  exact (hs.onChannel .disableAll fun _ _ => rfl).emit _

theorem handleClose (h : Confined c₀ c) (calls : List UserCall) : Confined c₀ (c.handleClose calls) :=
  ((stable c₀).userCalls calls h.disconnect).emit _

theorem removeChannel (h : Confined c₀ c) : Confined c₀ c.removeChannel := by
  unfold TcpConnection.removeChannel
  split
  · have hr : ChannelOp.perform .remove c.poller c.channel_ = .ok (_, _) := ‹_›
    obtain ⟨hfd, haddr⟩ := ChannelOp.perform_identity hr
    refine ⟨hfd.trans h.fd, haddr.trans h.addr,
      (ChannelOp.eventHandling_perform hr).trans h.handling, ?_, h.settled.perform hr⟩
    intro fd hne
    obtain ⟨hc, hk⟩ := ChannelOp.perform_of_ne hr (by rw [h.fd]; exact hne)
    exact ⟨hc.trans (h.others fd hne).1, hk.trans (h.others fd hne).2⟩
  · exact ⟨h.fd, h.addr, h.handling, h.others, h.settled⟩

theorem connectDestroyed (h : Confined c₀ c) (calls : List UserCall) :
    Confined c₀ (c.connectDestroyed calls) := by
  unfold TcpConnection.connectDestroyed
  split
  · exact ((stable c₀).userCalls calls h.disconnect).removeChannel
  · exact h.removeChannel

theorem connectEstablished (h : Confined c₀ c) (calls : List UserCall) :
    Confined c₀ (c.connectEstablished calls) := by
  have ht : Confined c₀ { c.setState .kConnected with
      channel_ := { c.channel_ with tied_ := true } } := by
    exact ⟨h.fd, h.addr, h.handling, h.others, h.settled.flags _ true⟩
  refine (stable c₀).userCalls calls (emit ?_ _)
  exact ht.onChannel .enableReading fun _ _ => rfl

theorem handleRead (h : Confined c₀ c) (r : ReadResult) (calls : List UserCall) :
    Confined c₀ (c.handleRead r calls) := by
  rcases r with (_ | ⟨b, bs⟩) | e
  · exact h.handleClose calls
  · simp only [TcpConnection.handleRead, List.length_cons, gt_iff_lt, Nat.zero_lt_succ, if_true]
    exact (stable c₀).userCalls calls (((stable c₀).input c _ h).emit _)
  · exact h

theorem streamStep (h : Confined c₀ c) (l : StreamStep) : Confined c₀ (c.streamStep l) := by
  cases l with
  | sendInLoop data w => exact (stable c₀).sendInLoop data w h
  | userCall u => exact (stable c₀).userCall u h
  | handleWrite w => exact (stable c₀).handleWrite w h
  | handleRead r => exact h.handleRead r []
  | shutdownInLoop => exact (stable c₀).shutdownInLoop h
  | handleClose calls => exact h.handleClose calls
  | connectDestroyed calls => exact h.connectDestroyed calls

end Confined

/-- The step is a call of `connectDestroyed`, the one function that removes the channel. -/
def StreamStep.removes : StreamStep → Bool
  | .connectDestroyed _ => true
  | _ => false

theorem stable_added : Stable fun c => c.channel_.addedToLoop_ = true where
  emit := fun _ _ _ h => h
  input := fun _ _ h => h
  output := fun _ _ h => h
  enableWriting := fun _ _ => (Channel.added_update _ _ none).1
  disableWriting := fun _ _ => (Channel.added_update _ _ none).1
  disconnecting := fun _ _ h => h

/-- Once added to the loop a channel stays added until it is removed. -/
theorem added_streamStep {c : TcpConnection} (h : c.channel_.addedToLoop_ = true) {l : StreamStep}
    (hl : l.removes = false) : (c.streamStep l).channel_.addedToLoop_ = true := by
  have hclose (calls : List UserCall) : (c.handleClose calls).channel_.addedToLoop_ = true :=
    stable_added.userCalls calls (c := c.disconnect) (Channel.added_update _ _ none).1
  cases l with
  | sendInLoop data w => exact stable_added.sendInLoop data w h
  | userCall u => exact stable_added.userCall u h
  | handleWrite w => exact stable_added.handleWrite w h
  | handleRead r =>
    rcases r with (_ | ⟨b, bs⟩) | e
    · exact hclose []
    · exact h
    · exact h
  | shutdownInLoop => exact stable_added.shutdownInLoop h
  | handleClose calls => exact hclose calls
  | connectDestroyed calls => contradiction

end TcpConnection

end Muduo
