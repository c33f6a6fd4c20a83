import Muduo.Connection.Basic
import Muduo.Poller.Registration

/-!
# The phases of a connection

A connection is fresh, then open, then closed, then removed, and each phase says at
once what `state_`, the channel and the poller look like. Sending, half-closing and
draining stay inside a phase: they are sequences of a few primitive updates, and a
property kept by those is kept by all of them.
-/

namespace Muduo

namespace Channel

variable (p : EpollPoller) (ch : Channel) (fault : Option Errno)

@[simp] theorem isWriting_enableWriting : (enableWriting p ch fault).2.isWriting = true := by
  rw [isWriting, enableWriting, (update_sameObject p _ fault).events, EventMask.has_or]
  simp [kWriteEvent, EPOLLOUT, EventMask.has]

@[simp] theorem isWriting_disableWriting : (disableWriting p ch fault).2.isWriting = false := by
  rw [isWriting, disableWriting, (update_sameObject p _ fault).events]
  exact EventMask.has_clear _ _

@[simp] theorem isReading_enableWriting :
    (enableWriting p ch fault).2.isReading = ch.isReading := by
  rw [isReading, enableWriting, (update_sameObject p _ fault).events, EventMask.has_or]
  simp [isReading, kWriteEvent, kReadEvent, EPOLLOUT, EPOLLIN, EPOLLPRI, EventMask.has]

@[simp] theorem isReading_disableWriting :
    (disableWriting p ch fault).2.isReading = ch.isReading := by
  rw [isReading, disableWriting, (update_sameObject p _ fault).events]
  exact EventMask.has_clear_of_disjoint _ (by decide)

@[simp] theorem isReading_enableReading : (enableReading p ch fault).2.isReading = true := by
  rw [isReading, enableReading, (update_sameObject p _ fault).events, EventMask.has_or]
  simp [kReadEvent, EPOLLIN, EPOLLPRI, EventMask.has]

@[simp] theorem isWriting_enableReading :
    (enableReading p ch fault).2.isWriting = ch.isWriting := by
  rw [isWriting, enableReading, (update_sameObject p _ fault).events, EventMask.has_or]
  simp [isWriting, kWriteEvent, kReadEvent, EPOLLOUT, EPOLLIN, EPOLLPRI, EventMask.has]

@[simp] theorem events_disableAll : (disableAll p ch fault).2.events_ = kNoneEvent :=
  (update_sameObject p _ fault).events

variable {p ch}

theorem enableReading_absent (h : Absent p ch) :
    Watched (enableReading p ch none).1 (enableReading p ch none).2 :=
  update_absent ⟨h.index, h.channels, h.interest⟩

theorem enableWriting_watched (h : Watched p ch) :
    Watched (enableWriting p ch none).1 (enableWriting p ch none).2 := by
  refine update_watched h ?_
  refine EventMask.ne_zero_of_has (r := kWriteEvent) ?_
  rw [EventMask.has_or]
  simp [EventMask.has, kWriteEvent, EPOLLOUT]

/-- A channel that reads stays in epoll when it stops writing. -/
theorem disableWriting_watched (h : Watched p ch) (hr : ch.isReading = true) :
    Watched (disableWriting p ch none).1 (disableWriting p ch none).2 := by
  refine update_watched h ?_
  refine EventMask.ne_zero_of_has (r := kReadEvent) ?_
  rwa [EventMask.has_clear_of_disjoint _ (by decide)]

end Channel

/-- An effect on the socket or on the loop's queue, and no call back to the user. -/
def Effect.quiet : Effect → Bool
  | .connectionCallback _ | .messageCallback _ | .closeCallback => false
  | .queueWriteComplete | .queueHighWaterMark _ | .write _ | .writeError _ | .shutdownWrite => true

/-- An effect of handing bytes to the socket. -/
def Effect.sends : Effect → Bool
  | .queueWriteComplete | .queueHighWaterMark _ | .write _ | .writeError _ => true
  | .connectionCallback _ | .messageCallback _ | .closeCallback | .shutdownWrite => false

theorem Effect.quiet_of_sends {e : Effect} (h : e.sends = true) : e.quiet = true := by
  cases e <;> grind [Effect.sends, Effect.quiet]

namespace TcpConnection

/-! ## What the primitive updates touch -/

section

variable (c : TcpConnection)
  (f : EpollPoller → Channel → Option Errno → EpollPoller × Channel)

@[simp] theorem state_emit (e : Effect) : (c.emit e).state_ = c.state_ := rfl
@[simp] theorem channel_emit (e : Effect) : (c.emit e).channel_ = c.channel_ := rfl
@[simp] theorem poller_emit (e : Effect) : (c.emit e).poller = c.poller := rfl
@[simp] theorem inputBuffer_emit (e : Effect) : (c.emit e).inputBuffer_ = c.inputBuffer_ := rfl
@[simp] theorem outputBuffer_emit (e : Effect) : (c.emit e).outputBuffer_ = c.outputBuffer_ := rfl
@[simp] theorem aborted_emit (e : Effect) : (c.emit e).aborted = c.aborted := rfl
@[simp] theorem effects_emit (e : Effect) : (c.emit e).effects = c.effects ++ [e] := rfl

@[simp] theorem state_setState (s : StateE) : (c.setState s).state_ = s := rfl
@[simp] theorem channel_setState (s : StateE) : (c.setState s).channel_ = c.channel_ := rfl
@[simp] theorem poller_setState (s : StateE) : (c.setState s).poller = c.poller := rfl
@[simp] theorem outputBuffer_setState (s : StateE) :
    (c.setState s).outputBuffer_ = c.outputBuffer_ := rfl
@[simp] theorem effects_setState (s : StateE) : (c.setState s).effects = c.effects := rfl
@[simp] theorem aborted_setState (s : StateE) : (c.setState s).aborted = c.aborted := rfl

@[simp] theorem state_onChannel : (c.onChannel f).state_ = c.state_ := rfl
@[simp] theorem outputBuffer_onChannel : (c.onChannel f).outputBuffer_ = c.outputBuffer_ := rfl
@[simp] theorem effects_onChannel : (c.onChannel f).effects = c.effects := rfl
@[simp] theorem aborted_onChannel : (c.onChannel f).aborted = c.aborted := rfl

@[simp] theorem effects_setEventHandling (b : Bool) :
    (c.setEventHandling b).effects = c.effects := rfl

end

/-! ## Properties that sending and draining keep -/

/-- A property that none of the primitive updates behind `sendInLoop` and the draining of
the buffer can falsify. -/
structure StableSending (P : TcpConnection → Prop) : Prop where
  emit : ∀ c e, e.sends = true → P c → P (c.emit e)
  output : ∀ c b, P c → P { c with outputBuffer_ := b }
  enableWriting : ∀ c, P c → P (c.onChannel Channel.enableWriting)
  disableWriting : ∀ c, P c → P (c.onChannel Channel.disableWriting)

/-- The same for `send`, `shutdown`, `retrieve` and `handleWrite`. -/
structure Stable (P : TcpConnection → Prop) : Prop where
  emit : ∀ c e, e.quiet = true → P c → P (c.emit e)
  input : ∀ c b, P c → P { c with inputBuffer_ := b }
  output : ∀ c b, P c → P { c with outputBuffer_ := b }
  enableWriting : ∀ c, P c → P (c.onChannel Channel.enableWriting)
  disableWriting : ∀ c, P c → P (c.onChannel Channel.disableWriting)
  disconnecting : ∀ c, c.state_ = .kConnected → P c → P (c.setState .kDisconnecting)

namespace StableSending

variable {P : TcpConnection → Prop} (hP : StableSending P) {c : TcpConnection}

include hP

theorem writeDirect (data : List UInt8) (w : WriteResult) (h : P c) :
    P (c.writeDirect data w).1 := by
  unfold TcpConnection.writeDirect
  split
  · cases w with
    | wrote n =>
      have hw : P (c.emit (.write (data.take (min n data.length)))) := hP.emit _ _ rfl h
      dsimp only
      split
      · exact hP.emit _ _ rfl hw
      · exact hw
    | error errno => exact hP.emit _ _ rfl h
  · exact h

theorem checkHighWater (n : Nat) (h : P c) : P (c.checkHighWater n) := by
  unfold TcpConnection.checkHighWater
  dsimp only
  split
  · exact hP.emit _ _ rfl h
  · exact h

theorem bufferRest (data : List UInt8) (s : SendProgress) (h : P c) : P (c.bufferRest data s) := by
  unfold TcpConnection.bufferRest
  split
  · have hb (b : List UInt8) := hP.output _ b (hP.checkHighWater s.remaining h)
    dsimp only
    split
    · exact hb _
    · exact hP.enableWriting _ (hb _)
  · exact h

theorem sendInLoop (data : List UInt8) (w : WriteResult) (h : P c) :
    P (c.sendInLoop data w) := by
  unfold TcpConnection.sendInLoop
  split
  · exact h
  · exact hP.bufferRest _ _ (hP.writeDirect data w h)

theorem stopWriting (h : P c) : P c.stopWriting := by
  have hd := hP.disableWriting c h
  simp only [TcpConnection.stopWriting]
  split
  · exact hP.emit _ _ rfl hd
  · exact hd

theorem writeOut (w : WriteResult) (h : P c) : P (c.writeOut w).1 := by
  unfold TcpConnection.writeOut
  split
  · cases w with
    | wrote k =>
      have hw : P (c.emit (.write (c.outputBuffer_.take (min k c.outputBuffer_.length)))) :=
        hP.emit _ _ rfl h
      dsimp only
      split
      · have ho := hP.output _ (c.outputBuffer_.drop (min k c.outputBuffer_.length)) hw
        split
        · exact hP.stopWriting ho
        · exact ho
      · exact hw
    | error errno => exact hP.emit _ _ rfl h
  · exact h

end StableSending

namespace Stable

variable {P : TcpConnection → Prop} (hP : Stable P) {c : TcpConnection}

include hP

theorem sending : StableSending P where
  emit := fun c e he => hP.emit c e (Effect.quiet_of_sends he)
  output := hP.output
  enableWriting := hP.enableWriting
  disableWriting := hP.disableWriting

theorem shutdownInLoop (h : P c) : P c.shutdownInLoop := by
  unfold TcpConnection.shutdownInLoop
  split
  · exact h
  · exact hP.emit _ _ rfl h

theorem sendInLoop (data : List UInt8) (w : WriteResult) (h : P c) :
    P (c.sendInLoop data w) :=
  hP.sending.sendInLoop data w h

theorem send (data : List UInt8) (w : WriteResult) (h : P c) : P (c.send data w) := by
  unfold TcpConnection.send
  split
  · exact hP.sendInLoop data w h
  · exact h

theorem shutdown (h : P c) : P c.shutdown := by
  unfold TcpConnection.shutdown
  split
  · exact hP.shutdownInLoop (hP.disconnecting c ‹_› h)
  · exact h

theorem userCall (u : UserCall) (h : P c) : P (c.userCall u) := by
  cases u with
  | send data w => exact hP.send data w h
  | shutdown => exact hP.shutdown h
  | retrieve n => exact hP.input _ _ h

theorem userCalls (calls : List UserCall) (h : P c) : P (c.userCalls calls) := by
  induction calls generalizing c with
  | nil => exact h
  | cons u us ih => exact ih (hP.userCall u h)

theorem finishDrain (h : P c) : P c.finishDrain := by
  unfold TcpConnection.finishDrain
  split
  · exact hP.shutdownInLoop h
  · exact h

theorem handleWrite (w : WriteResult) (h : P c) : P (c.handleWrite w) := by
  unfold TcpConnection.handleWrite
  split
  · exact hP.finishDrain (hP.sending.writeOut w h)
  · exact hP.sending.writeOut w h

end Stable

/-! ## The phases -/

/-- As the constructor leaves it, on a descriptor that the poller does not know. -/
structure Fresh (c : TcpConnection) : Prop where
  state : c.state_ = .kConnecting
  absent : Absent c.poller c.channel_
  silent : c.channel_.isNoneEvent = true
  output : c.outputBuffer_ = []
  effects : c.effects = []
  running : c.aborted = none

/-- Between `connectEstablished` and the way down, half-closed or not. -/
structure Open (c : TcpConnection) : Prop where
  state : c.state_ = .kConnected ∨ c.state_ = .kDisconnecting
  watched : Watched c.poller c.channel_
  reading : c.channel_.isReading = true
  running : c.aborted = none

/-- Disabled, and still known to the poller. -/
structure Closed (c : TcpConnection) : Prop where
  state : c.state_ = .kDisconnected
  parked : Parked c.poller c.channel_
  silent : c.channel_.isNoneEvent = true
  running : c.aborted = none

structure Removed (c : TcpConnection) : Prop where
  state : c.state_ = .kDisconnected
  absent : Absent c.poller c.channel_
  silent : c.channel_.isNoneEvent = true
  running : c.aborted = none

theorem isWriting_of_isNoneEvent {ch : Channel} (h : ch.isNoneEvent = true) :
    ch.isWriting = false := by
  have he : ch.events_ = Channel.kNoneEvent := by simpa [Channel.isNoneEvent] using h
  simp [Channel.isWriting, he, Channel.kNoneEvent]

theorem fresh_new (addr sockfd : Nat) : Fresh (new addr sockfd) :=
  ⟨rfl, ⟨rfl, rfl, rfl⟩, rfl, rfl, rfl, rfl⟩

variable {c : TcpConnection}

theorem Fresh.registered (h : Fresh c) : c.registered = false := by
  simp [TcpConnection.registered, h.absent.interest]

theorem Open.registered (h : Open c) : c.registered = true := by
  simp [TcpConnection.registered, h.watched.interest]

theorem Closed.registered (h : Closed c) : c.registered = false := by
  simp [TcpConnection.registered, h.parked.interest]

theorem Removed.registered (h : Removed c) : c.registered = false := by
  simp [TcpConnection.registered, h.absent.interest]

theorem stable_open : Stable Open where
  emit := fun _ _ _ h => ⟨h.state, h.watched, h.reading, h.running⟩
  input := fun _ _ h => ⟨h.state, h.watched, h.reading, h.running⟩
  output := fun _ _ h => ⟨h.state, h.watched, h.reading, h.running⟩
  enableWriting := fun c h =>
    ⟨h.state, Channel.enableWriting_watched h.watched,
      (Channel.isReading_enableWriting c.poller c.channel_ none).trans h.reading, h.running⟩
  disableWriting := fun c h =>
    ⟨h.state, Channel.disableWriting_watched h.watched h.reading,
      (Channel.isReading_disableWriting c.poller c.channel_ none).trans h.reading, h.running⟩
  disconnecting := fun _ _ h => ⟨.inr rfl, h.watched, h.reading, h.running⟩

theorem Fresh.connectEstablished (h : Fresh c) (calls : List UserCall) :
    Open (c.connectEstablished calls) := by
  refine stable_open.userCalls calls ⟨.inl rfl, ?_, ?_, h.running⟩
  · exact Channel.enableReading_absent ⟨h.absent.index, h.absent.channels, h.absent.interest⟩
  · exact Channel.isReading_enableReading _ _ _

theorem Open.handleRead_received (h : Open c) (bytes : List UInt8) (hb : 0 < bytes.length)
    (calls : List UserCall) : Open (c.handleRead (.received bytes) calls) := by
  simp only [handleRead, gt_iff_lt, hb, if_true]
  exact stable_open.userCalls calls ⟨h.state, h.watched, h.reading, h.running⟩

/-! ## After the way down -/

theorem userCall_of_not_connected (hs : c.state_ ≠ .kConnected) (u : UserCall) :
    ∃ b, c.userCall u = { c with inputBuffer_ := b } := by
  cases u with
  | send data w => exact ⟨c.inputBuffer_, if_neg hs⟩
  | shutdown => exact ⟨c.inputBuffer_, if_neg hs⟩
  | retrieve n => exact ⟨c.inputBuffer_.drop n, rfl⟩

/-- A call of the user sends, starts the half-close, or takes from the input buffer at most. -/
theorem userCall_cases (c : TcpConnection) (u : UserCall) :
    (c.state_ = .kConnected ∧ ∃ data w, c.userCall u = c.sendInLoop data w) ∨
      (c.state_ = .kConnected ∧ c.userCall u = (c.setState .kDisconnecting).shutdownInLoop) ∨
      ∃ b, c.userCall u = { c with inputBuffer_ := b } := by
  by_cases hs : c.state_ = .kConnected
  · cases u with
    | send data w => exact .inl ⟨hs, data, w, if_pos hs⟩
    | shutdown => exact .inr (.inl ⟨hs, if_pos hs⟩)
    | retrieve n => exact .inr (.inr ⟨_, rfl⟩)
  · exact .inr (.inr (userCall_of_not_connected hs u))

section

variable (hs : c.state_ = .kDisconnected)

include hs

theorem sendInLoop_of_disconnected (data : List UInt8) (w : WriteResult) :
    c.sendInLoop data w = c := by
  rw [sendInLoop, if_pos hs]

/-- A disconnected connection lets the user read what has arrived, and nothing else. -/
theorem userCalls_of_disconnected (calls : List UserCall) :
    ∃ b, c.userCalls calls = { c with inputBuffer_ := b } := by
  induction calls generalizing c with
  | nil => exact ⟨c.inputBuffer_, rfl⟩
  | cons u us ih =>
    obtain ⟨b, hb⟩ := userCall_of_not_connected (c := c) (by simp [hs]) u
    obtain ⟨b', hb'⟩ := ih (c := c.userCall u) (by rw [hb]; exact hs)
    exact ⟨b', by rw [userCalls, List.foldl_cons, ← userCalls, hb', hb]⟩

end

theorem Open.disconnect (h : Open c) : Closed c.disconnect :=
  ⟨rfl, Channel.disableAll_watched h.watched,
    by simp [TcpConnection.disconnect, TcpConnection.onChannel, Channel.isNoneEvent], h.running⟩

theorem Closed.input (h : Closed c) (b : List UInt8) : Closed { c with inputBuffer_ := b } :=
  ⟨h.state, h.parked, h.silent, h.running⟩

theorem Closed.userCalls (h : Closed c) (calls : List UserCall) : Closed (c.userCalls calls) := by
  obtain ⟨b, hb⟩ := userCalls_of_disconnected h.state calls
  exact hb ▸ h.input b

theorem Open.handleClose (h : Open c) (calls : List UserCall) : Closed (c.handleClose calls) := by
  obtain ⟨hs, hp, hn, hr⟩ := h.disconnect.userCalls calls
  exact ⟨hs, hp, hn, hr⟩

theorem handleWrite_of_not_writing (h : c.channel_.isWriting = false) (w : WriteResult) :
    c.handleWrite w = c := by
  simp [handleWrite, writeOut, h]

theorem Closed.handleWrite (h : Closed c) (w : WriteResult) : Closed (c.handleWrite w) := by
  rwa [handleWrite_of_not_writing (isWriting_of_isNoneEvent h.silent)]

/-! ## Handlers that close -/

/-- The handler ends in `handleClose`. -/
def Handler.closes (r : ReadResult) : Handler → Bool
  | .close | .error => true
  | .read => r == .received []
  | .write => false

/-- The calls of the user callback that the handler reaches. -/
def Handler.calls (env : Environment) : Handler → List UserCall
  | .close => env.onClose
  | .error => env.onError
  | .read => env.onRead
  | .write => []

theorem runHandler_of_closes {env : Environment} {k : Handler} (hk : k.closes env.read = true)
    (c : TcpConnection) : runHandler env c k = c.handleClose (k.calls env) := by
  cases k with
  | close => rfl
  | error => rfl
  | read =>
    have hr : env.read = .received [] := by simpa [Handler.closes] using hk
    simp [runHandler, handleRead, hr, Handler.calls]
  | write => simp [Handler.closes] at hk

/-- Any other handler writes, hands all that has been read to the user, or gives up on an
error of `readv`. -/
theorem runHandler_of_not_closes {env : Environment} {k : Handler}
    (hk : k.closes env.read = false) (c : TcpConnection) :
    runHandler env c k = c.handleWrite env.write ∨
      (∃ b, runHandler env c k =
        ({ c with inputBuffer_ := b }.emit (.messageCallback b)).userCalls env.onRead) ∨
      runHandler env c k = c := by
  cases k with
  | close => simp [Handler.closes] at hk
  | error => simp [Handler.closes] at hk
  | read =>
    refine .inr ?_
    rcases hr : env.read with (_ | ⟨b, bs⟩) | e
    · simp [Handler.closes, hr] at hk
    · exact .inl ⟨c.inputBuffer_ ++ b :: bs, by simp [runHandler, handleRead, hr]⟩
    · exact .inr (by simp [runHandler, handleRead, hr])
  | write => exact .inl rfl

section

variable {r : ReadResult} {w : WriteResult} {k : Handler}

/-- Without calls from the user callback, a handler that closes does just that. -/
theorem runHandler_closing (hk : k.closes r = true) (c : TcpConnection) :
    runHandler { read := r, write := w } c k = c.disconnect.emit .closeCallback := by
  have hcalls : k.calls { read := r, write := w } = [] := by cases k <;> rfl
  rw [runHandler_of_closes hk, hcalls]
  rfl

/-- Any other handler writes, or hands what was read to the user and changes nothing else. -/
theorem runHandler_not_closing (hk : k.closes r = false) (c : TcpConnection) :
    runHandler { read := r, write := w } c k = c.handleWrite w ∨
      ∃ b es, runHandler { read := r, write := w } c k =
        { c with inputBuffer_ := b, effects := c.effects ++ es } := by
  rcases @runHandler_of_not_closes { read := r, write := w } k hk c with he | ⟨b, he⟩ | he
  · exact .inl he
  · exact .inr ⟨b, [.messageCallback b], he⟩
  · exact .inr ⟨c.inputBuffer_, [], by simp [he]⟩

end

theorem Open.runHandler_open (h : Open c) {env : Environment} {k : Handler}
    (hk : k.closes env.read = false) : Open (runHandler env c k) := by
  rcases runHandler_of_not_closes hk c with he | ⟨b, he⟩ | he
  · rw [he]
    exact stable_open.handleWrite env.write h
  · rw [he]
    exact stable_open.userCalls env.onRead ⟨h.state, h.watched, h.reading, h.running⟩
  · rwa [he]

/-- Bytes that were read before the connection closed still reach the user. -/
theorem Closed.runHandler_closed (h : Closed c) {env : Environment} {k : Handler}
    (hk : k.closes env.read = false) : Closed (runHandler env c k) := by
  rcases runHandler_of_not_closes hk c with he | ⟨b, he⟩ | he
  · rw [he]
    exact h.handleWrite env.write
  · rw [he]
    refine Closed.userCalls ?_ env.onRead
    exact ⟨h.state, h.parked, h.silent, h.running⟩
  · rwa [he]

/-! ## Removal -/

theorem removeChannel_events (c : TcpConnection) :
    c.removeChannel.channel_.events_ = c.channel_.events_ := by
  unfold removeChannel
  split
  · exact (Channel.remove_sameObject ‹_›).events
  · rfl

theorem removeChannel_rest (c : TcpConnection) :
    c.removeChannel.state_ = c.state_ ∧ c.removeChannel.outputBuffer_ = c.outputBuffer_ ∧
      c.removeChannel.effects = c.effects := by
  unfold removeChannel
  split <;> exact ⟨rfl, rfl, rfl⟩

/-- `channel_->remove()` succeeds on a disabled channel, parked or watched. -/
theorem removeChannel_of_registered (hr : Parked c.poller c.channel_ ∨ Watched c.poller c.channel_)
    (hn : c.channel_.isNoneEvent = true) :
    ∃ p ch, c.removeChannel = { c with poller := p, channel_ := ch } ∧ Absent p ch ∧
      c.channel_.SameObject ch := by
  obtain ⟨p, ch, hrem, habs, hsame⟩ :=
    hr.elim (Channel.remove_parked · hn) (Channel.remove_watched · hn)
  exact ⟨p, ch, by rw [removeChannel, hrem], habs, hsame⟩

theorem Closed.removeChannel (h : Closed c) : Removed c.removeChannel := by
  obtain ⟨p, ch, hc, habs, hsame⟩ := removeChannel_of_registered (.inl h.parked) h.silent
  rw [hc]
  refine ⟨h.state, habs, ?_, h.running⟩
  simpa [Channel.isNoneEvent, hsame.events] using h.silent

/-- `channel_->remove()` runs into its assertion while the channel reads. -/
theorem Open.removeChannel (h : Open c) :
    c.removeChannel = { c with aborted := some .isNoneEvent } := by
  have hn : c.channel_.isNoneEvent = false := by
    have hne := EventMask.ne_zero_of_has (show c.channel_.events_.has _ = true from h.reading)
    simpa [Channel.isNoneEvent, Channel.kNoneEvent] using hne
  simp [TcpConnection.removeChannel, Channel.remove, hn]

theorem Removed.userCalls (h : Removed c) (calls : List UserCall) : Removed (c.userCalls calls) := by
  obtain ⟨b, hb⟩ := userCalls_of_disconnected h.state calls
  rw [hb]
  exact ⟨h.state, h.absent, h.silent, h.running⟩

/-- Removing a channel twice runs into the assertion of `removeChannel`. -/
theorem Removed.removeChannel (h : Removed c) :
    c.removeChannel = { c with aborted := some .indexKnown } := by
  have hrem : c.poller.removeChannel { c.channel_ with addedToLoop_ := false } none =
      .error .indexKnown := by
    simp [EpollPoller.removeChannel, h.absent.index]
  simp [TcpConnection.removeChannel, Channel.remove, h.silent, hrem, Except.map]

theorem Open.connectDestroyed (h : Open c) (hs : c.state_ = .kConnected) (calls : List UserCall) :
    Removed (c.connectDestroyed calls) := by
  rw [TcpConnection.connectDestroyed, if_pos hs]
  exact (h.disconnect.userCalls calls).removeChannel

theorem Closed.connectDestroyed (h : Closed c) (calls : List UserCall) :
    Removed (c.connectDestroyed calls) := by
  rw [TcpConnection.connectDestroyed, if_neg (by simp [h.state])]
  exact h.removeChannel

end TcpConnection

end Muduo
