import Muduo.Buffer.ReadFd
import Muduo.Connection.Stream
import Muduo.Library.Refinement

/-!
# A connection over its buffers

`TcpConnection` keeps two objects of class `Buffer`. Elsewhere they are byte queues; here
they are the vectors with their indices, so that a call may also run out of room, where
the vector refuses to grow or a copy leaves it. The functions that touch no buffer are
those of the connection over queues.
-/

namespace Muduo

/-- `n` bytes from index `i` on. -/
def Chars.sub (v : Chars) (i n : Nat) : Chars :=
  ⟨(v.data.drop i).take n, by
    have := v.length_le
    simp only [List.length_take, List.length_drop]
    omega⟩

namespace Buffer

/-- `::write` is offered the readable bytes; what it took of them, or its error. -/
def writeFd (b : Buffer) : WriteResult → Except Fault (Except Errno (List UInt8))
  | .wrote k => do
    let bytes ← b.buffer_.read b.readerIndex_ b.readableBytes
    return .ok (bytes.take k)
  | .error errno => .ok (.error errno)

/-- `append` of `n` bytes finds room: behind `writeIndex_`, or because `makeSpace` runs, and
then in a vector that grows or behind the moved bytes. -/
def Takes (b : Buffer) (n : Nat) : Prop :=
  b.writeIndex_.toNat + n ≤ b.buffer_.data.length ∨
    b.buffer_.data.length < b.readerIndex_.toNat + n ∧
      (b.buffer_.data.length < n + 8 ∧ b.writeIndex_.toNat + n ≤ maxSize ∨
        8 + (b.writeIndex_.toNat - b.readerIndex_.toNat) + n ≤ b.buffer_.data.length)

/-- `readFd` of `n` bytes finds room: in an empty buffer as `RoomForExtra` has it, in any other
one behind `writeIndex_`. -/
def Receives (b : Buffer) (n : Nat) : Prop :=
  if b.readableBytes = 0 then b.RoomForExtra n
  else b.writeIndex_.toNat + n ≤ b.buffer_.data.length

variable {b : Buffer}

theorem Inv.readableBytes_eq_zero (h : b.Inv) :
    (b.readableBytes == 0) = (b.readable.length == 0) := by
  rw [Bool.eq_iff_iff, beq_iff_eq, beq_iff_eq, h.length_readable, ← UInt64.toNat_inj]
  rfl

theorem takes_iff (h : b.Inv) (data : Chars) :
    (∃ b', b.append data = .ok b' ∧ b'.Inv ∧ b'.readable = b.readable ++ data.data) ↔
      b.Takes data.data.length := by
  obtain ⟨h₁, h₂, h₃, -⟩ := h.nat
  have hmax := b.buffer_.length_le
  rw [append_ok_iff h, Ne, append_lengthError_iff h, HasRoom, Takes]
  omega

theorem writeFd_eq (h : b.Inv) (w : WriteResult) :
    b.writeFd w = .ok (match w with
      | .wrote k => .ok (b.readable.take k)
      | .error errno => .error errno) := by
  cases w with
  | wrote k =>
    obtain ⟨h₁, h₂, h₃, -⟩ := h.nat
    have hr := h.toNat_readableBytes
    rw [writeFd, Chars.read, Memory.readRange_eq (by omega), hr]
    rfl
  | error errno => rfl

/-- With something readable, what does not fit behind `writeIndex_` leaves the vector. -/
theorem readFd_behind (h : b.Inv) (hne : b.readableBytes ≠ 0) (bytes : List UInt8) :
    (∃ b', b.readFd (.received bytes) = .ok (.ok bytes.length, b') ∧ b'.Inv ∧
      b'.readable = b.readable ++ bytes) ↔
      b.writeIndex_.toNat + bytes.length ≤ b.buffer_.data.length := by
  obtain ⟨h₁, h₂, h₃, h₄⟩ := h.nat
  have hw := h.toNat_writableBytes
  have hr := h.toNat_readableBytes
  have hpos : b.readableBytes.toNat ≠ 0 := fun he => hne (UInt64.toNat_inj.mp he)
  by_cases hfit : b.writeIndex_.toNat + bytes.length ≤ b.buffer_.data.length
  · have hle : bytes.length ≤ b.writableBytes.toNat := by omega
    have hnat : (UInt64.ofNat bytes.length).toNat = bytes.length := by
      rw [UInt64.toNat_ofNat']
      omega
    have hmax : bytes.length ≤ maxSize := by
      rw [maxSize]
      omega
    obtain ⟨v, hv, hinv, hread⟩ := @copy_tail b h ⟨bytes, hmax⟩ hfit
    have hsize : Chars.size ⟨bytes, hmax⟩ = UInt64.ofNat bytes.length := rfl
    rw [hsize] at hinv hread
    refine ⟨fun _ => hfit, fun _ => ⟨_, ?_, hinv, hread⟩⟩
    have hshort : UInt64.ofNat bytes.length ≤ b.writableBytes := by
      rw [UInt64.le_iff_toNat_le, hnat]
      exact hle
    simp only [readFd, List.take_of_length_le hle, hv, bind, Except.bind, if_pos hshort]
    rfl
  · refine ⟨?_, fun hfit' => absurd hfit' hfit⟩
    rintro ⟨b', hb', -⟩
    have hout : b.buffer_.copyInto b.writeIndex_ (bytes.take b.writableBytes.toNat) =
        .error .outOfRange := by
      refine Chars.copyInto_outOfRange _ ?_ ?_
      · rw [ne_eq, List.take_eq_nil_iff, not_or]
        refine ⟨by omega, ?_⟩
        rintro rfl
        simp only [List.length_nil] at hfit
        omega
      · rw [List.length_take]
        omega
    simp [readFd, hout, bind, Except.bind] at hb'

/-- The count that `readFd` returns is that of `readv`. -/
theorem readFd_count {bytes : List UInt8} {r : Except Errno Nat × Buffer}
    (h : b.readFd (.received bytes) = .ok r) : r.1 = .ok bytes.length := by
  simp only [readFd, bind, Except.bind] at h
  split at h
  · contradiction
  · split at h
    · exact (Except.ok.inj h) ▸ rfl
    · split at h
      · contradiction
      · exact (Except.ok.inj h) ▸ rfl

theorem receives_iff (h : b.Inv) {bytes : List UInt8} (ho : b.Offers (.received bytes)) :
    (∃ b', b.readFd (.received bytes) = .ok (.ok bytes.length, b') ∧ b'.Inv ∧
      b'.readable = b.readable ++ bytes) ↔ b.Receives bytes.length := by
  unfold Receives
  split
  · exact received_iff h ‹_› ho
  · exact readFd_behind h ‹_› bytes

end Buffer

/-- The connection with its buffers; the queues in `conn` are not used. -/
structure BufferedConnection where
  conn : TcpConnection
  inputBuffer_ : Buffer
  outputBuffer_ : Buffer

inductive BufferedStep where
  | sendInLoop (data : Chars) (w : WriteResult)
  | send (data : Chars) (w : WriteResult)
  | shutdown
  | shutdownInLoop
  | retrieve (len : UInt64)
  | handleWrite (w : WriteResult)
  | handleRead (r : ReadResult)
  | handleClose
  | connectDestroyed

/-- The step on queues. -/
def BufferedStep.onQueues : BufferedStep → TcpConnection.StreamStep
  | .sendInLoop data w => .sendInLoop data.data w
  | .send data w => .userCall (.send data.data w)
  | .shutdown => .userCall .shutdown
  | .shutdownInLoop => .shutdownInLoop
  | .retrieve len => .userCall (.retrieve len.toNat)
  | .handleWrite w => .handleWrite w
  | .handleRead r => .handleRead r
  | .handleClose => .handleClose []
  | .connectDestroyed => .connectDestroyed []

namespace BufferedConnection

open TcpConnection

/-- Run a function that touches no buffer. -/
def onConn (c : BufferedConnection) (f : TcpConnection → TcpConnection) : BufferedConnection :=
  { c with conn := f c.conn }

/-! ## Sending -/

def writeDirect (c : BufferedConnection) (data : Chars) (w : WriteResult) :
    BufferedConnection × SendProgress :=
  if !c.conn.channel_.isWriting && c.outputBuffer_.readableBytes == 0 then
    match w with
    | .wrote n =>
      let nwrote := min n data.data.length
      let remaining := data.data.length - nwrote
      let c := c.onConn (·.emit (.write (data.data.take nwrote)))
      (if remaining == 0 && c.conn.writeCompleteCallback_ then c.onConn (·.emit .queueWriteComplete)
        else c, ⟨nwrote, remaining, false⟩)
    | .error errno =>
      (c.onConn (·.emit (.writeError errno)),
        ⟨0, data.data.length, errno != EWOULDBLOCK && (errno == EPIPE || errno == ECONNRESET)⟩)
  else (c, ⟨0, data.data.length, false⟩)

def checkHighWater (c : BufferedConnection) (remaining : Nat) : BufferedConnection :=
  let oldLen := c.outputBuffer_.readableBytes
  let newLen := oldLen + UInt64.ofNat remaining
  if decide (c.conn.highWaterMark_ ≤ newLen.toNat) &&
      decide (oldLen.toNat < c.conn.highWaterMark_) && c.conn.highWaterMarkCallback_ then
    c.onConn (·.emit (.queueHighWaterMark newLen.toNat))
  else c

def bufferRest (c : BufferedConnection) (data : Chars) (s : SendProgress) :
    Except Fault BufferedConnection :=
  if !s.faultError && decide (0 < s.remaining) then do
    let c := c.checkHighWater s.remaining
    let outputBuffer_ ← c.outputBuffer_.append (data.sub s.nwrote s.remaining)
    let c := { c with outputBuffer_ := outputBuffer_ }
    return if c.conn.channel_.isWriting then c else c.onConn (·.onChannel Channel.enableWriting)
  else .ok c

def sendInLoop (c : BufferedConnection) (data : Chars) (w : WriteResult) :
    Except Fault BufferedConnection :=
  if c.conn.state_ = .kDisconnected then .ok c
  else (c.writeDirect data w).1.bufferRest data (c.writeDirect data w).2

def send (c : BufferedConnection) (data : Chars) (w : WriteResult) :
    Except Fault BufferedConnection :=
  if c.conn.state_ = .kConnected then c.sendInLoop data w else .ok c

/-! ## Events -/

def writeOut (c : BufferedConnection) (w : WriteResult) :
    Except Fault (BufferedConnection × Bool) :=
  if c.conn.channel_.isWriting then do
    match ← c.outputBuffer_.writeFd w with
    | .ok bytes =>
      let c := c.onConn (·.emit (.write bytes))
      if bytes.length > 0 then
        let c := { c with outputBuffer_ := c.outputBuffer_.retrieve (UInt64.ofNat bytes.length) }
        return if c.outputBuffer_.readableBytes == 0 then (c.onConn stopWriting, true)
          else (c, false)
      else return (c, false)
    | .error errno => return (c.onConn (·.emit (.writeError errno)), false)
  else .ok (c, false)

def handleWrite (c : BufferedConnection) (w : WriteResult) : Except Fault BufferedConnection := do
  let (c, drained) ← c.writeOut w
  return if drained then c.onConn finishDrain else c

def handleRead (c : BufferedConnection) (r : ReadResult) : Except Fault BufferedConnection := do
  let (n, inputBuffer_) ← c.inputBuffer_.readFd r
  let c := { c with inputBuffer_ := inputBuffer_ }
  match n with
  | .ok n =>
    return if n > 0 then c.onConn (·.emit (.messageCallback c.inputBuffer_.readable))
      else c.onConn (·.handleClose [])
  | .error _ => return c

def step (c : BufferedConnection) : BufferedStep → Except Fault BufferedConnection
  | .sendInLoop data w => c.sendInLoop data w
  | .send data w => c.send data w
  | .shutdown => .ok (c.onConn TcpConnection.shutdown)
  | .shutdownInLoop => .ok (c.onConn TcpConnection.shutdownInLoop)
  | .retrieve len => .ok { c with inputBuffer_ := c.inputBuffer_.retrieve len }
  | .handleWrite w => c.handleWrite w
  | .handleRead r => c.handleRead r
  | .handleClose => .ok (c.onConn (·.handleClose []))
  | .connectDestroyed => .ok (c.onConn (·.connectDestroyed []))

/-- A fault ends the program: an exception that nobody catches, or memory that is not the
vector's. -/
def machine : Machine BufferedConnection BufferedStep where
  init c := ∃ i o, Buffer.new = .ok i ∧ Buffer.new = .ok o ∧
    ∃ conn, Fresh conn ∧ c = ⟨conn.connectEstablished [], i, o⟩
  step c l := (c.step l).toOption

/-! ## The connection over queues -/

/-- Put two queues in the place of the buffers. -/
def withQueues (i o : List UInt8) (c : TcpConnection) : TcpConnection :=
  { c with inputBuffer_ := i, outputBuffer_ := o }

/-- The buffers as the queues of their readable bytes. -/
def queued (c : BufferedConnection) : TcpConnection :=
  withQueues c.inputBuffer_.readable c.outputBuffer_.readable c.conn

/-- The indices of both buffers are in order. -/
structure Inv (c : BufferedConnection) : Prop where
  input : c.inputBuffer_.Inv
  output : c.outputBuffer_.Inv

variable {c : BufferedConnection}

/-! ## Functions that touch no buffer -/

/-- The function neither reads nor writes the queues. -/
def Oblivious (f : TcpConnection → TcpConnection) : Prop :=
  ∀ i o c, f (withQueues i o c) = withQueues i o (f c)

theorem queued_onConn {f : TcpConnection → TcpConnection} (hf : Oblivious f) :
    (c.onConn f).queued = f c.queued :=
  (hf _ _ _).symm

theorem Inv.onConn (h : c.Inv) (f : TcpConnection → TcpConnection) : (c.onConn f).Inv :=
  ⟨h.input, h.output⟩

theorem oblivious_emit (e : Effect) : Oblivious (·.emit e) := fun _ _ _ => rfl

theorem oblivious_onChannel (f : EpollPoller → Channel → Option Errno → EpollPoller × Channel) :
    Oblivious (·.onChannel f) := fun _ _ _ => rfl

theorem oblivious_shutdownInLoop : Oblivious TcpConnection.shutdownInLoop := by
  intro i o c
  simp only [TcpConnection.shutdownInLoop, apply_ite (withQueues i o)]
  rfl

theorem oblivious_shutdown : Oblivious TcpConnection.shutdown := by
  intro i o c
  unfold TcpConnection.shutdown
  rw [apply_ite (withQueues i o), ← oblivious_shutdownInLoop]
  rfl

theorem oblivious_handleClose : Oblivious (·.handleClose []) := fun _ _ _ => rfl

theorem oblivious_removeChannel : Oblivious TcpConnection.removeChannel := by
  intro i o c
  unfold TcpConnection.removeChannel
  rw [show (withQueues i o c).poller = c.poller from rfl,
    show (withQueues i o c).channel_ = c.channel_ from rfl]
  cases Channel.remove c.poller c.channel_ none <;> rfl

theorem oblivious_connectDestroyed : Oblivious (·.connectDestroyed []) := by
  intro i o c
  simp only [TcpConnection.connectDestroyed]
  rw [← oblivious_removeChannel, apply_ite (withQueues i o)]
  rfl

theorem oblivious_stopWriting : Oblivious stopWriting := by
  intro i o c
  simp only [stopWriting, apply_ite (withQueues i o)]
  rfl

theorem oblivious_finishDrain : Oblivious finishDrain := by
  intro i o c
  unfold finishDrain
  rw [apply_ite (withQueues i o), ← oblivious_shutdownInLoop]
  rfl

/-! ## Sending -/

@[simp] theorem outputBuffer_queued : c.queued.outputBuffer_ = c.outputBuffer_.readable := rfl
@[simp] theorem inputBuffer_queued : c.queued.inputBuffer_ = c.inputBuffer_.readable := rfl
@[simp] theorem state_queued : c.queued.state_ = c.conn.state_ := rfl
@[simp] theorem channel_queued : c.queued.channel_ = c.conn.channel_ := rfl

theorem writeDirect_queued (h : c.Inv) (data : Chars) (w : WriteResult) :
    (c.writeDirect data w).1.queued = (c.queued.writeDirect data.data w).1 ∧
      (c.writeDirect data w).2 = (c.queued.writeDirect data.data w).2 ∧
      (c.writeDirect data w).1.Inv ∧
      (c.writeDirect data w).1.outputBuffer_ = c.outputBuffer_ := by
  unfold writeDirect TcpConnection.writeDirect
  rw [h.output.readableBytes_eq_zero, channel_queued, outputBuffer_queued]
  split
  · cases w with
    | wrote n =>
      dsimp only
      rw [apply_ite queued]
      refine ⟨rfl, rfl, ?_, ?_⟩
      · split
        · exact ⟨h.input, h.output⟩
        · exact ⟨h.input, h.output⟩
      · split <;> rfl
    | error errno => exact ⟨rfl, rfl, ⟨h.input, h.output⟩, rfl⟩
  · exact ⟨rfl, rfl, h, rfl⟩

/-- The sum of the two lengths does not wrap. -/
theorem checkHighWater_queued (h : c.Inv) {remaining : Nat} (hr : remaining ≤ maxSize) :
    (c.checkHighWater remaining).queued = c.queued.checkHighWater remaining ∧
      (c.checkHighWater remaining).Inv ∧
      (c.checkHighWater remaining).outputBuffer_ = c.outputBuffer_ := by
  have hold : c.outputBuffer_.readableBytes.toNat = c.queued.outputBuffer_.length :=
    h.output.length_readable.symm
  have hnew : (c.outputBuffer_.readableBytes + UInt64.ofNat remaining).toNat =
      c.queued.outputBuffer_.length + remaining := by
    obtain ⟨h₁, h₂, h₃, h₄⟩ := h.output.nat
    have hread := h.output.toNat_readableBytes
    rw [maxSize] at hr
    have hrem : (UInt64.ofNat remaining).toNat = remaining := by
      rw [UInt64.toNat_ofNat']
      omega
    rw [toNat_add_of_lt (by omega), hold, hrem]
  simp only [checkHighWater, TcpConnection.checkHighWater, hold, hnew]
  split
  · rw [if_pos (by assumption)]
    exact ⟨rfl, h.onConn _, rfl⟩
  · rw [if_neg (by assumption)]
    exact ⟨rfl, h, rfl⟩

/-- Where `append` succeeds its result is the new output buffer, and the rest is as on queues. -/
theorem bufferRest_of_append (h : c.Inv) {data : Chars} {s : SendProgress} {b : Buffer}
    (hrest : (!s.faultError && decide (0 < s.remaining)) = true) (hmax : s.remaining ≤ maxSize)
    (happ : c.outputBuffer_.append (data.sub s.nwrote s.remaining) = .ok b) :
    ∃ t, c.bufferRest data s = .ok t ∧ t.outputBuffer_ = b ∧ t.inputBuffer_ = c.inputBuffer_ ∧
      (b.readable = c.outputBuffer_.readable ++ (data.sub s.nwrote s.remaining).data →
        t.queued = c.queued.bufferRest data.data s) := by
  obtain ⟨hq, -, hout⟩ := checkHighWater_queued h hmax
  have hin : (c.checkHighWater s.remaining).inputBuffer_ = c.inputBuffer_ := by
    simp only [checkHighWater]
    split <;> rfl
  rw [← hout] at happ
  simp only [bufferRest, if_pos hrest, happ, bind, Except.bind, TcpConnection.bufferRest, ← hq]
  refine ⟨_, rfl, ?_, ?_, ?_⟩
  · split <;> rfl
  · split <;> exact hin
  · intro hread
    rw [apply_ite queued, queued_onConn (oblivious_onChannel _)]
    simp only [queued, withQueues, hread, hout]
    rfl

theorem bufferRest_iff (h : c.Inv) (data : Chars) {s : SendProgress}
    (hs : s.remaining = data.data.length - s.nwrote) :
    (∃ t, c.bufferRest data s = .ok t ∧ t.Inv ∧ t.queued = c.queued.bufferRest data.data s) ↔
      (s.faultError = false → 0 < s.remaining → c.outputBuffer_.Takes s.remaining) := by
  by_cases hrest : (!s.faultError && decide (0 < s.remaining)) = true
  · obtain ⟨hfault, hpos⟩ : s.faultError = false ∧ 0 < s.remaining := by simpa using hrest
    have hlen : (data.sub s.nwrote s.remaining).data.length = s.remaining := by
      simp only [Chars.sub, List.length_take, List.length_drop]
      omega
    have hmax : s.remaining ≤ maxSize := hlen ▸ (data.sub s.nwrote s.remaining).length_le
    have htakes := Buffer.takes_iff h.output (data.sub s.nwrote s.remaining)
    rw [hlen] at htakes
    simp only [hfault, hpos, true_implies, ← htakes]
    cases happ : c.outputBuffer_.append (data.sub s.nwrote s.remaining) with
    | error e =>
      have hout := (checkHighWater_queued h hmax).2.2
      simp only [bufferRest, if_pos hrest, hout, happ, bind, Except.bind]
      simp
    | ok b =>
      obtain ⟨t, ht, hb, hin, hq⟩ := bufferRest_of_append h hrest hmax happ
      rw [ht]
      constructor
      · rintro ⟨u, hu, hinv, hqu⟩
        obtain rfl := Except.ok.inj hu
        refine ⟨b, rfl, hb ▸ hinv.output, ?_⟩
        have hread := (bufferRest_stream c.queued data.data s).2
        rwa [← hqu, outputBuffer_queued, hb, hfault] at hread
      · rintro ⟨b', hb', hinv, hread⟩
        obtain rfl := Except.ok.inj hb'
        exact ⟨t, rfl, ⟨hin ▸ h.input, hb ▸ hinv⟩, hq hread⟩
  · simp only [bufferRest, TcpConnection.bufferRest, if_neg hrest]
    simp only [Bool.and_eq_true, Bool.not_eq_true', decide_eq_true_eq] at hrest
    exact ⟨fun _ hf hr => absurd ⟨hf, hr⟩ hrest, fun _ => ⟨c, rfl, h, rfl⟩⟩

/-- What a call of `sendInLoop` needs: room for the bytes that the direct write leaves. -/
def SendFits (c : BufferedConnection) (data : Chars) (w : WriteResult) : Prop :=
  c.conn.state_ ≠ .kDisconnected → (c.writeDirect data w).2.faultError = false →
    0 < (c.writeDirect data w).2.remaining →
      c.outputBuffer_.Takes (c.writeDirect data w).2.remaining

theorem remaining_writeDirect (c : BufferedConnection) (data : Chars) (w : WriteResult) :
    (c.writeDirect data w).2.remaining = data.data.length - (c.writeDirect data w).2.nwrote := by
  unfold writeDirect
  split
  · cases w <;> rfl
  · rfl

theorem sendInLoop_iff (h : c.Inv) (data : Chars) (w : WriteResult) :
    (∃ t, c.sendInLoop data w = .ok t ∧ t.Inv ∧ t.queued = c.queued.sendInLoop data.data w) ↔
      c.SendFits data w := by
  unfold sendInLoop TcpConnection.sendInLoop SendFits
  rw [state_queued]
  split
  · exact ⟨fun _ hs => absurd ‹_› hs, fun _ => ⟨c, rfl, h, rfl⟩⟩
  · obtain ⟨hq, hprogress, hinv, hout⟩ := writeDirect_queued h data w
    have hrest := bufferRest_iff hinv data (remaining_writeDirect c data w)
    rw [hq, hprogress, hout] at hrest
    rw [hprogress, hrest]
    exact ⟨fun hc _ => hc, fun hc => hc ‹_›⟩

theorem send_iff (h : c.Inv) (data : Chars) (w : WriteResult) :
    (∃ t, c.send data w = .ok t ∧ t.Inv ∧ t.queued = c.queued.send data.data w) ↔
      (c.conn.state_ = .kConnected → c.SendFits data w) := by
  unfold send TcpConnection.send
  rw [state_queued]
  split
  · rw [sendInLoop_iff h]
    exact ⟨fun hc _ => hc, fun hc => hc ‹_›⟩
  · exact ⟨fun _ hs => absurd hs ‹_›, fun _ => ⟨c, rfl, h, rfl⟩⟩

/-! ## Events -/

theorem writeOut_queued (h : c.Inv) (w : WriteResult) :
    ∃ t, c.writeOut w = .ok (t, (c.queued.writeOut w).2) ∧ t.Inv ∧
      t.queued = (c.queued.writeOut w).1 := by
  unfold writeOut TcpConnection.writeOut
  rw [channel_queued, Buffer.writeFd_eq h.output]
  split
  · cases w with
    | error errno => exact ⟨_, rfl, h.onConn _, rfl⟩
    | wrote k =>
      have hlen : (c.outputBuffer_.readable.take k).length =
          min k c.outputBuffer_.readable.length := List.length_take
      have htake : c.queued.outputBuffer_.take (min k c.outputBuffer_.readable.length) =
          c.outputBuffer_.readable.take k := by
        rw [outputBuffer_queued]
        grind
      have hnat : (UInt64.ofNat (c.outputBuffer_.readable.take k).length).toNat =
          min k c.outputBuffer_.readable.length := by
        have hread := h.output.length_readable
        have hlt := c.outputBuffer_.readableBytes.toNat_lt
        rw [UInt64.toNat_ofNat', hlen]
        omega
      have hdrop := Buffer.readable_retrieve h.output
        (UInt64.ofNat (c.outputBuffer_.readable.take k).length)
      have hinv := h.output.retrieve (UInt64.ofNat (c.outputBuffer_.readable.take k).length)
      have hzero := hinv.readableBytes_eq_zero
      rw [hnat] at hdrop
      simp only [outputBuffer_queued] at htake ⊢
      simp only [bind, Except.bind, pure, Except.pure, gt_iff_lt, hlen, htake, onConn]
      simp only [← hlen] at hdrop ⊢
      generalize c.outputBuffer_.retrieve (UInt64.ofNat (c.outputBuffer_.readable.take k).length) =
        b at hdrop hinv hzero ⊢
      have hd : queued ⟨c.conn.emit (.write (c.outputBuffer_.readable.take k)), c.inputBuffer_, b⟩ =
          { c.queued.emit (.write (c.outputBuffer_.readable.take k)) with
            outputBuffer_ := (c.outputBuffer_.readable).drop
              (c.outputBuffer_.readable.take k).length } := by
        simp only [queued, withQueues, hdrop]
        rfl
      rw [hzero, hdrop, outputBuffer_emit, outputBuffer_queued]
      split
      · split
        · refine ⟨_, rfl, ⟨h.input, hinv⟩, ?_⟩
          exact (@queued_onConn ⟨_, _, b⟩ _ oblivious_stopWriting).trans (congrArg stopWriting hd)
        · exact ⟨_, rfl, ⟨h.input, hinv⟩, hd⟩
      · exact ⟨_, rfl, ⟨h.input, h.output⟩, rfl⟩
  · exact ⟨c, rfl, h, rfl⟩

/-- Draining never needs room. -/
theorem handleWrite_queued (h : c.Inv) (w : WriteResult) :
    ∃ t, c.handleWrite w = .ok t ∧ t.Inv ∧ t.queued = c.queued.handleWrite w := by
  obtain ⟨t, ht, hinv, hq⟩ := writeOut_queued h w
  unfold handleWrite TcpConnection.handleWrite
  simp only [ht, bind, Except.bind, pure, Except.pure, ← hq]
  split
  · exact ⟨_, rfl, hinv.onConn _, queued_onConn oblivious_finishDrain⟩
  · exact ⟨t, rfl, hinv, rfl⟩

theorem handleRead_received_iff (h : c.Inv) {bytes : List UInt8}
    (ho : c.inputBuffer_.Offers (.received bytes)) :
    (∃ t, c.handleRead (.received bytes) = .ok t ∧ t.Inv ∧
      t.queued = c.queued.handleRead (.received bytes) []) ↔
      c.inputBuffer_.Receives bytes.length := by
  rw [← Buffer.receives_iff h.input ho]
  simp only [handleRead, bind, Except.bind, pure, Except.pure]
  cases hfd : c.inputBuffer_.readFd (.received bytes) with
  | error e => simp
  | ok r =>
    obtain ⟨n, b⟩ := r
    obtain rfl : n = .ok bytes.length := Buffer.readFd_count hfd
    have hinput : (c.queued.handleRead (.received bytes) []).inputBuffer_ =
        c.inputBuffer_.readable ++ bytes := by
      cases bytes with
      | nil => exact (List.append_nil _).symm
      | cons x xs => rfl
    have hkeep : (if bytes.length > 0 then
          ({ c with inputBuffer_ := b }.onConn (·.emit (.messageCallback b.readable)))
        else { c with inputBuffer_ := b }.onConn (·.handleClose [])).inputBuffer_ = b ∧
        (if bytes.length > 0 then
          ({ c with inputBuffer_ := b }.onConn (·.emit (.messageCallback b.readable)))
        else { c with inputBuffer_ := b }.onConn (·.handleClose [])).outputBuffer_ =
          c.outputBuffer_ := by
      split <;> exact ⟨rfl, rfl⟩
    constructor
    · rintro ⟨t, ht, hinv, hq⟩
      obtain rfl := Except.ok.inj ht
      refine ⟨b, rfl, hkeep.1 ▸ hinv.input, ?_⟩
      rw [← hinput, ← hq, inputBuffer_queued, hkeep.1]
    · rintro ⟨b', hb', hinv, hread⟩
      obtain rfl := (Prod.mk.inj (Except.ok.inj hb')).2
      refine ⟨_, rfl, ⟨hkeep.1.symm ▸ hinv, hkeep.2.symm ▸ h.output⟩, ?_⟩
      have hq : ({ c with inputBuffer_ := b } : BufferedConnection).queued =
          { c.queued with inputBuffer_ := c.inputBuffer_.readable ++ bytes } := by
        rw [queued, withQueues, hread]
        rfl
      cases bytes with
      | nil =>
        rw [List.append_nil] at hq
        exact (queued_onConn oblivious_handleClose).trans (congrArg (·.handleClose []) hq)
      | cons x xs =>
        refine (queued_onConn (oblivious_emit _)).trans ?_
        rw [hread, hq]
        rfl

/-! ## Runs -/

/-- `readv` returns no more than it was offered. -/
def Offered (c : BufferedConnection) : BufferedStep → Prop
  | .handleRead r => c.inputBuffer_.Offers r
  | _ => True

/-- Every byte that the step stores in a buffer finds room there. -/
def Fits (c : BufferedConnection) : BufferedStep → Prop
  | .sendInLoop data w => c.SendFits data w
  | .send data w => c.conn.state_ = .kConnected → c.SendFits data w
  | .handleRead (.received bytes) => c.inputBuffer_.Receives bytes.length
  | _ => True

/-- A step does to the buffers what it does to queues exactly if what it stores fits. -/
theorem does_iff_fits (h : c.Inv) {l : BufferedStep} (ho : c.Offered l) :
    machine.Does Inv queued (fun q l => q.streamStep l.onQueues) c l ↔ c.Fits l := by
  have hstep : machine.Does Inv queued (fun q l => q.streamStep l.onQueues) c l ↔
      ∃ t, c.step l = .ok t ∧ t.Inv ∧ t.queued = c.queued.streamStep l.onQueues := by
    refine exists_congr fun t => and_congr_left' ?_
    simp only [machine]
    cases c.step l <;> simp [Except.toOption]
  rw [hstep]
  have hconn {f : TcpConnection → TcpConnection} (hf : Oblivious f) :
      ∃ t, Except.ok (c.onConn f) = (.ok t : Except Fault BufferedConnection) ∧ t.Inv ∧
        t.queued = f c.queued :=
    ⟨_, rfl, h.onConn f, queued_onConn hf⟩
  cases l with
  | sendInLoop data w => exact sendInLoop_iff h data w
  | send data w => exact send_iff h data w
  | shutdown => exact iff_of_true (hconn oblivious_shutdown) trivial
  | shutdownInLoop => exact iff_of_true (hconn oblivious_shutdownInLoop) trivial
  | retrieve len =>
    refine iff_of_true ⟨_, rfl, ⟨h.input.retrieve len, h.output⟩, ?_⟩ trivial
    simp only [queued, Buffer.readable_retrieve h.input]
    rfl
  | handleWrite w => exact iff_of_true (handleWrite_queued h w) trivial
  | handleRead r =>
    cases r with
    | received bytes => exact handleRead_received_iff h ho
    | error errno => exact iff_of_true ⟨c, rfl, h, rfl⟩ trivial
  | handleClose => exact iff_of_true (hconn oblivious_handleClose) trivial
  | connectDestroyed => exact iff_of_true (hconn oblivious_connectDestroyed) trivial

/-- A connection over its buffers does in every step what a connection over queues does, and
keeps the indices in order, exactly in the runs in which every byte that is stored finds
room. -/
theorem tracks_queues_iff_fits (h : c.Inv) {ls : List BufferedStep}
    (ho : machine.Along Offered c ls) :
    machine.Tracks Inv queued (fun q l => q.streamStep l.onQueues) c ls ↔
      machine.Along Fits c ls :=
  Machine.tracks_iff_along (fun _ _ hs ho => does_iff_fits hs ho) h ho

theorem inv_new {b : Buffer} (hb : Buffer.new = .ok b) : b.Inv :=
  ((Buffer.represents_new hb).mpr (by decide)).inv

/-- A connection as `connectEstablished` leaves it, with buffers of the initial size. -/
def established (initialSize : UInt64) : Except Fault BufferedConnection := do
  let inputBuffer_ ← Buffer.new initialSize
  let outputBuffer_ ← Buffer.new initialSize
  return ⟨(TcpConnection.new 1 5).connectEstablished [], inputBuffer_, outputBuffer_⟩

/-- A message in an empty buffer, an answer that the socket takes half of, and a drain. -/
theorem tracks_queues_iff_fits_exchange :
    ∃ c, (established 24).toOption = some c ∧
      let ls := [.handleRead (.received [7, 8, 9]), .retrieve 3,
        .send ⟨[1, 2, 3, 4], by decide⟩ (.wrote 2), .handleWrite (.wrote 5)]
      (machine.Tracks Inv queued (fun q l => q.streamStep l.onQueues) c ls ↔
        machine.Along Fits c ls) := by
  refine ⟨_, rfl, tracks_queues_iff_fits ⟨by decide, by decide⟩ ⟨?_, ?_⟩⟩
  · simp only [Offered]
    decide
  · exact fun _ _ => ⟨trivial, fun _ _ => ⟨trivial, fun _ _ => ⟨trivial, fun _ _ => trivial⟩⟩⟩

/-! ## Both directions -/

end BufferedConnection

/-- The bytes that the step gets from `readv`. -/
def BufferedStep.received : BufferedStep → List UInt8
  | .handleRead (.received bytes) => bytes
  | _ => []

/-- The bytes that the user takes from the input buffer. -/
def BufferedStep.taken (c : BufferedConnection) : BufferedStep → List UInt8
  | .retrieve len => c.inputBuffer_.readable.take len.toNat
  | _ => []

/-- A connection with everything that was submitted for sending, received from the peer, and
taken by the user. -/
structure Traffic where
  conn : BufferedConnection
  submitted : List UInt8 := []
  received : List UInt8 := []
  taken : List UInt8 := []

namespace BufferedConnection

open TcpConnection

def trafficMachine : Machine Traffic BufferedStep where
  init s := ∃ i o conn, Buffer.new = .ok i ∧ Buffer.new = .ok o ∧ Fresh conn ∧
    s = { conn := ⟨conn.connectEstablished [], i, o⟩ }
  step s l := (s.conn.step l).toOption.map fun c =>
    { conn := c
      submitted := s.submitted ++ l.onQueues.submits s.conn.queued
      received := s.received ++ l.received
      taken := s.taken ++ l.taken s.conn }

theorem input_stable (b : List UInt8) : StableSending fun q => q.inputBuffer_ = b :=
  ⟨fun _ _ _ h => h, fun _ _ h => h, fun _ h => h, fun _ h => h⟩

theorem inputBuffer_shutdownInLoop (q : TcpConnection) :
    q.shutdownInLoop.inputBuffer_ = q.inputBuffer_ := by
  unfold TcpConnection.shutdownInLoop
  split <;> rfl

theorem inputBuffer_handleWrite (q : TcpConnection) (w : WriteResult) :
    (q.handleWrite w).inputBuffer_ = q.inputBuffer_ := by
  have hout := (input_stable q.inputBuffer_).writeOut w rfl
  unfold TcpConnection.handleWrite finishDrain
  split
  · split
    · exact (inputBuffer_shutdownInLoop _).trans hout
    · exact hout
  · exact hout

theorem inputBuffer_connectDestroyed (q : TcpConnection) :
    (q.connectDestroyed []).inputBuffer_ = q.inputBuffer_ := by
  have hremove : ∀ q : TcpConnection, q.removeChannel.inputBuffer_ = q.inputBuffer_ := by
    intro q
    unfold TcpConnection.removeChannel
    split <;> rfl
  rw [TcpConnection.connectDestroyed, hremove]
  split <;> rfl

/-- The input buffer loses what the user takes, gains what is received, and nothing else
touches it. -/
theorem input_streamStep (c : BufferedConnection) (l : BufferedStep) :
    l.taken c ++ (c.queued.streamStep l.onQueues).inputBuffer_ =
      c.inputBuffer_.readable ++ l.received := by
  have hstill (h : (c.queued.streamStep l.onQueues).inputBuffer_ = c.queued.inputBuffer_) :
      [] ++ (c.queued.streamStep l.onQueues).inputBuffer_ = c.inputBuffer_.readable ++ [] := by
    rw [h, List.nil_append, List.append_nil, inputBuffer_queued]
  cases l with
  | sendInLoop data w => exact hstill ((input_stable _).sendInLoop data.data w rfl)
  | send data w =>
    refine hstill ?_
    simp only [BufferedStep.onQueues, streamStep, userCall, TcpConnection.send]
    split
    · exact (input_stable _).sendInLoop data.data w rfl
    · rfl
  | shutdown =>
    refine hstill ?_
    simp only [BufferedStep.onQueues, streamStep, userCall, TcpConnection.shutdown]
    split
    · exact inputBuffer_shutdownInLoop _
    · rfl
  | shutdownInLoop => exact hstill (inputBuffer_shutdownInLoop _)
  | retrieve len =>
    simp only [BufferedStep.received, List.append_nil]
    exact List.take_append_drop _ _
  | handleWrite w => exact hstill (inputBuffer_handleWrite _ w)
  | handleRead r =>
    rcases r with (_ | ⟨b, bs⟩) | e
    · exact hstill rfl
    · rfl
    · exact hstill rfl
  | handleClose => exact hstill rfl
  | connectDestroyed => exact hstill (inputBuffer_connectDestroyed _)

/-- In each direction the bytes that left a buffer, followed by those in it, are the bytes that
entered it. -/
structure Conserved (s : Traffic) : Prop where
  inv : s.conn.Inv
  output : s.conn.conn.accepted ++ s.conn.outputBuffer_.readable = s.submitted
  input : s.taken ++ s.conn.inputBuffer_.readable = s.received

theorem conserved_init {s : Traffic} (h : trafficMachine.init s) : Conserved s := by
  obtain ⟨i, o, conn, hi, ho, hconn, rfl⟩ := h
  have hempty {b : Buffer} (hb : Buffer.new = .ok b) : b.readable = [] :=
    ((Buffer.represents_new hb).mpr (by decide)).readable
  refine ⟨⟨inv_new hi, inv_new ho⟩, ?_, hempty hi⟩
  have hnone : conn.accepted = [] := by simp [TcpConnection.accepted, hconn.effects]
  have hstill := (still_connectEstablished conn).1
  rw [hempty ho, List.append_nil]
  exact hstill.trans hnone

theorem Conserved.step {s t : Traffic} (h : Conserved s) {l : BufferedStep}
    (ho : s.conn.Offered l) (hfits : s.conn.Fits l) (hst : trafficMachine.step s l = some t) :
    Conserved t := by
  obtain ⟨c, hc, rfl⟩ := Option.map_eq_some_iff.mp hst
  obtain ⟨c', hc', hinv, hq⟩ := (does_iff_fits h.inv ho).mpr hfits
  obtain rfl := Option.some.inj (hc'.symm.trans hc)
  have hq : c'.queued = s.conn.queued.streamStep l.onQueues := hq
  obtain ⟨n, hacc, hout⟩ := streamStep_flows s.conn.queued l.onQueues
  have hin := input_streamStep s.conn l
  rw [← hq] at hacc hout hin
  rw [outputBuffer_queued, outputBuffer_queued] at hout
  refine ⟨hinv, ?_, ?_⟩
  · dsimp only
    rw [show c'.conn.accepted = _ from hacc, hout, List.append_assoc, outputBuffer_queued,
      List.take_append_drop, ← h.output, List.append_assoc]
    rfl
  · dsimp only
    rw [List.append_assoc, show _ ++ c'.inputBuffer_.readable = _ from hin, ← h.input,
      List.append_assoc]

/-- In a run whose steps find room for every byte they store, nothing is lost, duplicated or
reordered in either direction: what `::write` accepted, followed by what is readable in
`outputBuffer_`, is what was submitted, and what the user has taken, followed by what is
readable in `inputBuffer_`, is what was received. The bytes of a send that finds the
connection down, or whose `::write` fails with `EPIPE` or `ECONNRESET`, are not submitted. -/
theorem traffic_conserved {s : Traffic}
    (h : trafficMachine.Reach (fun s l => s.conn.Offered l ∧ s.conn.Fits l) s) :
    s.conn.conn.accepted ++ s.conn.outputBuffer_.readable = s.submitted ∧
      s.taken ++ s.conn.inputBuffer_.readable = s.received := by
  have hc : Conserved s := by
    refine h.invariant (I := Conserved) (fun _ => conserved_init) ?_
    exact fun s l t hs hok hst => hs.step hok.1 hok.2 hst
  exact ⟨hc.output, hc.input⟩

instance (b : Buffer) (n : Nat) : Decidable (b.Takes n) := by unfold Buffer.Takes; infer_instance

instance (b : Buffer) (n : Nat) : Decidable (b.Receives n) := by
  unfold Buffer.Receives Buffer.RoomForExtra
  infer_instance

instance (c : BufferedConnection) (l : BufferedStep) : Decidable (c.Offered l) := by
  cases l <;> unfold Offered <;> infer_instance

instance (c : BufferedConnection) (l : BufferedStep) : Decidable (c.Fits l) := by
  unfold Fits SendFits
  cases l with
  | handleRead r => cases r <;> infer_instance
  | _ => infer_instance

/-- An answer that the socket takes half of, and a message that is taken in two pieces. -/
theorem traffic_conserved_exchange :
    ∃ s : Traffic, trafficMachine.runIf (fun s l => s.conn.Offered l ∧ s.conn.Fits l)
        { conn := ⟨(TcpConnection.new 1 5).connectEstablished [],
          ⟨⟨List.replicate 1032 0, by decide +kernel⟩, 8, 8⟩,
          ⟨⟨List.replicate 1032 0, by decide +kernel⟩, 8, 8⟩⟩ }
        [.handleRead (.received [7, 8, 9]), .retrieve 1,
          .send ⟨[1, 2, 3, 4], by decide⟩ (.wrote 2), .handleWrite (.wrote 1), .retrieve 2] =
          some s ∧
      s.conn.conn.accepted ++ s.conn.outputBuffer_.readable = s.submitted ∧
      s.taken ++ s.conn.inputBuffer_.readable = s.received := by
  refine Machine.exists_runIf ?_ (by decide +kernel) fun _ _ h => traffic_conserved h
  exact ⟨_, _, _, rfl, rfl, fresh_new 1 5, rfl⟩

end BufferedConnection

end Muduo
