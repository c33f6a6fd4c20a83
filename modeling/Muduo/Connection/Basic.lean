import Muduo.Poller.Basic

/-!
# A TCP connection on its loop thread

The functions of `TcpConnection` that run on the loop thread, with the results of the
system calls and the calls made by user callbacks as inputs. What leaves the object
is appended to `effects`: callbacks, functors queued on the loop, and what `::write`
and `::shutdown` did. Both buffers are byte queues.

A connection sees of its loop's poller only the slots of its own descriptor, and
descriptors of open sockets are distinct, so each connection carries its own view.
-/

namespace Muduo

inductive StateE where
  | kDisconnected | kConnecting | kConnected | kDisconnecting
  deriving DecidableEq, Repr

/-- What `::write` returned: a count, of which no more than was offered is taken, or
an error. -/
inductive WriteResult where
  | wrote (n : Nat)
  | error (errno : Errno)
  deriving DecidableEq, Repr

/-- What `readv` returned: bytes, none of them at the end of the stream, or an error. -/
inductive ReadResult where
  | received (bytes : List UInt8)
  | error (errno : Errno)
  deriving DecidableEq, Repr

/-- What a user callback does with the connection on the loop thread. -/
inductive UserCall where
  | send (data : List UInt8) (w : WriteResult)
  | shutdown
  | retrieve (n : Nat)
  deriving DecidableEq, Repr

inductive Effect where
  /-- `connectionCallback_`, from `connectEstablished` or on the way down -/
  | connectionCallback (up : Bool)
  | messageCallback (readable : List UInt8)
  | closeCallback
  | queueWriteComplete
  | queueHighWaterMark (amount : Nat)
  | write (accepted : List UInt8)
  | writeError (errno : Errno)
  | shutdownWrite
  deriving DecidableEq, Repr

structure TcpConnection where
  state_ : StateE := .kConnecting
  channel_ : Channel
  poller : EpollPoller := {}
  inputBuffer_ : List UInt8 := []
  outputBuffer_ : List UInt8 := []
  highWaterMark_ : Nat := 64 * 1024 * 1024
  writeCompleteCallback_ : Bool := false
  highWaterMarkCallback_ : Bool := false
  effects : List Effect := []
  aborted : Option Assertion := none

namespace TcpConnection

/-- The constructor: `kConnecting`, and a channel on the accepted descriptor. -/
def new (addr sockfd : Nat) : TcpConnection := { channel_ := { addr := addr, fd_ := sockfd } }

def setState (c : TcpConnection) (s : StateE) : TcpConnection := { c with state_ := s }

def emit (c : TcpConnection) (e : Effect) : TcpConnection := { c with effects := c.effects ++ [e] }

/-- Apply a channel operation in the loop's poller, where `epoll_ctl` refuses nothing. -/
def onChannel (c : TcpConnection)
    (f : EpollPoller → Channel → Option Errno → EpollPoller × Channel) : TcpConnection :=
  { c with poller := (f c.poller c.channel_ none).1, channel_ := (f c.poller c.channel_ none).2 }

def shutdownInLoop (c : TcpConnection) : TcpConnection :=
  if c.channel_.isWriting then c else c.emit .shutdownWrite

/-! ## Sending -/

/-- The local variables of `sendInLoop` after the direct write. -/
structure SendProgress where
  nwrote : Nat
  remaining : Nat
  faultError : Bool

/-- With nothing buffered and no write event pending, the data goes to `::write` at once. The
source logs between a failed `::write` and its tests of `errno`; logging is taken to leave
`errno` alone. -/
def writeDirect (c : TcpConnection) (data : List UInt8) (w : WriteResult) :
    TcpConnection × SendProgress :=
  if !c.channel_.isWriting && c.outputBuffer_.length == 0 then
    match w with
    | .wrote n =>
      let nwrote := min n data.length
      let remaining := data.length - nwrote
      let c := c.emit (.write (data.take nwrote))
      (if remaining == 0 && c.writeCompleteCallback_ then c.emit .queueWriteComplete else c,
        ⟨nwrote, remaining, false⟩)
    | .error errno =>
      (c.emit (.writeError errno),
        ⟨0, data.length, errno != EWOULDBLOCK && (errno == EPIPE || errno == ECONNRESET)⟩)
  else (c, ⟨0, data.length, false⟩)

/-- The callback is queued when the buffer crosses the mark. -/
def checkHighWater (c : TcpConnection) (remaining : Nat) : TcpConnection :=
  let oldLen := c.outputBuffer_.length
  if decide (c.highWaterMark_ ≤ oldLen + remaining) && decide (oldLen < c.highWaterMark_) &&
      c.highWaterMarkCallback_ then
    c.emit (.queueHighWaterMark (oldLen + remaining))
  else c

/-- What is left goes to the output buffer, and the channel waits for write events. -/
def bufferRest (c : TcpConnection) (data : List UInt8) (s : SendProgress) : TcpConnection :=
  if !s.faultError && decide (0 < s.remaining) then
    let c := c.checkHighWater s.remaining
    let c := { c with outputBuffer_ := c.outputBuffer_ ++ (data.drop s.nwrote).take s.remaining }
    if c.channel_.isWriting then c else c.onChannel Channel.enableWriting
  else c

def sendInLoop (c : TcpConnection) (data : List UInt8) (w : WriteResult) : TcpConnection :=
  if c.state_ = .kDisconnected then c
  else (c.writeDirect data w).1.bufferRest data (c.writeDirect data w).2

/-- `send` called on the loop thread. -/
def send (c : TcpConnection) (data : List UInt8) (w : WriteResult) : TcpConnection :=
  if c.state_ = .kConnected then c.sendInLoop data w else c

/-- `shutdown` called on the loop thread, where `runInLoop` calls at once. -/
def shutdown (c : TcpConnection) : TcpConnection :=
  if c.state_ = .kConnected then (c.setState .kDisconnecting).shutdownInLoop else c

def userCall (c : TcpConnection) : UserCall → TcpConnection
  | .send data w => c.send data w
  | .shutdown => c.shutdown
  | .retrieve n => { c with inputBuffer_ := c.inputBuffer_.drop n }

def userCalls (c : TcpConnection) (calls : List UserCall) : TcpConnection :=
  calls.foldl userCall c

/-! ## Establishing, closing, destroying -/

def connectEstablished (c : TcpConnection) (calls : List UserCall) : TcpConnection :=
  let c := c.setState .kConnected
  let c := { c with channel_ := { c.channel_ with tied_ := true } }
  let c := c.onChannel Channel.enableReading
  (c.emit (.connectionCallback true)).userCalls calls

/-- The three lines shared by `handleClose` and `connectDestroyed`. -/
def disconnect (c : TcpConnection) : TcpConnection :=
  ((c.setState .kDisconnected).onChannel Channel.disableAll).emit (.connectionCallback false)

def handleClose (c : TcpConnection) (calls : List UserCall) : TcpConnection :=
  (c.disconnect.userCalls calls).emit .closeCallback

/-- `channel_->remove()` -/
def removeChannel (c : TcpConnection) : TcpConnection :=
  match Channel.remove c.poller c.channel_ none with
  | .ok (p, ch) => { c with poller := p, channel_ := ch }
  | .error a => { c with aborted := some a }

def connectDestroyed (c : TcpConnection) (calls : List UserCall) : TcpConnection :=
  (if c.state_ = .kConnected then c.disconnect.userCalls calls else c).removeChannel

/-! ## Events -/

def handleRead (c : TcpConnection) (r : ReadResult) (calls : List UserCall) : TcpConnection :=
  match r with
  | .received bytes =>
    if bytes.length > 0 then
      let c := { c with inputBuffer_ := c.inputBuffer_ ++ bytes }
      (c.emit (.messageCallback c.inputBuffer_)).userCalls calls
    else c.handleClose calls
  | .error _ => c

/-- The buffer has been emptied. -/
def stopWriting (c : TcpConnection) : TcpConnection :=
  let c := c.onChannel Channel.disableWriting
  if c.writeCompleteCallback_ then c.emit .queueWriteComplete else c

/-- The buffered bytes are offered to `::write`; `true` when that empties the buffer. -/
def writeOut (c : TcpConnection) (w : WriteResult) : TcpConnection × Bool :=
  if c.channel_.isWriting then
    match w with
    | .wrote k =>
      let n := min k c.outputBuffer_.length
      let c := c.emit (.write (c.outputBuffer_.take n))
      if n > 0 then
        let c := { c with outputBuffer_ := c.outputBuffer_.drop n }
        if c.outputBuffer_.length == 0 then (c.stopWriting, true) else (c, false)
      else (c, false)
    | .error errno => (c.emit (.writeError errno), false)
  else (c, false)

/-- The last test of `handleWrite`, made once the buffer is empty. -/
def finishDrain (c : TcpConnection) : TcpConnection :=
  if c.state_ = .kDisconnecting then c.shutdownInLoop else c

def handleWrite (c : TcpConnection) (w : WriteResult) : TcpConnection :=
  if (c.writeOut w).2 then (c.writeOut w).1.finishDrain else (c.writeOut w).1

/-- The four callbacks of the channel. -/
inductive Handler where
  | close | error | read | write
  deriving DecidableEq, Repr

/-- The callbacks that `handleEventWithGuard` runs for a mask, in its order. -/
def handlers (revents : EventMask) : List Handler :=
  (if revents.has EPOLLHUP && !revents.has EPOLLIN then [.close] else []) ++
  (if revents.has EPOLLERR then [.error] else []) ++
  (if revents.has (EPOLLIN ||| EPOLLPRI ||| EPOLLRDHUP) then [.read] else []) ++
  (if revents.has EPOLLOUT then [.write] else [])

/-- What the environment does during one dispatch: the results of `readv` and
`::write`, and the calls made by the user callback that each handler reaches. -/
structure Environment where
  read : ReadResult := .error EAGAIN
  write : WriteResult := .error EAGAIN
  onClose : List UserCall := []
  onError : List UserCall := []
  onRead : List UserCall := []

/-- The bindings made by the constructor: the error callback is `handleClose` as well. -/
def runHandler (env : Environment) (c : TcpConnection) : Handler → TcpConnection
  | .close => c.handleClose env.onClose
  | .error => c.handleClose env.onError
  | .read => c.handleRead env.read env.onRead
  | .write => c.handleWrite env.write

def setEventHandling (c : TcpConnection) (b : Bool) : TcpConnection :=
  { c with channel_ := { c.channel_ with eventHandling_ := b } }

def handleEventWithGuard (c : TcpConnection) (revents : EventMask) (env : Environment) :
    TcpConnection :=
  ((handlers revents).foldl (runHandler env) (c.setEventHandling true)).setEventHandling false

/-- `locked`: the tied object was still alive. -/
def handleEvent (c : TcpConnection) (locked : Bool) (revents : EventMask) (env : Environment) :
    TcpConnection :=
  if c.channel_.tied_ && !locked then c else c.handleEventWithGuard revents env

/-- Whether epoll can report events of the connection's descriptor. -/
def registered (c : TcpConnection) : Bool := (c.poller.interest c.channel_.fd_).isSome

end TcpConnection

end Muduo
