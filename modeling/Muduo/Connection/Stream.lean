import Muduo.Connection.Phases
import Muduo.Library.Fifo

/-!
# The byte stream of a connection

`sendInLoop` writes directly when it can and buffers otherwise, and `handleWrite`
drains the buffer. Seen from outside both are moves of one queue: data enters it, and
leaves it when `::write` accepts it.
-/

namespace Muduo

def Effect.accepted : Effect → List UInt8
  | .write bytes => bytes
  | _ => []

namespace TcpConnection

/-- The bytes that `::write` accepted, in order. -/
def accepted (c : TcpConnection) : List UInt8 := c.effects.flatMap Effect.accepted

/-- The call reaches `::write`, which fails with `EPIPE` or `ECONNRESET`. -/
def endsInFault (c : TcpConnection) (w : WriteResult) : Bool :=
  !c.channel_.isWriting && c.outputBuffer_.length == 0 &&
    (w == .error EPIPE || w == .error ECONNRESET)

/-- The data for which a call of `sendInLoop` takes responsibility: none where the connection
is down, or where `::write` reports `EPIPE` or `ECONNRESET`. -/
def submits (c : TcpConnection) (data : List UInt8) (w : WriteResult) : List UInt8 :=
  if c.state_ = .kDisconnected ∨ c.endsInFault w = true then [] else data

/-- From `c` to `c'` the bytes `xs` entered the stream, and some number left it. -/
def Flows (c : TcpConnection) (xs : List UInt8) (c' : TcpConnection) : Prop :=
  ∃ n, c'.accepted = c.accepted ++ (c.outputBuffer_ ++ xs).take n ∧
    c'.outputBuffer_ = (c.outputBuffer_ ++ xs).drop n

/-- Nothing entered the stream or left it. -/
def Still (c c' : TcpConnection) : Prop :=
  c'.accepted = c.accepted ∧ c'.outputBuffer_ = c.outputBuffer_

variable {c c' c'' : TcpConnection}

theorem Still.refl (c : TcpConnection) : Still c c := ⟨rfl, rfl⟩

theorem Still.trans (h : Still c c') (h' : Still c' c'') : Still c c'' :=
  ⟨h'.1.trans h.1, h'.2.trans h.2⟩

theorem Still.flows (h : Still c c') : Flows c [] c' :=
  ⟨0, by simp [h.1], by simp [h.2]⟩

theorem Flows.still {xs : List UInt8} (h : Flows c xs c') (h' : Still c' c'') : Flows c xs c'' := by
  obtain ⟨n, ha, ho⟩ := h
  exact ⟨n, h'.1.trans ha, h'.2.trans ho⟩

@[simp] theorem accepted_emit (c : TcpConnection) (e : Effect) :
    (c.emit e).accepted = c.accepted ++ e.accepted := by
  simp [accepted]

theorem still_emit (c : TcpConnection) {e : Effect} (h : e.accepted = []) : Still c (c.emit e) :=
  ⟨by rw [accepted_emit, h, List.append_nil], rfl⟩

theorem still_onChannel (c : TcpConnection)
    (f : EpollPoller → Channel → Option Errno → EpollPoller × Channel) : Still c (c.onChannel f) :=
  ⟨rfl, rfl⟩

theorem still_shutdownInLoop (c : TcpConnection) : Still c c.shutdownInLoop := by
  unfold shutdownInLoop
  split
  · exact .refl c
  · exact still_emit c rfl

theorem still_checkHighWater (c : TcpConnection) (n : Nat) : Still c (c.checkHighWater n) := by
  simp only [checkHighWater]
  split
  · exact still_emit c rfl
  · exact .refl c

/-! ## Sending -/

theorem faultError_writeDirect (c : TcpConnection) (data : List UInt8) (w : WriteResult) :
    (c.writeDirect data w).2.faultError = c.endsInFault w := by
  unfold writeDirect endsInFault
  split_ifs with h
  · cases w with
    | wrote n => simp
    | error e =>
      have hne : EPIPE ≠ EWOULDBLOCK ∧ ECONNRESET ≠ EWOULDBLOCK := by decide
      simp only [h, Bool.true_and]
      grind
  · simp [h]

/-- What the direct write leaves for the buffer: all of the data, or what follows the
accepted bytes, which are gone from it. -/
theorem writeDirect_progress (c : TcpConnection) (data : List UInt8) (w : WriteResult) :
    ∃ n, (c.writeDirect data w).1.accepted = c.accepted ++ data.take n ∧
      (c.writeDirect data w).1.outputBuffer_ = c.outputBuffer_ ∧
      (c.writeDirect data w).2.nwrote = n ∧
      (c.writeDirect data w).2.remaining = data.length - n ∧ (n ≠ 0 → c.outputBuffer_ = []) ∧
      (c.endsInFault w = true → n = 0) := by
  unfold writeDirect
  split_ifs with h
  · have hout : c.outputBuffer_ = [] := by simpa using (Bool.and_eq_true_iff.mp h).2
    cases w with
    | wrote k =>
      refine ⟨min k data.length, ?_⟩
      dsimp only
      split
      · simp [Effect.accepted, hout, endsInFault]
      · simp [Effect.accepted, hout, endsInFault]
    | error e => exact ⟨0, by simp [Effect.accepted]⟩
  · exact ⟨0, by simp⟩

theorem bufferRest_stream (c : TcpConnection) (data : List UInt8) (s : SendProgress) :
    (c.bufferRest data s).accepted = c.accepted ∧
      (c.bufferRest data s).outputBuffer_ = c.outputBuffer_ ++
        if s.faultError then [] else (data.drop s.nwrote).take s.remaining := by
  have hw := still_checkHighWater c s.remaining
  unfold bufferRest
  split_ifs with h hf hf
  · simp [hf] at h
  · dsimp only
    split
    · exact ⟨hw.1, congrArg (· ++ _) hw.2⟩
    · exact ⟨hw.1, congrArg (· ++ _) hw.2⟩
  · simp
  · have hz : s.remaining = 0 := by simpa [hf] using h
    simp [hz]

/-- One call of `sendInLoop` is one arrival and at most one departure. -/
theorem sendInLoop_flows (c : TcpConnection) (data : List UInt8) (w : WriteResult) :
    Flows c (c.submits data w) (c.sendInLoop data w) := by
  by_cases hs : c.state_ = .kDisconnected
  · rw [submits, if_pos (.inl hs), sendInLoop_of_disconnected hs]
    exact (Still.refl c).flows
  · obtain ⟨n, ha, ho, hn, hr, hout, hz⟩ := writeDirect_progress c data w
    obtain ⟨ha', ho'⟩ := bufferRest_stream (c.writeDirect data w).1 data (c.writeDirect data w).2
    rw [ha] at ha'
    rw [ho, faultError_writeDirect, hn, hr, ← List.length_drop, List.take_length] at ho'
    rw [sendInLoop, if_neg hs]
    cases hf : c.endsInFault w with
    | true =>
      rw [submits, if_pos (.inr hf)]
      exact ⟨0, by simpa [hz hf] using ha', by simpa [hf] using ho'⟩
    | false =>
      rw [submits, if_neg (by simp [hs, hf])]
      simp only [hf, Bool.false_eq_true, if_false] at ho'
      by_cases hpos : n = 0
      · exact ⟨0, by simpa [hpos] using ha', by simpa [hpos] using ho'⟩
      · exact ⟨n, by simpa [hout hpos] using ha', by simpa [hout hpos] using ho'⟩

/-! ## Draining and closing -/

theorem still_stopWriting (c : TcpConnection) : Still c c.stopWriting := by
  simp only [stopWriting]
  split
  · exact (still_onChannel c _).trans (still_emit _ rfl)
  · exact still_onChannel c _

theorem writeOut_flows (c : TcpConnection) (w : WriteResult) : Flows c [] (c.writeOut w).1 := by
  unfold writeOut
  split
  · cases w with
    | wrote k =>
      have htaken : Flows c [] { c.emit (.write (c.outputBuffer_.take (min k c.outputBuffer_.length)))
          with outputBuffer_ := c.outputBuffer_.drop (min k c.outputBuffer_.length) } :=
        ⟨min k c.outputBuffer_.length, by simp [accepted, Effect.accepted], by simp⟩
      dsimp only
      split
      · split
        · exact htaken.still (still_stopWriting _)
        · exact htaken
      · have hz : min k c.outputBuffer_.length = 0 := by omega
        exact ⟨0, by simp [hz, Effect.accepted], by simp⟩
    | error e => exact (still_emit c rfl).flows
  · exact (Still.refl c).flows

theorem handleWrite_flows (c : TcpConnection) (w : WriteResult) : Flows c [] (c.handleWrite w) := by
  have hfin : Still (c.writeOut w).1 (c.writeOut w).1.finishDrain := by
    unfold finishDrain
    split
    · exact still_shutdownInLoop _
    · exact .refl _
  unfold handleWrite
  split
  · exact (writeOut_flows c w).still hfin
  · exact writeOut_flows c w

theorem still_shutdown (c : TcpConnection) : Still c c.shutdown := by
  unfold shutdown
  split
  · exact .trans ⟨rfl, rfl⟩ (still_shutdownInLoop _)
  · exact .refl c

/-- Calls made while the connection goes down move nothing. -/
theorem still_disconnect_userCalls (c : TcpConnection) (calls : List UserCall) :
    Still c (c.disconnect.userCalls calls) := by
  obtain ⟨b, hb⟩ := userCalls_of_disconnected (c := c.disconnect) rfl calls
  rw [hb]
  exact ⟨by simp [accepted, disconnect, Effect.accepted], rfl⟩

theorem still_handleClose (c : TcpConnection) (calls : List UserCall) :
    Still c (c.handleClose calls) :=
  (still_disconnect_userCalls c calls).trans (still_emit _ rfl)

theorem still_removeChannel (c : TcpConnection) : Still c c.removeChannel := by
  unfold removeChannel
  split <;> exact ⟨rfl, rfl⟩

theorem still_connectDestroyed (c : TcpConnection) (calls : List UserCall) :
    Still c (c.connectDestroyed calls) := by
  unfold connectDestroyed
  split
  · exact (still_disconnect_userCalls c calls).trans (still_removeChannel _)
  · exact still_removeChannel c

theorem still_connectEstablished (c : TcpConnection) : Still c (c.connectEstablished []) :=
  ⟨by simp [accepted, connectEstablished, userCalls, Effect.accepted], rfl⟩

/-! ## Runs -/

/-- What happens to the connection on its loop thread. A callback that is the last thing
a handler does makes its calls in steps of their own. -/
inductive StreamStep where
  | sendInLoop (data : List UInt8) (w : WriteResult)
  | userCall (u : UserCall)
  | handleWrite (w : WriteResult)
  | handleRead (r : ReadResult)
  | shutdownInLoop
  | handleClose (calls : List UserCall)
  | connectDestroyed (calls : List UserCall)

def streamStep (c : TcpConnection) : StreamStep → TcpConnection
  | .sendInLoop data w => c.sendInLoop data w
  | .userCall u => c.userCall u
  | .handleWrite w => c.handleWrite w
  | .handleRead r => c.handleRead r []
  | .shutdownInLoop => c.shutdownInLoop
  | .handleClose calls => c.handleClose calls
  | .connectDestroyed calls => c.connectDestroyed calls

/-- The data of the step's call of `sendInLoop`, if it makes one that counts. -/
def StreamStep.submits (c : TcpConnection) : StreamStep → List UInt8
  | .sendInLoop data w => c.submits data w
  | .userCall (.send data w) => if c.state_ = .kConnected then c.submits data w else []
  | _ => []

theorem streamStep_flows (c : TcpConnection) (l : StreamStep) :
    Flows c (l.submits c) (c.streamStep l) := by
  cases l with
  | sendInLoop data w => exact sendInLoop_flows c data w
  | userCall u =>
    cases u with
    | send data w =>
      by_cases hs : c.state_ = .kConnected
      · simpa [StreamStep.submits, streamStep, userCall, send, hs] using sendInLoop_flows c data w
      · simpa [StreamStep.submits, streamStep, userCall, send, hs] using (Still.refl c).flows
    | shutdown => exact (still_shutdown c).flows
    | retrieve n => exact Still.flows ⟨rfl, rfl⟩
  | handleWrite w => exact handleWrite_flows c w
  | handleRead r =>
    refine Still.flows ?_
    rcases r with (_ | ⟨b, bs⟩) | e
    · exact still_handleClose c []
    · exact ⟨by simp [streamStep, handleRead, accepted, userCalls, Effect.accepted], rfl⟩
    · exact .refl c
  | shutdownInLoop => exact (still_shutdownInLoop c).flows
  | handleClose calls => exact (still_handleClose c calls).flows
  | connectDestroyed calls => exact (still_connectDestroyed c calls).flows

/-- A connection together with all data submitted so far, in call order. -/
structure Submission where
  conn : TcpConnection
  submitted : List UInt8 := []

def streamMachine : Machine Submission StreamStep where
  init s := ∃ c, Fresh c ∧ s = { conn := c.connectEstablished [] }
  step s l := some ⟨s.conn.streamStep l, s.submitted ++ l.submits s.conn⟩

/-- The connection is the queue: submitted data enters, accepted data has left, and
`outputBuffer_` is what waits. -/
structure Submission.Queue (s : Submission) (q : Fifo UInt8) : Prop where
  entered : q.entered = s.submitted
  left : q.left = s.conn.accepted
  waiting : q.waiting = s.conn.outputBuffer_

theorem stream_simulation :
    Machine.Simulation streamMachine (fun _ _ => True) (Fifo.machine UInt8) Submission.Queue where
  init := by
    rintro s ⟨c, hc, rfl⟩
    obtain ⟨ha, ho⟩ := still_connectEstablished c
    refine ⟨.empty, rfl, rfl, ?_, ?_⟩
    · simpa [accepted, hc.effects] using ha.symm
    · exact (ho.trans hc.output).symm
  step := by
    rintro s l t q ⟨he, hl, hw⟩ - hst
    obtain rfl := Option.some.inj hst
    obtain ⟨n, ha, ho⟩ := streamStep_flows s.conn l
    refine ⟨[.enter (l.submits s.conn), .leave n], _, rfl, ?_, ?_, ?_⟩
    · simp [he]
    · simp [hl, hw, ha]
    · simp [hw, ho]

/-- Nothing is lost, duplicated or reordered on the way through `outputBuffer_`. -/
theorem accepted_append_outputBuffer {s : Submission} (h : streamMachine.Reachable s) :
    s.conn.accepted ++ s.conn.outputBuffer_ = s.submitted := by
  obtain ⟨q, -, he, hl, hw⟩ := stream_simulation.reach h
  rw [← hl, ← hw, q.balanced, he]

/-- A direct write that takes one byte of three, and a drain that takes one more. -/
theorem accepted_append_outputBuffer_partial :
    let c := (((new 1 5).connectEstablished []).sendInLoop [104, 105, 33] (.wrote 1)).handleWrite
      (.wrote 1)
    c.accepted ++ c.outputBuffer_ = [104, 105, 33] :=
  accepted_append_outputBuffer
    (Machine.reachable_run ⟨new 1 5, fresh_new 1 5, rfl⟩
      [.sendInLoop [104, 105, 33] (.wrote 1), .handleWrite (.wrote 1)] rfl)

end TcpConnection

end Muduo
