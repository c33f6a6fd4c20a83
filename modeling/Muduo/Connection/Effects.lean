import Muduo.Connection.HalfClose

/-!
# What a step adds to the effects

Three kinds of steps move the output buffer or leave it alone: a call of `sendInLoop`, a
call of `handleWrite`, and everything else. What each adds to `effects` is said here once,
in the order in which it happens.
-/

namespace Muduo

namespace TcpConnection

/-- What the direct write of `sendInLoop` does. -/
def directEffects (c : TcpConnection) (data : List UInt8) (w : WriteResult) : List Effect :=
  if !c.channel_.isWriting && c.outputBuffer_.length == 0 then
    match w with
    | .wrote n =>
      .write (data.take (min n data.length)) ::
        if data.length ≤ n ∧ c.writeCompleteCallback_ = true then [.queueWriteComplete] else []
    | .error errno => [.writeError errno]
  else []

/-- The high-water callback, when the buffer goes from below the mark to `amount`. -/
def crossing (c : TcpConnection) (amount : Nat) : List Effect :=
  if c.outputBuffer_.length < c.highWaterMark_ ∧ c.highWaterMark_ ≤ amount ∧
      c.highWaterMarkCallback_ = true then
    [.queueHighWaterMark amount]
  else []

/-- What `handleWrite` does. -/
def drainEffects (c : TcpConnection) (w : WriteResult) : List Effect :=
  if c.channel_.isWriting then
    match w with
    | .wrote n =>
      .write (c.outputBuffer_.take (min n c.outputBuffer_.length)) ::
        if c.drains w then
          (if c.writeCompleteCallback_ then [.queueWriteComplete] else []) ++
            if c.state_ = .kDisconnecting then [.shutdownWrite] else []
        else []
    | .error errno => [.writeError errno]
  else []

/-- The buffer is as it was, and nothing has to do with sending. -/
def Aside (c c' : TcpConnection) : Prop :=
  c'.outputBuffer_ = c.outputBuffer_ ∧
    ∃ es, c'.effects = c.effects ++ es ∧ ∀ e ∈ es, e.sends = false

variable {c c' c'' : TcpConnection} {data : List UInt8} {w : WriteResult}

/-! ## Sending -/

theorem writeDirect_eq (c : TcpConnection) (data : List UInt8) (w : WriteResult) :
    (c.writeDirect data w).1 = { c with effects := c.effects ++ c.directEffects data w } := by
  unfold writeDirect directEffects
  split
  · cases w with
    | wrote n =>
      have hle : (data.length - min n data.length == 0) = decide (data.length ≤ n) := by
        rw [Bool.eq_iff_iff]
        simp only [beq_iff_eq, decide_eq_true_eq]
        omega
      simp only [hle, emit, Bool.and_eq_true, decide_eq_true_eq]
      split
      · simp
      · simp
    | error e => rfl
  · simp

theorem effects_bufferRest (c : TcpConnection) (data : List UInt8) (s : SendProgress)
    (hs : s.remaining ≤ (data.drop s.nwrote).length) :
    (c.bufferRest data s).effects =
      c.effects ++ c.crossing (c.bufferRest data s).outputBuffer_.length := by
  have hout := (bufferRest_stream c data s).2
  by_cases hr : (!s.faultError && decide (0 < s.remaining)) = true
  · have hlen : (c.bufferRest data s).outputBuffer_.length =
        c.outputBuffer_.length + s.remaining := by
      have hf : s.faultError = false := by simp at hr; exact hr.1
      rw [hout, hf]
      simp only [Bool.false_eq_true, if_false, List.length_append, List.length_take]
      omega
    have heff : (c.bufferRest data s).effects = (c.checkHighWater s.remaining).effects := by
      unfold bufferRest
      rw [if_pos hr]
      dsimp only
      split <;> rfl
    rw [heff, hlen, crossing, checkHighWater]
    simp only [Bool.and_eq_true, decide_eq_true_eq]
    split_ifs with h₁ h₂ h₂
    · rfl
    · exact absurd ⟨h₁.1.2, h₁.1.1, h₁.2⟩ h₂
    · exact absurd ⟨⟨h₂.2.1, h₂.1⟩, h₂.2.2⟩ h₁
    · simp
  · have hsame : c.bufferRest data s = c := by rw [bufferRest, if_neg hr]
    have hno : c.crossing c.outputBuffer_.length = [] := by
      rw [crossing, if_neg]
      omega
    rw [hsame, hno, List.append_nil]

theorem effects_sendInLoop (hs : c.state_ ≠ .kDisconnected) (data : List UInt8) (w : WriteResult) :
    (c.sendInLoop data w).effects =
      c.effects ++ c.directEffects data w ++
        c.crossing (c.sendInLoop data w).outputBuffer_.length := by
  obtain ⟨n, -, -, hn, hr, -⟩ := writeDirect_progress c data w
  rw [sendInLoop, if_neg hs, effects_bufferRest _ _ _ (by rw [hn, hr, List.length_drop]),
    writeDirect_eq]
  rfl

/-! ## Draining -/

theorem effects_stopWriting (c : TcpConnection) :
    c.stopWriting.effects =
      c.effects ++ if c.writeCompleteCallback_ then [.queueWriteComplete] else [] := by
  have hcb : (c.onChannel Channel.disableWriting).writeCompleteCallback_ =
      c.writeCompleteCallback_ := rfl
  simp only [stopWriting, hcb]
  split
  · rfl
  · simp

/-- The write, and the notification if it empties the buffer. -/
theorem effects_writeOut (hw : c.channel_.isWriting = true) (k : Nat) :
    (c.writeOut (.wrote k)).1.effects =
      c.effects ++ .write (c.outputBuffer_.take (min k c.outputBuffer_.length)) ::
        if c.drains (.wrote k) = true ∧ c.writeCompleteCallback_ = true then [.queueWriteComplete]
        else [] := by
  rw [← writeOut_snd]
  simp only [writeOut, hw, if_true]
  split
  · split
    · rw [effects_stopWriting]
      cases hcb : c.writeCompleteCallback_ with
      | true => simp [emit, hcb]
      | false => simp [emit, hcb]
    · simp
  · simp

theorem effects_finishDrain (hw : c.channel_.isWriting = false) :
    c.finishDrain.effects =
      c.effects ++ if c.state_ = .kDisconnecting then [.shutdownWrite] else [] := by
  unfold finishDrain
  split
  · simp [shutdownInLoop, hw]
  · simp

theorem effects_handleWrite (c : TcpConnection) (w : WriteResult) :
    (c.handleWrite w).effects = c.effects ++ c.drainEffects w := by
  unfold drainEffects
  split
  · rename_i hw
    cases w with
    | error e => simp [handleWrite, writeOut, hw]
    | wrote k =>
      dsimp only
      split
      · rename_i hd
        have hsnd := (writeOut_snd c (.wrote k)).trans hd
        rw [handleWrite, if_pos hsnd, effects_finishDrain (writeOut_drained hsnd).1,
          effects_writeOut hw, state_writeOut]
        simp [hd]
      · rename_i hd
        have hsnd := writeOut_snd c (.wrote k)
        rw [handleWrite, hsnd, if_neg hd, effects_writeOut hw]
        simp [hd]
  · simp [handleWrite, writeOut, *]

/-! ## Everything else -/

theorem Aside.refl (c : TcpConnection) : Aside c c := ⟨rfl, [], by simp, by simp⟩

theorem Aside.trans (h : Aside c c') (h' : Aside c' c'') : Aside c c'' := by
  obtain ⟨ho, es, he, hs⟩ := h
  obtain ⟨ho', es', he', hs'⟩ := h'
  refine ⟨ho'.trans ho, es ++ es', by rw [he', he, List.append_assoc], ?_⟩
  intro e hm
  exact (List.mem_append.mp hm).elim (hs e) (hs' e)

theorem aside_of_eq (ho : c'.outputBuffer_ = c.outputBuffer_) (he : c'.effects = c.effects) :
    Aside c c' :=
  ⟨ho, [], by simp [he], by simp⟩

theorem aside_emit (c : TcpConnection) {e : Effect} (he : e.sends = false) : Aside c (c.emit e) :=
  ⟨rfl, [e], rfl, by simpa using he⟩

theorem aside_shutdownInLoop (c : TcpConnection) : Aside c c.shutdownInLoop := by
  unfold shutdownInLoop
  split
  · exact .refl c
  · exact aside_emit c rfl

theorem aside_shutdown (c : TcpConnection) : Aside c c.shutdown := by
  unfold shutdown
  split
  · exact (aside_of_eq rfl rfl).trans (aside_shutdownInLoop _)
  · exact .refl c

theorem aside_disconnect_userCalls (c : TcpConnection) (calls : List UserCall) :
    Aside c (c.disconnect.userCalls calls) := by
  obtain ⟨b, hb⟩ := userCalls_of_disconnected (c := c.disconnect) rfl calls
  rw [hb]
  exact ⟨rfl, [.connectionCallback false], rfl, by simp [Effect.sends]⟩

theorem aside_handleClose (c : TcpConnection) (calls : List UserCall) :
    Aside c (c.handleClose calls) :=
  (aside_disconnect_userCalls c calls).trans (aside_emit _ rfl)

theorem aside_connectDestroyed (c : TcpConnection) (calls : List UserCall) :
    Aside c (c.connectDestroyed calls) := by
  have hremove : ∀ c : TcpConnection, Aside c c.removeChannel := fun c =>
    aside_of_eq (removeChannel_rest c).2.1 (removeChannel_rest c).2.2
  unfold connectDestroyed
  split
  · exact (aside_disconnect_userCalls c calls).trans (hremove _)
  · exact hremove c

/-- The call of `sendInLoop` that a step makes, if it makes one. -/
def StreamStep.sendCall (c : TcpConnection) : StreamStep → Option (List UInt8 × WriteResult)
  | .sendInLoop data w => some (data, w)
  | .userCall (.send data w) => if c.state_ = .kConnected then some (data, w) else none
  | _ => none

/-- The three kinds of steps. -/
inductive StepKind (c : TcpConnection) (l : StreamStep) : Prop where
  | send (data : List UInt8) (w : WriteResult) : l.sendCall c = some (data, w) →
      c.streamStep l = c.sendInLoop data w → StepKind c l
  | drain (w : WriteResult) : l.sendCall c = none → c.streamStep l = c.handleWrite w →
      StepKind c l
  | aside : l.sendCall c = none → Aside c (c.streamStep l) → StepKind c l

theorem stepKind (c : TcpConnection) (l : StreamStep) : StepKind c l := by
  cases l with
  | sendInLoop data w => exact .send data w rfl rfl
  | userCall u =>
    cases u with
    | send data w =>
      by_cases hs : c.state_ = .kConnected
      · refine .send data w (if_pos hs) ?_
        rw [streamStep, userCall, send, if_pos hs]
      · refine .aside (if_neg hs) ?_
        rw [streamStep, userCall, send, if_neg hs]
        exact .refl c
    | shutdown => exact .aside rfl (aside_shutdown c)
    | retrieve n => exact .aside rfl (aside_of_eq rfl rfl)
  | handleWrite w => exact .drain w rfl rfl
  | handleRead r =>
    refine .aside rfl ?_
    rcases r with (_ | ⟨b, bs⟩) | e
    · exact aside_handleClose c []
    · exact ⟨rfl, [.messageCallback (c.inputBuffer_ ++ b :: bs)], rfl, by simp [Effect.sends]⟩
    · exact .refl c
  | shutdownInLoop => exact .aside rfl (aside_shutdownInLoop c)
  | handleClose calls => exact .aside rfl (aside_handleClose c calls)
  | connectDestroyed calls => exact .aside rfl (aside_connectDestroyed c calls)

end TcpConnection

end Muduo
