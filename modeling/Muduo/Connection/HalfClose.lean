import Muduo.Connection.Stream
import Muduo.Connection.Threads

/-!
# Half-closing after sending

`shutdown` stores `kDisconnecting` and half-closes as soon as nothing is buffered.
Functors of earlier sends may still be queued then: `sendInLoop` tests for
`kDisconnected` alone, so they write to the socket after `SHUT_WR`. The half-close comes
last exactly when no send is under way at that moment.
-/

namespace Muduo

def Effect.isWrite : Effect → Bool
  | .write _ | .writeError _ => true
  | _ => false

def WriteResult.faults (w : WriteResult) : Bool := w == .error EPIPE || w == .error ECONNRESET

namespace TcpConnection

/-- Write events are awaited exactly while bytes wait. -/
def Coupled (c : TcpConnection) : Prop :=
  c.channel_.isWriting = true ↔ c.outputBuffer_ ≠ []

/-- `::write` takes everything that `handleWrite` offers, and it offers something. -/
def drains (c : TcpConnection) : WriteResult → Bool
  | .wrote n => c.channel_.isWriting && !c.outputBuffer_.isEmpty && decide (c.outputBuffer_.length ≤ n)
  | .error _ => false

variable {c c' c'' : TcpConnection} {w : WriteResult}

/-- Neither sending nor draining half-closes the socket. -/
theorem stableSending_not_shutdown : StableSending fun c => .shutdownWrite ∉ c.effects where
  emit := by
    intro c e he h
    have hne : e ≠ .shutdownWrite := by
      rintro rfl
      simp [Effect.sends] at he
    simp [h, hne.symm]
  output := fun _ _ h => h
  enableWriting := fun _ h => h
  disableWriting := fun _ h => h

theorem stableSending_state (st : StateE) : StableSending fun c => c.state_ = st where
  emit := fun _ _ _ h => h
  output := fun _ _ h => h
  enableWriting := fun _ h => h
  disableWriting := fun _ h => h

/-! ## Sending -/

@[simp] theorem channel_writeDirect (c : TcpConnection) (data : List UInt8) (w : WriteResult) :
    (c.writeDirect data w).1.channel_ = c.channel_ := by
  unfold writeDirect
  split
  · cases w with
    | wrote n => dsimp only; split <;> rfl
    | error e => rfl
  · rfl

theorem coupled_connectEstablished (h : Fresh c) : Coupled (c.connectEstablished []) := by
  have hw : (c.connectEstablished []).channel_.isWriting = false :=
    (Channel.isWriting_enableReading _ _ _).trans (isWriting_of_isNoneEvent h.silent)
  have ho : (c.connectEstablished []).outputBuffer_ = [] := h.output
  simp [Coupled, hw, ho]

/-- Either nothing is left to buffer, or bytes wait afterwards and write events are awaited. -/
theorem bufferRest_cases (c : TcpConnection) (data : List UInt8) (s : SendProgress)
    (hs : s.remaining ≤ (data.drop s.nwrote).length) :
    c.bufferRest data s = c ∨
      ((c.bufferRest data s).channel_.isWriting = true ∧
        (c.bufferRest data s).outputBuffer_ ≠ []) := by
  have hch : (c.checkHighWater s.remaining).channel_ = c.channel_ := by
    simp only [checkHighWater]
    split <;> rfl
  unfold bufferRest
  split_ifs with hr
  · have hne : (data.drop s.nwrote).take s.remaining ≠ [] := by
      have hpos : 0 < s.remaining := by simp at hr; exact hr.2
      intro hnil
      have hlen := congrArg List.length hnil
      simp only [List.length_take, List.length_nil] at hlen
      omega
    dsimp only
    split_ifs with hw
    · exact .inr ⟨hw, by simp [hne]⟩
    · exact .inr ⟨Channel.isWriting_enableWriting _ _ _, by simp [onChannel, hne]⟩
  · exact .inl rfl

theorem Coupled.bufferRest (h : Coupled c) (data : List UInt8) (s : SendProgress)
    (hs : s.remaining ≤ (data.drop s.nwrote).length) : Coupled (c.bufferRest data s) := by
  rcases bufferRest_cases c data s hs with he | ⟨hw, ho⟩
  · rwa [he]
  · simp [Coupled, hw, ho]

theorem Coupled.sendInLoop (h : Coupled c) (data : List UInt8) (w : WriteResult) :
    Coupled (c.sendInLoop data w) := by
  unfold TcpConnection.sendInLoop
  split_ifs with hs
  · exact h
  · obtain ⟨n, -, ho, hn, hr, -⟩ := writeDirect_progress c data w
    refine Coupled.bufferRest ?_ data _ (by rw [hn, hr, List.length_drop])
    rwa [Coupled, channel_writeDirect, ho]

/-! ## Draining -/

theorem isWriting_stopWriting (c : TcpConnection) : c.stopWriting.channel_.isWriting = false := by
  simp only [stopWriting]
  split <;> exact Channel.isWriting_disableWriting _ _ _

theorem state_writeOut (c : TcpConnection) (w : WriteResult) :
    (c.writeOut w).1.state_ = c.state_ :=
  (stableSending_state c.state_).writeOut w rfl

/-- `handleWrite` makes its last test exactly if `::write` drains the buffer. -/
theorem writeOut_snd (c : TcpConnection) (w : WriteResult) : (c.writeOut w).2 = c.drains w := by
  cases hw : c.channel_.isWriting with
  | false => cases w <;> simp [writeOut, drains, hw]
  | true =>
    cases w with
    | error e => simp [writeOut, drains, hw]
    | wrote k =>
      rw [Bool.eq_iff_iff]
      simp only [writeOut, drains, hw, if_true, Bool.true_and, Bool.and_eq_true,
        Bool.not_eq_true', List.isEmpty_eq_false_iff, decide_eq_true_eq, ← List.length_pos_iff]
      split_ifs with hpos hlen
      · simp only [outputBuffer_emit, List.length_drop, beq_iff_eq] at hlen
        simp only [true_iff]
        omega
      · simp only [outputBuffer_emit, List.length_drop, beq_iff_eq] at hlen
        simp only [false_iff]
        omega
      · simp only [false_iff]
        omega

theorem outputBuffer_stopWriting (c : TcpConnection) :
    c.stopWriting.outputBuffer_ = c.outputBuffer_ := (still_stopWriting c).2

theorem writeOut_drained (h : (c.writeOut w).2 = true) :
    (c.writeOut w).1.channel_.isWriting = false ∧ (c.writeOut w).1.outputBuffer_ = [] := by
  unfold writeOut at h ⊢
  split_ifs at h ⊢ with hw
  cases w with
  | error e => contradiction
  | wrote k =>
    dsimp only at h ⊢
    split_ifs at h ⊢ with hpos hlen
    refine ⟨isWriting_stopWriting _, ?_⟩
    rw [outputBuffer_stopWriting]
    exact List.length_eq_zero_iff.mp (beq_iff_eq.mp hlen)

/-- A write that does not drain the buffer leaves bytes there if there were any. -/
theorem writeOut_kept (h : (c.writeOut w).2 = false) :
    (c.writeOut w).1.channel_ = c.channel_ ∧
      ((c.writeOut w).1.outputBuffer_ ≠ [] ↔ c.outputBuffer_ ≠ []) := by
  unfold writeOut at h ⊢
  split_ifs at h ⊢ with hw
  · cases w with
    | error e => exact ⟨rfl, .rfl⟩
    | wrote k =>
      dsimp only at h ⊢
      split_ifs at h ⊢ with hpos hlen
      · refine ⟨rfl, iff_of_true ?_ ?_⟩
        · intro hnil
          exact hlen (beq_iff_eq.mpr (List.length_eq_zero_iff.mpr hnil))
        · rintro hnil
          simp [hnil] at hpos
      · exact ⟨rfl, .rfl⟩
  · exact ⟨rfl, .rfl⟩

theorem Coupled.writeOut (h : Coupled c) (w : WriteResult) : Coupled (c.writeOut w).1 := by
  cases hd : (c.writeOut w).2 with
  | true =>
    obtain ⟨hw, ho⟩ := writeOut_drained hd
    simp [Coupled, hw, ho]
  | false =>
    obtain ⟨hch, ho⟩ := writeOut_kept hd
    rw [Coupled, hch, ho]
    exact h

/-! ## An open connection and what was sent over it -/

/-- Open, coupled, and the stream holds exactly the bytes `sent`. -/
structure Carries (c : TcpConnection) (sent : List UInt8) : Prop where
  isOpen : Open c
  coupled : Coupled c
  stream : c.accepted ++ c.outputBuffer_ = sent

theorem Flows.stream {xs sent : List UInt8} (h : Flows c xs c')
    (hs : c.accepted ++ c.outputBuffer_ = sent) :
    c'.accepted ++ c'.outputBuffer_ = sent ++ xs := by
  obtain ⟨n, ha, ho⟩ := h
  rw [ha, ho, List.append_assoc, List.take_append_drop, ← List.append_assoc, hs]

namespace Carries

variable {sent : List UInt8} (h : Carries c sent)

include h

theorem sendInLoop (data : List UInt8) (hw : w.faults = false) :
    Carries (c.sendInLoop data w) (sent ++ data) where
  isOpen := stable_open.sendInLoop data w h.isOpen
  coupled := h.coupled.sendInLoop data w
  stream := by
    have hsub : c.submits data w = data := by
      have hs : c.state_ ≠ .kDisconnected := by rcases h.isOpen.state with hs | hs <;> simp [hs]
      have hf : (w == .error EPIPE || w == .error ECONNRESET) = false := hw
      rw [submits, if_neg (by simp [hs, endsInFault, hf])]
    have hflow := sendInLoop_flows c data w
    rw [hsub] at hflow
    exact hflow.stream h.stream

theorem still (ho : Open c') (hch : c'.channel_ = c.channel_) (hs : Still c c') :
    Carries c' sent :=
  ⟨ho, by rw [Coupled, hch, hs.2]; exact h.coupled, by rw [hs.1, hs.2, h.stream]⟩

theorem disconnecting : Carries (c.setState .kDisconnecting) sent :=
  h.still ⟨.inr rfl, h.isOpen.watched, h.isOpen.reading, h.isOpen.running⟩ rfl ⟨rfl, rfl⟩

theorem shutdownInLoop : Carries c.shutdownInLoop sent := by
  refine h.still (stable_open.shutdownInLoop h.isOpen) ?_ (still_shutdownInLoop c)
  unfold TcpConnection.shutdownInLoop
  split <;> rfl

theorem writeOut (w : WriteResult) : Carries (c.writeOut w).1 sent where
  isOpen := stable_open.sending.writeOut w h.isOpen
  coupled := h.coupled.writeOut w
  stream := by simpa using (writeOut_flows c w).stream h.stream

theorem handleWrite (w : WriteResult) : Carries (c.handleWrite w) sent := by
  have hw := h.writeOut w
  unfold TcpConnection.handleWrite TcpConnection.finishDrain
  split
  · split
    · exact hw.shutdownInLoop
    · exact hw
  · exact hw

theorem handleRead {r : ReadResult} (hr : r ≠ .received []) : Carries (c.handleRead r []) sent := by
  rcases r with (_ | ⟨b, bs⟩) | e
  · exact absurd rfl hr
  · refine h.still (h.isOpen.handleRead_received (b :: bs) (by simp) []) rfl ⟨?_, rfl⟩
    simp [TcpConnection.handleRead, accepted, userCalls, Effect.accepted]
  · exact h

theorem input (b : List UInt8) : Carries { c with inputBuffer_ := b } sent :=
  h.still (stable_open.input c b h.isOpen) rfl ⟨rfl, rfl⟩

end Carries

end TcpConnection

/-! ## Runs -/

/-- Every byte of the sends in `before` was accepted ahead of the half-close, and nothing
is written after it. -/
def HalfClosesLast (effects : List Effect) (before executed : List Send) : Prop :=
  ∀ pre post, effects = pre ++ .shutdownWrite :: post →
    (∀ x ∈ before, x ∈ executed) ∧ pre.flatMap Effect.accepted = executed.flatMap Send.data ∧
      ∀ e ∈ post, e.isWrite = false

theorem halfClosesLast_of_not_mem {effects : List Effect} {before executed : List Send}
    (h : .shutdownWrite ∉ effects) : HalfClosesLast effects before executed := by
  intro pre post he
  exact absurd (by simp [he]) h

theorem not_halfClosesLast (pre post : List Effect) {e : Effect} (he : e ∈ post)
    (hw : e.isWrite = true) {before executed : List Send} :
    ¬ HalfClosesLast (pre ++ .shutdownWrite :: post) before executed := by
  intro h
  have hf := (h pre post rfl).2.2 e he
  simp [hw] at hf

theorem accepted_of_not_isWrite {es : List Effect} (h : ∀ e ∈ es, e.isWrite = false) :
    es.flatMap Effect.accepted = [] := by
  rw [List.flatMap_eq_nil_iff]
  intro e he
  have := h e he
  cases e <;> grind [Effect.isWrite, Effect.accepted]

/-- With everything accepted, effects that write nothing may follow. -/
theorem HalfClosesLast.extend {effects es : List Effect} {before executed : List Send}
    (h : HalfClosesLast effects before executed) (hb : ∀ x ∈ before, x ∈ executed)
    (hall : effects.flatMap Effect.accepted = executed.flatMap Send.data)
    (hes : ∀ e ∈ es, e.isWrite = false) : HalfClosesLast (effects ++ es) before executed := by
  intro pre post he
  rcases List.append_eq_append_iff.mp he with ⟨mid, rfl, hmid⟩ | ⟨mid, rfl, hmid⟩
  · -- the half-close is one of the new effects
    have hpre : ∀ e ∈ mid, e.isWrite = false := by
      intro e hm
      exact hes e (by simp [hmid, hm])
    refine ⟨hb, ?_, ?_⟩
    · rw [List.flatMap_append, accepted_of_not_isWrite hpre, List.append_nil, hall]
    · intro e hm
      exact hes e (by simp [hmid, hm])
  · cases mid with
    | nil =>
      simp only [List.nil_append] at hmid
      refine ⟨hb, by simpa using hall, ?_⟩
      intro e hm
      exact hes e (by simp [← hmid, hm])
    | cons e mid =>
      simp only [List.cons_append, List.cons.injEq] at hmid
      obtain ⟨rfl, rfl⟩ := hmid
      obtain ⟨-, hacc, hpost⟩ := h pre mid rfl
      refine ⟨hb, hacc, ?_⟩
      intro e hm
      exact (List.mem_append.mp hm).elim (hpost e) (hes e)

namespace ThreadedConnection

variable {Tid : Type*}

/-- Neither the peer nor the server closes the connection, and no write faults. -/
def StaysOpen (s : ThreadedConnection Tid) : ConnLabel Tid → Prop
  | .handler r _ => (∀ h ∈ s.todo.head?, h = .read ∨ h = .write) ∧ r ≠ .received []
  | .runFunctor w => w.faults = false
  | .userCall (.send _ w) => w.faults = false
  | .pushDestroy | .destroy => False
  | _ => True

theorem StaysOpen.next {s : ThreadedConnection Tid} {r : ReadResult} {w : WriteResult}
    {h : TcpConnection.Handler} {hs : List TcpConnection.Handler}
    (hok : StaysOpen s (.handler r w)) (htodo : s.todo = h :: hs) : h = .read ∨ h = .write :=
  hok.1 h (by simp [htodo])

/-- The step is one that issues `::shutdown(SHUT_WR)`. -/
def HalfCloses (s : ThreadedConnection Tid) : ConnLabel Tid → Prop
  | .runFunctor _ =>
    s.queue.functors.head? = some .shutdownInLoop ∧ s.conn.channel_.isWriting = false
  | .userCall .shutdown => s.conn.state_ = .kConnected ∧ s.conn.channel_.isWriting = false
  | .handler _ w =>
    s.todo.head? = some .write ∧ s.conn.drains w = true ∧ s.conn.state_ = .kDisconnecting
  | _ => False

/-- The connection stays open, and no send is under way when it is half-closed. -/
def HalfClosesAlone (s : ThreadedConnection Tid) (l : ConnLabel Tid) : Prop :=
  StaysOpen s l ∧ (HalfCloses s l → ¬ InFlight s)

/-- What has been queued, what has returned and what has run. -/
structure Booked (s : ThreadedConnection Tid) : Prop where
  noDestroy : s.destroying = false ∧ .connectDestroyed ∉ s.queue.all
  covered : ∀ x ∈ s.returned, x ∈ s.executed ∨ .sendInLoop x ∈ s.queue.all
  before : ∀ x ∈ s.before, x ∈ s.returned
  stored : (∃ t, s.caller t = .queueing) ∨ .shutdownInLoop ∈ s.queue.all →
    s.conn.state_ = .kDisconnecting

/-- After the half-close the connection is still half-closed and nothing is left to write. -/
structure Sealed (s : ThreadedConnection Tid) : Prop where
  state : s.conn.state_ = .kDisconnecting
  noSend : ¬ InFlight s
  quiet : s.conn.channel_.isWriting = false

structure Sound (s : ThreadedConnection Tid) : Prop where
  booked : Booked s
  carries : s.conn.Carries (s.executed.flatMap Send.data)
  seals : .shutdownWrite ∈ s.conn.effects → Sealed s
  last : HalfClosesLast s.conn.effects s.before s.executed

variable {s t : ThreadedConnection Tid} {l : ConnLabel Tid}

/-! ### The books -/

theorem stable_disconnecting : TcpConnection.Stable fun c => c.state_ = .kDisconnecting where
  emit := fun _ _ _ h => h
  input := fun _ _ h => h
  output := fun _ _ h => h
  enableWriting := fun _ h => h
  disableWriting := fun _ h => h
  disconnecting := fun _ _ _ => rfl

theorem disconnecting_runHandler {c : TcpConnection} (hs : c.state_ = .kDisconnecting)
    {h : TcpConnection.Handler} {r : ReadResult} {w : WriteResult} (hh : h = .read ∨ h = .write)
    (hr : r ≠ .received []) :
    (TcpConnection.runHandler { read := r, write := w } c h).state_ = .kDisconnecting := by
  rcases hh with rfl | rfl
  · rcases r with (_ | ⟨b, bs⟩) | e
    · exact absurd rfl hr
    · exact hs
    · exact hs
  · exact stable_disconnecting.handleWrite w hs

theorem Booked.userCall (h : Booked s) (u : UserCall) : Booked (s.userCall u) := by
  obtain ⟨hd, hcov, hbef, hst⟩ := h
  by_cases hs : s.conn.state_ = .kConnected
  · cases u with
    | retrieve n => exact ⟨hd, hcov, hbef, hst⟩
    | shutdown =>
      rw [userCall_shutdown hs]
      exact ⟨hd, hcov, fun _ hx => hx, fun _ => stable_disconnecting.shutdownInLoop rfl⟩
    | send data w =>
      rw [userCall_send hs]
      refine ⟨hd, ?_, fun x hx => List.mem_append_left _ (hbef x hx), ?_⟩
      · intro x hx
        rcases List.mem_append.mp hx with hx | hx
        · exact (hcov x hx).imp_left (List.mem_append_left _)
        · exact .inl (List.mem_append_right _ hx)
      · intro hq
        exact stable_disconnecting.sendInLoop data w (hst hq)
  · obtain ⟨b, hb⟩ := userCall_of_not_connected hs u
    rw [hb]
    exact ⟨hd, hcov, hbef, hst⟩

/-- With no send under way, whatever had returned has run. -/
theorem Booked.executed (hb : Booked s) (hf : ¬ InFlight s) :
    ∀ x ∈ s.returned, x ∈ s.executed := by
  intro x hx
  rcases hb.covered x hx with hm | hm
  · exact hm
  · exact absurd (.inr ⟨x, hm⟩) hf

theorem Booked.before_executed (hb : Booked s) (hf : ¬ InFlight s) :
    ∀ x ∈ s.before, x ∈ s.executed := by
  intro x hx
  exact hb.executed hf x (hb.before x hx)

variable [DecidableEq Tid]

theorem Booked.step (h : Booked s) (hok : StaysOpen s l) (hst : s.step l = some t) : Booked t := by
  obtain ⟨hd, hcov, hbef, hq⟩ := h
  cases (step_cases hst).2 with
  | send =>
    exact ⟨hd, hcov, hbef, fun h => hq (h.imp_left fun ⟨v, hv⟩ =>
      ⟨v, caller_of_setCaller (by simp) hv⟩)⟩
  | @pushSend u x =>
    refine ⟨⟨hd.1, by simpa using hd.2⟩, ?_, fun y hy => List.mem_append_left _ (hbef y hy), ?_⟩
    · intro y hy
      rcases List.mem_append.mp hy with hy | hy
      · exact (hcov y hy).imp_right fun hm => by simp [hm]
      · obtain rfl := List.mem_singleton.mp hy
        exact .inr (by simp)
    · rintro (⟨v, hv⟩ | hm)
      · have hidle : CallerPc.idle ≠ .queueing := by simp
        exact hq (.inl ⟨v, caller_of_setCaller hidle hv⟩)
      · exact hq (.inr (by simpa using hm))
  | shutdown =>
    exact ⟨hd, hcov, fun _ hx => hx, fun h => hq (h.imp_left fun ⟨v, hv⟩ =>
      ⟨v, caller_of_setCaller (by simp) hv⟩)⟩
  | store => exact ⟨hd, hcov, hbef, fun _ => rfl⟩
  | pushShutdown hc =>
    refine ⟨⟨hd.1, by simpa using hd.2⟩, ?_, hbef, fun _ => hq (.inl ⟨_, hc⟩)⟩
    exact fun y hy => (hcov y hy).imp_right fun hm => by simp [hm]
  | pushDestroy => exact hok.elim
  | swap hi hf =>
    have hall := s.queue.all_swap hf
    exact ⟨⟨hd.1, hall ▸ hd.2⟩, hall ▸ hcov, hbef, hall ▸ hq⟩
  | @sendInLoop w x q hi hn =>
    have hall := FunctorQueue.all_next hn
    rw [hall] at hd hcov hq
    refine ⟨⟨hd.1, fun hm => hd.2 (List.mem_cons_of_mem _ hm)⟩, ?_, hbef, ?_⟩
    · intro y hy
      rcases hcov y hy with hx | hx
      · exact .inl (List.mem_append_left _ hx)
      · rcases List.mem_cons.mp hx with hx | hx
        · simp only [ConnFunctor.sendInLoop.injEq] at hx
          exact .inl (by simp [hx])
        · exact .inr hx
    · intro hm
      exact stable_disconnecting.sendInLoop _ _ (hq (hm.imp_right (List.mem_cons_of_mem _)))
  | shutdownInLoop hi hn =>
    have hall := FunctorQueue.all_next hn
    rw [hall] at hd hcov hq
    refine ⟨⟨hd.1, fun hm => hd.2 (List.mem_cons_of_mem _ hm)⟩, ?_, hbef, ?_⟩
    · exact fun y hy => (hcov y hy).imp_right fun hx => by simpa using hx
    · intro hm
      exact stable_disconnecting.shutdownInLoop (hq (hm.imp_right (List.mem_cons_of_mem _)))
  | connectDestroyed hi hn =>
    exact absurd (by simp [FunctorQueue.all_next hn]) hd.2
  | handler htodo =>
    refine ⟨hd, hcov, hbef, ?_⟩
    intro h
    exact disconnecting_runHandler (hq h) (hok.next htodo) hok.2
  | userCall u => exact Booked.userCall ⟨hd, hcov, hbef, hq⟩ u
  | destroy => exact hok.elim
  | destroyRest hdes => simp [hd.1] at hdes
  | _ => exact ⟨hd, hcov, hbef, hq⟩

/-! ### The stream -/

theorem carries_step (hc : s.conn.Carries (s.executed.flatMap Send.data)) (hb : Booked s)
    (hok : StaysOpen s l) (hst : s.step l = some t) :
    t.conn.Carries (t.executed.flatMap Send.data) := by
  cases (step_cases hst).2 with
  | store => exact hc.disconnecting
  | @sendInLoop w x q hi hn =>
    rw [List.flatMap_append, List.flatMap_singleton]
    exact hc.sendInLoop x.data hok
  | shutdownInLoop => exact hc.shutdownInLoop
  | connectDestroyed hi hn => exact absurd (by simp [FunctorQueue.all_next hn]) hb.noDestroy.2
  | handler htodo =>
    rcases hok.next htodo with rfl | rfl
    · exact hc.handleRead hok.2
    · exact hc.handleWrite _
  | userCall u =>
    by_cases hs : s.conn.state_ = .kConnected
    · cases u with
      | retrieve n => exact hc.input _
      | shutdown =>
        rw [userCall_shutdown hs]
        exact hc.disconnecting.shutdownInLoop
      | send data w =>
        rw [userCall_send hs, List.flatMap_append, List.flatMap_singleton]
        exact hc.sendInLoop data hok
    · obtain ⟨b, hb⟩ := userCall_of_not_connected hs u
      rw [hb]
      exact hc.input b
  | destroy => exact hok.elim
  | destroyRest hdes => simp [hb.noDestroy.1] at hdes
  | _ => exact hc

/-! ### Around the half-close -/

/-- `handleWrite` half-closes only when it drains the buffer of a closing connection. -/
theorem not_halfClosed_handleWrite {c : TcpConnection} {w : WriteResult}
    (h : ¬ (c.drains w = true ∧ c.state_ = .kDisconnecting)) (hn : .shutdownWrite ∉ c.effects) :
    .shutdownWrite ∉ (c.handleWrite w).effects := by
  have hw := TcpConnection.stableSending_not_shutdown.writeOut w hn
  unfold TcpConnection.handleWrite TcpConnection.finishDrain
  rw [TcpConnection.writeOut_snd, TcpConnection.state_writeOut]
  split
  · split
    · exact absurd ⟨‹_›, ‹_›⟩ h
    · exact hw
  · exact hw

theorem shutdownInLoop_of_writing {c : TcpConnection} (h : c.channel_.isWriting = true) :
    c.shutdownInLoop = c := by
  simp [TcpConnection.shutdownInLoop, h]

theorem shutdownInLoop_of_not_writing {c : TcpConnection} (h : c.channel_.isWriting = false) :
    c.shutdownInLoop = c.emit .shutdownWrite := by
  simp [TcpConnection.shutdownInLoop, h]

/-- A step that is none of the three that half-close leaves the socket open both ways. -/
theorem not_halfClosed_step (hn : .shutdownWrite ∉ s.conn.effects) (hb : Booked s)
    (hok : StaysOpen s l) (hh : ¬ HalfCloses s l) (hst : s.step l = some t) :
    .shutdownWrite ∉ t.conn.effects := by
  cases (step_cases hst).2 with
  | sendInLoop => exact TcpConnection.stableSending_not_shutdown.sendInLoop _ _ hn
  | shutdownInLoop hi hnext =>
    have hw : s.conn.channel_.isWriting = true := by
      by_contra hw
      exact hh ⟨by simp [(FunctorQueue.next_eq_some hnext).1], by simpa using hw⟩
    simpa [shutdownInLoop_of_writing hw] using hn
  | connectDestroyed hi hnext =>
    exact absurd (by simp [FunctorQueue.all_next hnext]) hb.noDestroy.2
  | handler htodo =>
    rcases hok.next htodo with rfl | rfl
    · rename_i r w hs _
      rcases r with (_ | ⟨b, bs⟩) | e
      · exact absurd rfl hok.2
      · simpa [TcpConnection.runHandler, TcpConnection.handleRead, TcpConnection.userCalls] using hn
      · exact hn
    · refine not_halfClosed_handleWrite ?_ hn
      intro hd
      exact hh ⟨by simp [htodo], hd⟩
  | userCall u =>
    by_cases hs : s.conn.state_ = .kConnected
    · cases u with
      | retrieve n => exact hn
      | send data w =>
        rw [userCall_send hs]
        exact TcpConnection.stableSending_not_shutdown.sendInLoop _ _ hn
      | shutdown =>
        have hw : s.conn.channel_.isWriting = true := by
          by_contra hw
          exact hh ⟨hs, by simpa using hw⟩
        rw [userCall_shutdown hs, shutdownInLoop_of_writing (by simpa using hw)]
        exact hn
    · obtain ⟨b, hb⟩ := userCall_of_not_connected hs u
      rw [hb]
      exact hn
  | destroy => exact hok.elim
  | destroyRest hdes => simp [hb.noDestroy.1] at hdes
  | _ => exact hn

theorem accepted_of_quiet {c : TcpConnection} {sent : List UInt8} (hc : c.Carries sent)
    (hw : c.channel_.isWriting = false) : c.effects.flatMap Effect.accepted = sent := by
  have ho : c.outputBuffer_ = [] := by
    by_contra hne
    simp [hc.coupled.mpr hne] at hw
  have hs := hc.stream
  rwa [ho, List.append_nil] at hs

/-- The three steps that half-close, each taken with no send under way. -/
theorem halfClosed_step (hn : .shutdownWrite ∉ s.conn.effects) (hb : Booked s)
    (hc : s.conn.Carries (s.executed.flatMap Send.data)) (hh : HalfCloses s l)
    (hf : ¬ InFlight s) (hst : s.step l = some t) :
    Sealed t ∧ HalfClosesLast t.conn.effects t.before t.executed := by
  have hlast : HalfClosesLast s.conn.effects s.returned s.executed := halfClosesLast_of_not_mem hn
  cases (step_cases hst).2 with
  | sendInLoop hi hnext => simp [HalfCloses, (FunctorQueue.next_eq_some hnext).1] at hh
  | connectDestroyed hi hnext => simp [HalfCloses, (FunctorQueue.next_eq_some hnext).1] at hh
  | shutdownInLoop hi hnext =>
    have hs := hb.stored (.inr (by simp [FunctorQueue.all_next hnext]))
    have ht := fun h => hf (inFlight_of_step hst (by simp [hs]) h)
    rw [shutdownInLoop_of_not_writing hh.2] at ht ⊢
    refine ⟨⟨hs, ht, hh.2⟩, ?_⟩
    exact (halfClosesLast_of_not_mem hn).extend (hb.before_executed hf)
      (accepted_of_quiet hc hh.2) (by simp [Effect.isWrite])
  | @handler r w k ks htodo hdes =>
    obtain ⟨hk, hd, hs⟩ := hh
    obtain rfl : k = .write := by simpa [htodo] using hk
    have hconn : s.conn.handleWrite w = (s.conn.writeOut w).1.emit .shutdownWrite := by
      have hw := (TcpConnection.writeOut_drained ((s.conn.writeOut_snd w).trans hd)).1
      have hs' := (s.conn.state_writeOut w).trans hs
      rw [TcpConnection.handleWrite, TcpConnection.writeOut_snd, if_pos hd,
        TcpConnection.finishDrain, if_pos hs', shutdownInLoop_of_not_writing hw]
    have hw := (TcpConnection.writeOut_drained ((s.conn.writeOut_snd w).trans hd)).1
    have ht := fun h => hf (inFlight_of_step hst (by simp [hs]) h)
    simp only [TcpConnection.runHandler, hconn] at ht ⊢
    refine ⟨⟨(s.conn.state_writeOut w).trans hs, ht, hw⟩, ?_⟩
    have hn' := TcpConnection.stableSending_not_shutdown.writeOut w hn
    exact (halfClosesLast_of_not_mem hn').extend (hb.before_executed hf)
      (accepted_of_quiet (hc.writeOut w) hw) (by simp [Effect.isWrite])
  | userCall u =>
    cases u with
    | send => exact hh.elim
    | retrieve => exact hh.elim
    | shutdown =>
      obtain ⟨hs, hw⟩ := hh
      have hconn : (s.conn.setState .kDisconnecting).shutdownInLoop =
          (s.conn.setState .kDisconnecting).emit .shutdownWrite :=
        shutdownInLoop_of_not_writing (by simpa using hw)
      rw [userCall_shutdown hs, hconn]
      refine ⟨⟨rfl, hf, hw⟩, ?_⟩
      exact (halfClosesLast_of_not_mem hn).extend (hb.executed hf) (accepted_of_quiet hc hw)
        (by simp [Effect.isWrite])
  | _ => exact hh.elim

/-- After the half-close the socket is not written to again. -/
theorem Sealed.step (h : Sealed s) (hb : Booked s) (hok : StaysOpen s l)
    (hst : s.step l = some t) :
    Sealed t ∧ t.before = s.before ∧ t.executed = s.executed ∧
      ∃ es, t.conn.effects = s.conn.effects ++ es ∧ ∀ e ∈ es, e.isWrite = false := by
  obtain ⟨hs, hf, hw⟩ := h
  have hne : s.conn.state_ ≠ .kConnected := by simp [hs]
  have ht := fun h => hf (inFlight_of_step hst hne h)
  cases (step_cases hst).2 with
  | send _ hs' => exact absurd hs' hne
  | shutdown _ hs' => exact absurd hs' hne
  | pushSend hc => exact absurd (.inl ⟨_, _, hc⟩) hf
  | store => exact ⟨⟨rfl, ht, hw⟩, rfl, rfl, [], by simp⟩
  | sendInLoop hi hnext =>
    exact absurd (.inr ⟨_, by rw [FunctorQueue.all_next hnext]; exact List.mem_cons_self⟩) hf
  | shutdownInLoop =>
    rw [shutdownInLoop_of_not_writing hw] at ht ⊢
    exact ⟨⟨hs, ht, hw⟩, rfl, rfl, [.shutdownWrite], rfl, by simp [Effect.isWrite]⟩
  | connectDestroyed hi hnext =>
    exact absurd (by simp [FunctorQueue.all_next hnext]) hb.noDestroy.2
  | handler htodo =>
    rename_i r w k ks _
    rcases hok.next htodo with rfl | rfl
    · rcases r with (_ | ⟨b, bs⟩) | e
      · exact absurd rfl hok.2
      · exact ⟨⟨hs, ht, hw⟩, rfl, rfl, [.messageCallback _], rfl, by simp [Effect.isWrite]⟩
      · exact ⟨⟨hs, ht, hw⟩, rfl, rfl, [], by
          simp [TcpConnection.runHandler, TcpConnection.handleRead]⟩
    · have heq : TcpConnection.runHandler { read := r, write := w } s.conn .write = s.conn :=
        TcpConnection.handleWrite_of_not_writing hw w
      rw [heq] at ht ⊢
      exact ⟨⟨hs, ht, hw⟩, rfl, rfl, [], by simp⟩
  | userCall u =>
    obtain ⟨b, hb⟩ := userCall_of_not_connected hne u
    rw [hb] at ht ⊢
    exact ⟨⟨hs, ht, hw⟩, rfl, rfl, [], by simp⟩
  | pushDestroy => exact hok.elim
  | destroy => exact hok.elim
  | destroyRest hdes => simp [hb.noDestroy.1] at hdes
  | _ => exact ⟨⟨hs, ht, hw⟩, rfl, rfl, [], by simp [setCaller]⟩

theorem Sound.step (h : Sound s) (hok : HalfClosesAlone s l) (hst : s.step l = some t) :
    Sound t := by
  obtain ⟨hb, hc, hseal, hlast⟩ := h
  have hb' := hb.step hok.1 hst
  have hc' := carries_step hc hb hok.1 hst
  by_cases hm : .shutdownWrite ∈ s.conn.effects
  · have hs := hseal hm
    obtain ⟨ht, hbef, hex, es, he, hes⟩ := hs.step hb hok.1 hst
    refine ⟨hb', hc', fun _ => ht, ?_⟩
    rw [hbef, hex, he]
    exact hlast.extend (hb.before_executed hs.noSend)
      (accepted_of_quiet hc hs.quiet) hes
  · by_cases hh : HalfCloses s l
    · obtain ⟨ht, hl⟩ := halfClosed_step hm hb hc hh (hok.2 hh) hst
      exact ⟨hb', hc', fun _ => ht, hl⟩
    · have hm' := not_halfClosed_step hm hb hok.1 hh hst
      exact ⟨hb', hc', fun h => absurd h hm', halfClosesLast_of_not_mem hm'⟩

omit [DecidableEq Tid] in
theorem sound_init {c : TcpConnection} (hc : TcpConnection.Fresh c) :
    Sound ({ conn := c.connectEstablished [] } : ThreadedConnection Tid) := by
  obtain ⟨ha, ho⟩ := TcpConnection.still_connectEstablished c
  refine ⟨⟨⟨rfl, by simp [FunctorQueue.all]⟩, by simp, by simp, by simp [FunctorQueue.all]⟩,
    ⟨hc.connectEstablished [], TcpConnection.coupled_connectEstablished hc, ?_⟩, ?_,
    halfClosesLast_of_not_mem ?_⟩
  · have hnil : c.accepted = [] := by simp [TcpConnection.accepted, hc.effects]
    rw [ha, ho, hc.output, hnil]
    rfl
  · simp [TcpConnection.connectEstablished, TcpConnection.userCalls, hc.effects]
  · simp [TcpConnection.connectEstablished, TcpConnection.userCalls, hc.effects]

/-- When the socket is half-closed, every send that saw `kConnected` and had returned
before `shutdown` was called has been written out, and nothing is written afterwards. -/
theorem half_close_comes_last (h : (machine Tid).Reach HalfClosesAlone s) :
    HalfClosesLast s.conn.effects s.before s.executed := by
  have hsound : Sound s := by
    refine h.invariant (I := Sound) ?_ ?_
    · rintro s ⟨c, hc, rfl⟩
      exact sound_init hc
    · intro s l t hs hok hst
      exact hs.step hok hst
  exact hsound.last

/-- The user sends two bytes of which the socket takes one, and shuts down; the half-close
waits for the write event that takes the other. -/
theorem half_close_comes_last_after_drain :
    ∃ s : ThreadedConnection Nat, (machine Nat).Reach HalfClosesAlone s ∧
      .shutdownWrite ∈ s.conn.effects ∧ HalfClosesLast s.conn.effects s.before s.executed := by
  have h₀ : (machine Nat).Reach HalfClosesAlone { conn := (TcpConnection.new 1 5).connectEstablished [] } :=
    .init ⟨_, TcpConnection.fresh_new 1 5, rfl⟩
  have h₁ := h₀.step (.userCall (.send [104, 105] (.wrote 1))) (by exact ⟨rfl, fun h => h.elim⟩) rfl
  have h₂ := h₁.step (.userCall .shutdown) (by exact ⟨trivial, fun h => absurd h.2 (by decide)⟩) rfl
  have h₃ := h₂.step (.dispatch EPOLLOUT) (by exact ⟨trivial, fun h => h.elim⟩) rfl
  have h₄ := h₃.step (.handler (.error EAGAIN) (.wrote 1))
    (by
      refine ⟨⟨by decide, by simp⟩, fun _ => ?_⟩
      rintro (⟨t, x, h⟩ | ⟨x, h⟩) <;> contradiction)
    rfl
  exact ⟨_, h₄, by decide, half_close_comes_last h₄⟩

/-- Another thread's `send` has returned when the user calls `shutdown` on the loop thread:
the socket is half-closed at once, and the functor of the send writes to it afterwards. -/
theorem write_after_half_close :
    ∃ s : ThreadedConnection Nat,
      (machine Nat).run { conn := (TcpConnection.new 1 5).connectEstablished [] }
        [.send 1 [104], .pushSend 1, .userCall .shutdown, .swap, .runFunctor (.wrote 1)] = some s ∧
      s.before = [⟨0, [104]⟩] ∧
      s.conn.effects = [.connectionCallback true, .shutdownWrite, .write [104]] ∧
      ¬ HalfClosesLast s.conn.effects s.before s.executed := by
  refine ⟨_, rfl, rfl, rfl, ?_⟩
  exact not_halfClosesLast [.connectionCallback true] [.write [104]] List.mem_cons_self rfl

end ThreadedConnection

end Muduo
