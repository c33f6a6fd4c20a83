import Muduo.Library.Log
import Muduo.Connection.HighWater
import Muduo.Connection.Interest

/-!
# Completed transfers are reported

`writeCompleteCallback_` is queued in two places, by `sendInLoop` when the direct write
takes everything and by `handleWrite` when the buffer has been drained. The log of a
connection has its calls of `sendInLoop` among its effects, so that it shows what had been
submitted and accepted whenever the callback was queued.
-/

namespace Muduo

theorem Effect.accepted_of_not_sends {e : Effect} (h : e.sends = false) : e.accepted = [] := by
  cases e <;> simp_all [sends, accepted]

/-- A call of `sendInLoop`, with whether it ends in `EPIPE` or `ECONNRESET`, or an effect. -/
inductive Moment where
  | send (data : List UInt8) (faulted : Bool)
  | effect (e : Effect)
  deriving DecidableEq, Repr

namespace Moment

/-- `writeCompleteCallback_` is queued. -/
def report : Moment := .effect .queueWriteComplete

def isSend : Moment → Bool
  | .send _ _ => true
  | .effect _ => false

/-- The bytes of a call that is not faulted. -/
def submitted : Moment → List UInt8
  | .send data false => data
  | .send _ true | .effect _ => []

def accepted : Moment → List UInt8
  | .send _ _ => []
  | .effect e => e.accepted

variable {es : List Effect}

@[simp] theorem submitted_effects : (es.map Moment.effect).flatMap submitted = [] := by
  simp [List.flatMap_map, submitted]

@[simp] theorem accepted_effects :
    (es.map Moment.effect).flatMap accepted = es.flatMap Effect.accepted := by
  simp [List.flatMap_map, accepted]

@[simp] theorem report_mem_effects :
    report ∈ es.map Moment.effect ↔ .queueWriteComplete ∈ es := by
  simp [report]

end Moment

/-! ## What a log accounts for -/

/-- Bytes are waiting since a call that no report has followed, and only then. -/
structure Accounted (log : List Moment) (waiting : List UInt8) : Prop where
  balanced : log.flatMap Moment.accepted ++ waiting = log.flatMap Moment.submitted
  prompt : Log.EveryTime .report
    (fun pre => pre.flatMap Moment.accepted = pre.flatMap Moment.submitted ∧
      ∃ m ∈ Log.sinceLast .report pre, m.isSend = true) log
  called : waiting ≠ [] → ∃ m ∈ Log.sinceLast .report log, m.isSend = true
  unreported : ∀ data, data ≠ [] → .send data false ∈ Log.sinceLast .report log → waiting ≠ []

/-- What one step may add to the log while the waiting bytes change from `b` to `b'`. -/
inductive Turn (b b' : List UInt8) : List Moment → Prop where
  | quiet {ms : List Moment} : .report ∉ ms →
      ms.flatMap Moment.accepted ++ b' = b ++ ms.flatMap Moment.submitted →
      (b ≠ [] → b' ≠ []) → (∀ data, data ≠ [] → .send data false ∈ ms → b' ≠ []) →
      (b' ≠ [] → b ≠ [] ∨ ∃ m ∈ ms, m.isSend = true) → Turn b b' ms
  | report {ms ns : List Moment} : .report ∉ ms → (∀ n ∈ ns, n = .effect .shutdownWrite) →
      ms.flatMap Moment.accepted = b ++ ms.flatMap Moment.submitted → b' = [] →
      b ≠ [] ∨ (∃ m ∈ ms, m.isSend = true) → Turn b b' (ms ++ .report :: ns)

/-- Without a report: not everything that waits or is submitted is written. -/
theorem Turn.of_effects {b b' : List UInt8} {calls : List Moment} {es : List Effect}
    (hcalls : ∀ m ∈ calls, m.isSend = true) (hq : .queueWriteComplete ∉ es)
    (hcons : es.flatMap Effect.accepted ++ b' = b ++ calls.flatMap Moment.submitted)
    (hrest : es.flatMap Effect.accepted = [] ∨ (es.flatMap Effect.accepted).length <
      (b ++ calls.flatMap Moment.submitted).length) :
    Turn b b' (calls ++ es.map .effect) := by
  have hleft : b ++ calls.flatMap Moment.submitted ≠ [] → b' ≠ [] := by
    rintro hne rfl
    rw [List.append_nil] at hcons
    rcases hrest with hnil | hlt
    · exact hne (hcons ▸ hnil)
    · rw [hcons] at hlt
      exact Nat.lt_irrefl _ hlt
  have hacc : calls.flatMap Moment.accepted = [] := by
    refine List.flatMap_eq_nil_iff.mpr fun m hm => ?_
    cases m with
    | send data f => rfl
    | effect e => simpa [Moment.isSend] using hcalls _ hm
  refine .quiet ?_ ?_ ?_ ?_ ?_
  · intro hmem
    rcases List.mem_append.mp hmem with hmem | hmem
    · simpa [Moment.report, Moment.isSend] using hcalls _ hmem
    · exact hq (Moment.report_mem_effects.mp hmem)
  · simpa [hacc] using hcons
  · intro hb
    exact hleft (List.append_ne_nil_of_left_ne_nil hb _)
  · intro data hne hmem
    have hin : .send data false ∈ calls := by simpa using hmem
    refine hleft (List.append_ne_nil_of_right_ne_nil _ fun hnil => hne ?_)
    exact List.flatMap_eq_nil_iff.mp hnil _ hin
  · intro hb'
    cases calls with
    | nil =>
      left
      rintro rfl
      simp at hcons
      exact hb' hcons.2
    | cons m calls => exact .inr ⟨m, by simp, hcalls m List.mem_cons_self⟩

theorem accounted_nil : Accounted [] [] :=
  ⟨rfl, Log.everyTime_nil, fun h => absurd rfl h, fun _ _ h => by simp [Log.sinceLast] at h⟩

theorem Accounted.append {log ms : List Moment} {b b' : List UInt8} (h : Accounted log b)
    (ht : Turn b b' ms) : Accounted (log ++ ms) b' := by
  obtain ⟨hbal, hprompt, hcalled, hun⟩ := h
  cases ht with
  | quiet hq hcons hkeep hnew hold =>
    refine ⟨?_, hprompt.append hq, ?_, ?_⟩
    · rw [List.flatMap_append, List.flatMap_append, List.append_assoc, hcons,
        ← List.append_assoc, hbal]
    · intro hb'
      rcases hold hb' with hb | ⟨m, hm, hs⟩
      · obtain ⟨m, hm, hs⟩ := hcalled hb
        exact ⟨m, (Log.mem_sinceLast_append hq).mpr (.inl hm), hs⟩
      · exact ⟨m, (Log.mem_sinceLast_append hq).mpr (.inr hm), hs⟩
    · intro data hne hmem
      rcases (Log.mem_sinceLast_append hq).mp hmem with hmem | hmem
      · exact hkeep (hun data hne hmem)
      · exact hnew data hne hmem
  | @report ms ns hq hns hcons hb' hsend =>
    subst hb'
    have hq' : .report ∉ ns := fun hmem => by simpa [Moment.report] using hns _ hmem
    have hacc : ns.flatMap Moment.accepted = [] :=
      List.flatMap_eq_nil_iff.mpr fun n hn => by rw [hns n hn]; rfl
    have hsub : ns.flatMap Moment.submitted = [] :=
      List.flatMap_eq_nil_iff.mpr fun n hn => by rw [hns n hn]; rfl
    have heven : (log ++ ms).flatMap Moment.accepted = (log ++ ms).flatMap Moment.submitted := by
      rw [List.flatMap_append, List.flatMap_append, hcons, ← List.append_assoc, hbal]
    refine ⟨?_, hprompt.append_once hq hq' ⟨heven, ?_⟩, fun h => absurd rfl h, ?_⟩
    · simp only [List.flatMap_append, List.flatMap_cons, hacc, hsub, Moment.report,
        Moment.accepted, Moment.submitted, Effect.accepted, List.append_nil] at heven ⊢
      exact heven
    · rcases hsend with hb | ⟨m, hm, hs⟩
      · obtain ⟨m, hm, hs⟩ := hcalled hb
        exact ⟨m, (Log.mem_sinceLast_append hq).mpr (.inl hm), hs⟩
      · exact ⟨m, (Log.mem_sinceLast_append hq).mpr (.inr hm), hs⟩
    · intro data _ hmem
      have hn := hns _ ((Log.mem_sinceLast_append_once hq').mp hmem)
      simp at hn

namespace TcpConnection

variable {c c' : TcpConnection} {w : WriteResult}

/-! ## One step -/

/-- The calls of `sendInLoop` and the effects of a step, in order. -/
def moments (c : TcpConnection) (l : StreamStep) : List Moment :=
  ((l.sendCall c).map fun call => Moment.send call.1 (c.endsInFault call.2)).toList ++
    ((c.streamStep l).effects.drop c.effects.length).map .effect

theorem effects_drop {es : List Effect} (h : c'.effects = c.effects ++ es) :
    c'.effects.drop c.effects.length = es := by
  rw [h, List.drop_left]

/-- Bytes that a step does not hand to `::write` wait after it. -/
theorem Flows.conserved {xs : List UInt8} {es : List Effect} (h : Flows c xs c')
    (he : c'.effects = c.effects ++ es) :
    es.flatMap Effect.accepted ++ c'.outputBuffer_ = c.outputBuffer_ ++ xs := by
  obtain ⟨n, ha, ho⟩ := h
  have hacc : es.flatMap Effect.accepted = (c.outputBuffer_ ++ xs).take n := by
    rw [accepted, he, List.flatMap_append, ← accepted] at ha
    exact List.append_cancel_left ha
  rw [hacc, ho, List.take_append_drop]

theorem submits_of_not_disconnected (hs : c.state_ ≠ .kDisconnected) (data : List UInt8)
    (w : WriteResult) :
    c.submits data w = Moment.submitted (.send data (c.endsInFault w)) := by
  cases hf : c.endsInFault w with
  | true => simp [submits, hf, Moment.submitted]
  | false => simp [submits, hs, hf, Moment.submitted]

theorem accepted_crossing (c : TcpConnection) (n : Nat) :
    (c.crossing n).flatMap Effect.accepted = [] := by
  unfold crossing
  split <;> rfl

theorem report_not_mem_crossing (c : TcpConnection) (n : Nat) :
    .queueWriteComplete ∉ c.crossing n := by
  unfold crossing
  split <;> simp

/-- The direct write takes everything, and the call reports at once. -/
theorem turn_direct (hs : c.state_ ≠ .kDisconnected) (hcb : c.writeCompleteCallback_ = true)
    {data : List UInt8} {n : Nat} (hw : c.channel_.isWriting = false) (ho : c.outputBuffer_ = [])
    (hn : data.length ≤ n) :
    Turn c.outputBuffer_ (c.sendInLoop data (.wrote n)).outputBuffer_
      (.send data (c.endsInFault (.wrote n)) ::
        (c.directEffects data (.wrote n) ++
          c.crossing (c.sendInLoop data (.wrote n)).outputBuffer_.length).map .effect) := by
  have hf : c.endsInFault (.wrote n) = false := by simp [endsInFault]
  have hdirect : c.directEffects data (.wrote n) = [.write data, .queueWriteComplete] := by
    simp [directEffects, hw, ho, hn, hcb]
  have heff := effects_sendInLoop hs data (.wrote n)
  rw [List.append_assoc] at heff
  have hcons := (sendInLoop_flows c data (.wrote n)).conserved heff
  have hout : (c.sendInLoop data (.wrote n)).outputBuffer_ = [] := by
    simpa [hdirect, Effect.accepted, accepted_crossing, submits_of_not_disconnected hs, hf,
      Moment.submitted, ho] using hcons
  have hcross : c.crossing (c.sendInLoop data (.wrote n)).outputBuffer_.length = [] := by
    rw [hout, crossing, if_neg]
    simp only [List.length_nil]
    omega
  rw [hcross, hdirect, hf, ho]
  change Turn [] _ ([.send data false, .effect (.write data)] ++ .report :: [])
  refine .report (by simp [Moment.report]) (by simp) ?_ hout (.inr ⟨_, List.mem_cons_self, rfl⟩)
  simp [Moment.accepted, Moment.submitted, Effect.accepted]

/-- Otherwise `::write` takes a part at most, or is not called. -/
theorem directEffects_cases {data : List UInt8}
    (hno : ∀ n, w = .wrote n → c.channel_.isWriting = false → c.outputBuffer_ = [] →
      n < data.length) :
    c.directEffects data w = [] ∨ (∃ e, c.directEffects data w = [.writeError e]) ∨
      ∃ n, w = .wrote n ∧ n < data.length ∧ c.directEffects data w = [.write (data.take n)] := by
  unfold directEffects
  split
  · rename_i h
    cases w with
    | error e => exact .inr (.inl ⟨e, rfl⟩)
    | wrote n =>
      have hlt : n < data.length := by
        refine hno n rfl ?_ ?_
        · simpa using (Bool.and_eq_true_iff.mp h).1
        · simpa using (Bool.and_eq_true_iff.mp h).2
      refine .inr (.inr ⟨n, rfl, hlt, ?_⟩)
      simp [Nat.min_eq_left hlt.le, Nat.not_le.mpr hlt]
  · exact .inl rfl

/-- Any other call reports nothing, and what it submits waits, at least in part. -/
theorem turn_buffered (hs : c.state_ ≠ .kDisconnected) {data : List UInt8}
    (hno : ∀ n, w = .wrote n → c.channel_.isWriting = false → c.outputBuffer_ = [] →
      n < data.length) :
    Turn c.outputBuffer_ (c.sendInLoop data w).outputBuffer_
      (.send data (c.endsInFault w) ::
        (c.directEffects data w ++ c.crossing (c.sendInLoop data w).outputBuffer_.length).map
          .effect) := by
  have heff := effects_sendInLoop hs data w
  rw [List.append_assoc] at heff
  have hcons := (sendInLoop_flows c data w).conserved heff
  rw [submits_of_not_disconnected hs] at hcons
  have hcross := report_not_mem_crossing c (c.sendInLoop data w).outputBuffer_.length
  change Turn _ _ ([.send data (c.endsInFault w)] ++ _)
  refine .of_effects (by simp [Moment.isSend]) ?_ (by simpa using hcons) ?_
  · rcases directEffects_cases hno with hd | ⟨e, hd⟩ | ⟨n, -, -, hd⟩
    · simpa [hd] using hcross
    · simpa [hd] using hcross
    · simpa [hd] using hcross
  · rw [List.flatMap_append, accepted_crossing, List.append_nil]
    rcases directEffects_cases hno with hd | ⟨e, hd⟩ | ⟨n, rfl, hlt, hd⟩
    · exact .inl (by simp [hd])
    · exact .inl (by simp [hd, Effect.accepted])
    · have hf : c.endsInFault (.wrote n) = false := by simp [endsInFault]
      right
      simp only [hd, hf, Effect.accepted, Moment.submitted, List.flatMap_cons, List.flatMap_nil,
        List.append_nil, List.length_append, List.length_take]
      omega

theorem turn_send (hs : c.state_ ≠ .kDisconnected) (hcb : c.writeCompleteCallback_ = true)
    (data : List UInt8) (w : WriteResult) :
    Turn c.outputBuffer_ (c.sendInLoop data w).outputBuffer_
      (.send data (c.endsInFault w) ::
        (c.directEffects data w ++ c.crossing (c.sendInLoop data w).outputBuffer_.length).map
          .effect) := by
  by_cases hall : ∃ n, w = .wrote n ∧ c.channel_.isWriting = false ∧ c.outputBuffer_ = [] ∧
      data.length ≤ n
  · obtain ⟨n, rfl, hw, ho, hn⟩ := hall
    exact turn_direct hs hcb hw ho hn
  · refine turn_buffered hs fun n hn hw ho => ?_
    by_contra hlt
    exact hall ⟨n, hn, hw, ho, Nat.not_lt.mp hlt⟩

/-- A drain that empties the buffer reports it. -/
theorem turn_drained (hcb : c.writeCompleteCallback_ = true) (hd : c.drains w = true) :
    Turn c.outputBuffer_ (c.handleWrite w).outputBuffer_ ((c.drainEffects w).map .effect) := by
  have hcons := (handleWrite_flows c w).conserved (effects_handleWrite c w)
  cases w with
  | error e => simp [drains] at hd
  | wrote n =>
    obtain ⟨⟨hw, hne⟩, hn⟩ : (c.channel_.isWriting = true ∧ c.outputBuffer_ ≠ []) ∧
        c.outputBuffer_.length ≤ n := by
      simpa [drains] using hd
    have heff : c.drainEffects (.wrote n) = .write c.outputBuffer_ :: .queueWriteComplete ::
        if c.state_ = .kDisconnecting then [.shutdownWrite] else [] := by
      simp [drainEffects, hw, hd, hcb, hn]
    rw [heff] at hcons ⊢
    have hout : (c.handleWrite (.wrote n)).outputBuffer_ = [] := by
      have hlen := congrArg List.length hcons
      simp only [List.flatMap_cons, Effect.accepted, List.length_append, List.append_nil] at hlen
      exact List.length_eq_zero_iff.mp (by omega)
    simp only [List.map_cons]
    change Turn _ _ ([.effect (.write c.outputBuffer_)] ++ .report :: _)
    refine .report (by simp [Moment.report]) ?_ ?_ hout (.inl hne)
    · intro m hm
      obtain ⟨e, he, rfl⟩ := List.mem_map.mp hm
      split at he
      · exact congrArg _ (List.mem_singleton.mp he)
      · contradiction
    · simp [Moment.accepted, Moment.submitted, Effect.accepted]

/-- Any other drain leaves bytes where there were some. -/
theorem turn_drain (hc : Coupled c) (hcb : c.writeCompleteCallback_ = true) (w : WriteResult) :
    Turn c.outputBuffer_ (c.handleWrite w).outputBuffer_ ((c.drainEffects w).map .effect) := by
  cases hd : c.drains w with
  | true => exact turn_drained hcb hd
  | false =>
    have hcons := (handleWrite_flows c w).conserved (effects_handleWrite c w)
    have hcases : c.drainEffects w = [] ∨ (∃ e, c.drainEffects w = [.writeError e]) ∨
        ∃ n, n < c.outputBuffer_.length ∧ c.drainEffects w = [.write (c.outputBuffer_.take n)] := by
      unfold drainEffects
      split
      · rename_i hw
        cases w with
        | error e => exact .inr (.inl ⟨e, rfl⟩)
        | wrote n =>
          have hlt : n < c.outputBuffer_.length := by simpa [drains, hw, hc.mp hw] using hd
          exact .inr (.inr ⟨n, hlt, by simp [hd, Nat.min_eq_left hlt.le]⟩)
      · exact .inl rfl
    change Turn _ _ ([] ++ _)
    refine .of_effects (by simp) ?_ (by simpa using hcons) ?_
    · rcases hcases with he | ⟨e, he⟩ | ⟨n, -, he⟩ <;> simp [he]
    · rcases hcases with he | ⟨e, he⟩ | ⟨n, hlt, he⟩
      · exact .inl (by simp [he])
      · exact .inl (by simp [he, Effect.accepted])
      · right
        simp only [he, Effect.accepted, List.flatMap_cons, List.flatMap_nil, List.append_nil,
          List.length_take]
        omega

theorem turn_aside (h : Aside c c') {es : List Effect} (he : c'.effects = c.effects ++ es) :
    Turn c.outputBuffer_ c'.outputBuffer_ (es.map .effect) := by
  obtain ⟨ho, fs, hf, hs⟩ := h
  obtain rfl : es = fs := List.append_cancel_left (he.symm.trans hf)
  have hacc : es.flatMap Effect.accepted = [] :=
    List.flatMap_eq_nil_iff.mpr fun e hm => Effect.accepted_of_not_sends (hs e hm)
  change Turn _ _ ([] ++ _)
  refine .of_effects (by simp) ?_ (by simp [hacc, ho]) (.inl hacc)
  intro hmem
  simpa [Effect.sends] using hs _ hmem

/-- Each kind of step accounts for what it adds to the log. -/
theorem turn_step (hs : c.state_ ≠ .kDisconnected) (hc : Coupled c)
    (hcb : c.writeCompleteCallback_ = true) (l : StreamStep) :
    Turn c.outputBuffer_ (c.streamStep l).outputBuffer_ (c.moments l) := by
  cases stepKind c l with
  | send data w hcall he =>
    have heff := effects_sendInLoop hs data w
    rw [List.append_assoc] at heff
    rw [moments, hcall, he, effects_drop heff]
    exact turn_send hs hcb data w
  | drain w hcall he =>
    rw [moments, hcall, he, effects_drop (effects_handleWrite c w)]
    exact turn_drain hc hcb w
  | aside hcall h =>
    obtain ⟨es, he, -⟩ := h.2
    rw [moments, hcall, effects_drop he]
    exact turn_aside h he

/-! ## Runs -/

/-- The connection stays open: the step is not the end of its way up. -/
def StreamStep.closes : StreamStep → Bool
  | .handleRead (.received []) | .handleClose _ | .connectDestroyed _ => true
  | .sendInLoop _ _ | .userCall _ | .handleWrite _ | .handleRead _ | .shutdownInLoop => false

/-- A connection with the log of its calls of `sendInLoop` and its effects. -/
structure Logged where
  conn : TcpConnection
  log : List Moment := []

/-- From establishment on, with `writeCompleteCallback_` set. -/
def loggedMachine : Machine Logged StreamStep where
  init s := ∃ c, Fresh c ∧ c.writeCompleteCallback_ = true ∧
    s = { conn := c.connectEstablished [] }
  step s l := some ⟨s.conn.streamStep l, s.log ++ s.conn.moments l⟩

/-- The connection has not been closed. -/
def BeforeClose (_ : Logged) (l : StreamStep) : Prop := l.closes = false

instance (s : Logged) (l : StreamStep) : Decidable (BeforeClose s l) :=
  inferInstanceAs (Decidable (_ = _))

theorem Open.streamStep (h : Open c) {l : StreamStep} (hl : l.closes = false) :
    Open (c.streamStep l) := by
  cases l with
  | sendInLoop data w => exact stable_open.sendInLoop data w h
  | userCall u => exact stable_open.userCall u h
  | handleWrite w => exact stable_open.handleWrite w h
  | handleRead r =>
    rcases r with (_ | ⟨b, bs⟩) | e
    · contradiction
    · exact h.handleRead_received (b :: bs) (by simp) []
    · exact h
  | shutdownInLoop => exact stable_open.shutdownInLoop h
  | handleClose | connectDestroyed => contradiction

theorem Coupled.streamStep (h : Coupled c) {l : StreamStep} (hl : l.closes = false) :
    Coupled (c.streamStep l) := by
  cases l with
  | sendInLoop data w => exact h.sendInLoop data w
  | userCall u => exact h.userCall u
  | handleWrite w => exact h.handleWrite w
  | handleRead r =>
    rcases r with (_ | ⟨b, bs⟩) | e
    · contradiction
    · exact h
    · exact h
  | shutdownInLoop => exact h.shutdownInLoop
  | handleClose | connectDestroyed => contradiction

structure Reporting (s : Logged) : Prop where
  isOpen : Open s.conn
  coupled : Coupled s.conn
  callback : s.conn.writeCompleteCallback_ = true
  accounted : Accounted s.log s.conn.outputBuffer_

theorem Reporting.step {s t : Logged} {l : StreamStep} (h : Reporting s) (hok : BeforeClose s l)
    (hst : loggedMachine.step s l = some t) : Reporting t := by
  obtain rfl := Option.some.inj hst
  have hs : s.conn.state_ ≠ .kDisconnected := by
    rcases h.isOpen.state with hs | hs <;> simp [hs]
  have hset : Settings s.conn.highWaterMark_ s.conn.highWaterMarkCallback_ true s.conn :=
    ⟨rfl, rfl, h.callback⟩
  exact ⟨h.isOpen.streamStep hok, h.coupled.streamStep hok, (hset.streamStep l).onWriteComplete,
    h.accounted.append (turn_step hs h.coupled h.callback l)⟩

theorem reporting {s : Logged} (h : loggedMachine.Reach BeforeClose s) : Reporting s := by
  refine h.invariant ?_ fun _ _ _ hs hok hst => hs.step hok hst
  rintro s ⟨c, hc, hcb, rfl⟩
  have ho : (c.connectEstablished []).outputBuffer_ = [] := hc.output
  exact ⟨hc.connectEstablished [], coupled_connectEstablished hc, hcb, ho ▸ accounted_nil⟩

/-- Whenever `writeCompleteCallback_` is queued, all bytes submitted so far have been
accepted. Between two reports there is a call of `sendInLoop`. And as long as submitted
bytes have not been reported, bytes wait. -/
theorem completion_reported {s : Logged} (h : loggedMachine.Reach BeforeClose s) :
    (∀ pre post, s.log = pre ++ .report :: post →
      pre.flatMap Moment.accepted = pre.flatMap Moment.submitted) ∧
    (∀ pre mid post, s.log = pre ++ .report :: (mid ++ .report :: post) →
      ∃ data faulted, .send data faulted ∈ mid) ∧
    ∀ pre mid data, s.log = pre ++ mid → .report ∉ mid → data ≠ [] → .send data false ∈ mid →
      s.conn.outputBuffer_ ≠ [] := by
  obtain ⟨-, hprompt, -, hun⟩ := (reporting h).accounted
  refine ⟨fun pre post he => (hprompt pre post he).1, ?_, ?_⟩
  · intro pre mid post he
    rw [← List.cons_append, ← List.append_assoc] at he
    obtain ⟨m, hm, hs⟩ := (hprompt _ post he).2
    have hmid : m ∈ mid := Log.mem_of_mem_sinceLast hm
    cases m with
    | send data f => exact ⟨data, f, hmid⟩
    | effect e => simp [Moment.isSend] at hs
  · intro pre mid data he hq hne hmem
    exact hun data hne (he ▸ (Log.mem_sinceLast_append hq).mpr (.inr hmem))

/-- Two calls are buffered and drained together, a third one is written at once. -/
theorem completion_reported_twice :
    ∃ s : Logged, loggedMachine.runIf BeforeClose
        { conn := TcpConnection.connectEstablished
            { new 1 5 with writeCompleteCallback_ := true } [] }
        [.sendInLoop [1, 2] (.wrote 1), .sendInLoop [3] (.wrote 0), .handleWrite (.wrote 9),
          .sendInLoop [4] (.wrote 1)] = some s ∧
      s.log = [.send [1, 2] false, .effect (.write [1]), .send [3] false,
        .effect (.write [2, 3]), .report, .send [4] false, .effect (.write [4]), .report] ∧
      (∀ pre post, s.log = pre ++ .report :: post →
        pre.flatMap Moment.accepted = pre.flatMap Moment.submitted) := by
  have hfresh : Fresh { new 1 5 with writeCompleteCallback_ := true } :=
    ⟨rfl, ⟨rfl, rfl, rfl⟩, rfl, rfl, rfl, rfl⟩
  have hinit : loggedMachine.init
      ⟨connectEstablished { new 1 5 with writeCompleteCallback_ := true } [], []⟩ :=
    ⟨_, hfresh, rfl, rfl⟩
  refine Machine.exists_runIf hinit rfl fun s hs h => ?_
  refine ⟨?_, (completion_reported h).1⟩
  obtain rfl := Option.some.inj hs
  rfl

end TcpConnection

end Muduo
