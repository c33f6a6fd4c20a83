import Muduo.Connection.Effects

/-!
# The high-water mark

`highWaterMarkCallback_` is meant for the moment at which too much data begins to wait.
`sendInLoop` makes its test on the length before the append and on what the direct write
has left over, so the callback comes once for each time the buffer rises to the mark.
-/

namespace Muduo

def Effect.highWater : Effect → Option Nat
  | .queueHighWaterMark amount => some amount
  | _ => none

theorem Effect.highWater_of_not_sends {e : Effect} (h : e.sends = false) : e.highWater = none := by
  cases e <;> simp_all [sends, highWater]

namespace TcpConnection

/-- The arguments with which the callback has been queued. -/
def highWaters (c : TcpConnection) : List Nat := c.effects.filterMap Effect.highWater

/-- The unsent amount goes from below the mark to at or above it. -/
def Crosses (mark : Nat) (c c' : TcpConnection) : Prop :=
  c.outputBuffer_.length < mark ∧ mark ≤ c'.outputBuffer_.length

instance (mark : Nat) (c c' : TcpConnection) : Decidable (Crosses mark c c') :=
  inferInstanceAs (Decidable (_ ∧ _))

variable {c c' : TcpConnection} {w : WriteResult}

/-! ## One step -/

theorem highWaters_of_effects {es : List Effect} (h : c'.effects = c.effects ++ es) :
    c'.highWaters = c.highWaters ++ es.filterMap Effect.highWater := by
  rw [highWaters, h, List.filterMap_append, ← highWaters]

theorem highWater_directEffects (c : TcpConnection) (data : List UInt8) (w : WriteResult) :
    (c.directEffects data w).filterMap Effect.highWater = [] := by
  unfold directEffects
  split
  · cases w with
    | wrote n =>
      dsimp only
      split <;> simp [Effect.highWater]
    | error e => simp [Effect.highWater]
  · rfl

theorem highWater_drainEffects (c : TcpConnection) (w : WriteResult) :
    (c.drainEffects w).filterMap Effect.highWater = [] := by
  unfold drainEffects
  split
  · cases w with
    | wrote n =>
      dsimp only
      split_ifs <;> simp [Effect.highWater]
    | error e => simp [Effect.highWater]
  · rfl

theorem highWater_crossing (hset : c.highWaterMarkCallback_ = true) (n : Nat) :
    (c.crossing n).filterMap Effect.highWater =
      if c.outputBuffer_.length < c.highWaterMark_ ∧ c.highWaterMark_ ≤ n then [n] else [] := by
  unfold crossing
  simp only [hset, and_true]
  split
  · rfl
  · rfl

theorem length_handleWrite_le (c : TcpConnection) (w : WriteResult) :
    (c.handleWrite w).outputBuffer_.length ≤ c.outputBuffer_.length := by
  obtain ⟨n, -, ho⟩ := handleWrite_flows c w
  simp only [ho, List.append_nil, List.length_drop]
  omega

/-- The callback is queued in a step exactly if the step crosses the mark, and then with
the amount that waits after it. -/
theorem highWaters_streamStep (hset : c.highWaterMarkCallback_ = true) (l : StreamStep) :
    (c.streamStep l).highWaters =
      c.highWaters ++ if Crosses c.highWaterMark_ c (c.streamStep l) then
        [(c.streamStep l).outputBuffer_.length] else [] := by
  cases stepKind c l with
  | send data w _ he =>
    rw [he]
    by_cases hs : c.state_ = .kDisconnected
    · have hno : ¬ Crosses c.highWaterMark_ c c := fun h => absurd h.1 (Nat.not_lt.mpr h.2)
      rw [sendInLoop_of_disconnected hs, if_neg hno, List.append_nil]
    · rw [highWaters, effects_sendInLoop hs, List.filterMap_append, List.filterMap_append,
        highWater_directEffects, highWater_crossing hset, List.append_nil, ← highWaters]
      rfl
  | drain w _ he =>
    have hle := length_handleWrite_le c w
    have hno : ¬ Crosses c.highWaterMark_ c (c.handleWrite w) := by
      unfold Crosses
      omega
    rw [he, if_neg hno, highWaters_of_effects (effects_handleWrite c w), highWater_drainEffects]
  | aside _ h =>
    obtain ⟨ho, es, he, hes⟩ := h
    have hno : ¬ Crosses c.highWaterMark_ c (c.streamStep l) := by
      unfold Crosses
      rw [ho]
      omega
    rw [if_neg hno, highWaters_of_effects he, List.filterMap_eq_nil_iff.mpr]
    exact fun e hm => Effect.highWater_of_not_sends (hes e hm)

/-! ## The settings stay -/

/-- The mark and the two notifications have been set up. -/
structure Settings (mark : Nat) (onHighWater onWriteComplete : Bool) (c : TcpConnection) :
    Prop where
  mark : c.highWaterMark_ = mark
  onHighWater : c.highWaterMarkCallback_ = onHighWater
  onWriteComplete : c.writeCompleteCallback_ = onWriteComplete

variable {mark : Nat} {onHighWater onWriteComplete : Bool}

theorem stable_settings : Stable (Settings mark onHighWater onWriteComplete) where
  emit := fun _ _ _ h => ⟨h.mark, h.onHighWater, h.onWriteComplete⟩
  input := fun _ _ h => ⟨h.mark, h.onHighWater, h.onWriteComplete⟩
  output := fun _ _ h => ⟨h.mark, h.onHighWater, h.onWriteComplete⟩
  enableWriting := fun _ h => ⟨h.mark, h.onHighWater, h.onWriteComplete⟩
  disableWriting := fun _ h => ⟨h.mark, h.onHighWater, h.onWriteComplete⟩
  disconnecting := fun _ _ h => ⟨h.mark, h.onHighWater, h.onWriteComplete⟩

namespace Settings

variable (h : Settings mark onHighWater onWriteComplete c)

include h

theorem disconnect_userCalls (calls : List UserCall) :
    Settings mark onHighWater onWriteComplete (c.disconnect.userCalls calls) :=
  stable_settings.userCalls calls ⟨h.mark, h.onHighWater, h.onWriteComplete⟩

theorem handleClose (calls : List UserCall) :
    Settings mark onHighWater onWriteComplete (c.handleClose calls) := by
  obtain ⟨hm, hh, hw⟩ := h.disconnect_userCalls calls
  exact ⟨hm, hh, hw⟩

theorem removeChannel : Settings mark onHighWater onWriteComplete c.removeChannel := by
  unfold TcpConnection.removeChannel
  split <;> exact ⟨h.mark, h.onHighWater, h.onWriteComplete⟩

theorem streamStep (l : StreamStep) :
    Settings mark onHighWater onWriteComplete (c.streamStep l) := by
  cases l with
  | sendInLoop data w => exact stable_settings.sendInLoop data w h
  | userCall u => exact stable_settings.userCall u h
  | handleWrite w => exact stable_settings.handleWrite w h
  | handleRead r =>
    rcases r with (_ | ⟨b, bs⟩) | e
    · exact h.handleClose []
    · exact ⟨h.mark, h.onHighWater, h.onWriteComplete⟩
    · exact h
  | shutdownInLoop => exact stable_settings.shutdownInLoop h
  | handleClose calls => exact h.handleClose calls
  | connectDestroyed calls =>
    unfold TcpConnection.streamStep TcpConnection.connectDestroyed
    dsimp only
    split
    · exact (h.disconnect_userCalls calls).removeChannel
    · exact h.removeChannel

end Settings

/-! ## Runs -/

def streamRun (c : TcpConnection) (ls : List StreamStep) : TcpConnection := ls.foldl streamStep c

theorem Settings.streamRun (h : Settings mark onHighWater onWriteComplete c)
    (ls : List StreamStep) : Settings mark onHighWater onWriteComplete (c.streamRun ls) := by
  induction ls generalizing c with
  | nil => exact h
  | cons l ls ih => exact ih (h.streamStep l)

/-- A step queues the callback only from below the mark. -/
theorem below_of_queued (hset : c.highWaterMarkCallback_ = true) {l : StreamStep}
    (h : (c.streamStep l).highWaters ≠ c.highWaters) :
    c.outputBuffer_.length < c.highWaterMark_ := by
  rw [highWaters_streamStep hset] at h
  by_contra hge
  exact h (by rw [if_neg fun hc => hge hc.1, List.append_nil])

/-- Throughout a run the callback is queued in just those steps that cross the mark, with
the amount that waits then. Between two such steps the amount is below the mark. -/
theorem high_water_on_crossing (hset : c.highWaterMarkCallback_ = true) (ls : List StreamStep) :
    (∀ l, ((c.streamRun ls).streamStep l).highWaters =
      (c.streamRun ls).highWaters ++
        if Crosses c.highWaterMark_ (c.streamRun ls) ((c.streamRun ls).streamStep l) then
          [((c.streamRun ls).streamStep l).outputBuffer_.length] else []) ∧
      ∀ a ys b, ((c.streamRun ls).streamStep a).highWaters ≠ (c.streamRun ls).highWaters →
        ((c.streamRun (ls ++ a :: ys)).streamStep b).highWaters ≠
          (c.streamRun (ls ++ a :: ys)).highWaters →
        (c.streamRun (ls ++ a :: ys)).outputBuffer_.length < c.highWaterMark_ ∧ ys ≠ [] := by
  have hstart : Settings c.highWaterMark_ true c.writeCompleteCallback_ c := ⟨rfl, hset, rfl⟩
  have hstep : ∀ xs l, ((c.streamRun xs).streamStep l).highWaters =
      (c.streamRun xs).highWaters ++
        if Crosses c.highWaterMark_ (c.streamRun xs) ((c.streamRun xs).streamStep l) then
          [((c.streamRun xs).streamStep l).outputBuffer_.length] else [] := by
    intro xs l
    have hxs := hstart.streamRun xs
    rw [highWaters_streamStep hxs.onHighWater, hxs.mark]
  refine ⟨hstep ls, ?_⟩
  intro a ys b ha hb
  have hlater := hstart.streamRun (ls ++ a :: ys)
  have hbelow := below_of_queued hlater.onHighWater hb
  rw [hlater.mark] at hbelow
  refine ⟨hbelow, ?_⟩
  rintro rfl
  -- after the first of the two steps the amount is not below the mark
  have hcross : Crosses c.highWaterMark_ (c.streamRun ls) ((c.streamRun ls).streamStep a) := by
    by_contra hno
    exact ha (by rw [hstep ls a, if_neg hno, List.append_nil])
  have hafter : c.streamRun (ls ++ [a]) = (c.streamRun ls).streamStep a := by
    simp [streamRun]
  rw [hafter] at hbelow
  exact absurd hcross.2 (Nat.not_le.mpr hbelow)

/-- The mark is four: a direct write is refused and leaves three bytes, a second call goes
beyond the mark, and after a drain a third call reaches it again. -/
theorem high_water_on_crossing_again :
    let c : TcpConnection := { new 1 5 with highWaterMark_ := 4, highWaterMarkCallback_ := true }
    let d := (c.connectEstablished []).streamRun
      [.sendInLoop [1, 2, 3] (.error EAGAIN), .sendInLoop [4, 5] (.wrote 2),
        .handleWrite (.wrote 4)]
    d.highWaters = [5] ∧
      (d.streamStep (.sendInLoop [6, 7, 8] (.wrote 3))).highWaters = d.highWaters ++ [4] :=
  ⟨rfl, (high_water_on_crossing (c := TcpConnection.connectEstablished
    { new 1 5 with highWaterMark_ := 4, highWaterMarkCallback_ := true } []) rfl
    [.sendInLoop [1, 2, 3] (.error EAGAIN), .sendInLoop [4, 5] (.wrote 2),
      .handleWrite (.wrote 4)]).1 (.sendInLoop [6, 7, 8] (.wrote 3))⟩

end TcpConnection

end Muduo
