import Muduo.EventLoop.Progress

/-!
# The loop goes round

`doPendingFunctors` swaps the queue out and calls what was in it then. A functor that queues
another one, or itself, adds nothing to the batch that is running, so every batch comes to
its end and the loop polls again: functors cannot keep it from its events, nor events from
its functors.
-/

namespace Muduo

namespace EventLoop

variable {F Tid : Type*} [DecidableEq Tid] {s t : EventLoop F Tid} {l : LoopLabel F Tid}

/-- How far the loop is from its next swap. -/
def roundRank (s : EventLoop F Tid) : ℕ ×ₗ ℕ :=
  match s.pc with
  | .outside => toLex (7, 0)
  | .entered => toLex (6, 0)
  | .running => toLex (5, 2 * s.queue.functors.length)
  | .inFunctor => toLex (5, 2 * s.queue.functors.length + 1)
  | .whileTest => toLex (4, 0)
  | .polling => toLex (3, 0)
  | .dispatching rest => toLex (2, 2 * rest.length)
  | .inHandler rest => toLex (2, 2 * rest.length + 1)
  | .swapping => toLex (1, 0)
  | .returned => toLex (0, 0)

/-- Neither another thread nor user code moves the loop, whatever it queues. -/
theorem roundRank_of_thread (hst : s.step l = some t) (hl : l.ofLoop = false) :
    t.roundRank = s.roundRank := by
  cases step_cases hst <;> first | rfl | simp [LoopLabel.ofLoop] at hl

theorem roundRank_of_loop (hst : s.step l = some t) (hl : l.ofLoop = true)
    (hsame : t.swaps = s.swaps) : t.roundRank < s.roundRank := by
  unfold roundRank
  cases step_cases hst with
  | push | wake | storeQuit | join | selfPush | selfTest | selfWake | selfQuit =>
    simp [LoopLabel.ofLoop] at hl
  | swap => simp at hsame
  | call hpc hn =>
    simp only [hpc, (FunctorQueue.next_eq_some hn).1, List.length_cons]
    exact Prod.Lex.toLex_lt_toLex.mpr (.inr ⟨rfl, by simp only; omega⟩)
  | handleRead hpc | handle hpc =>
    simp only [hpc, List.length_cons]
    exact Prod.Lex.toLex_lt_toLex.mpr (.inr ⟨rfl, by simp only; omega⟩)
  | _ => simp [*, Prod.Lex.toLex_lt_toLex]

variable {ok : EventLoop F Tid → LoopLabel F Tid → Prop} {e : (machine F Tid).Execution ok}

/-- `poll` always returns in the end: for an event, for a wakeup, or because its time is up. -/
def PollsReturn (e : (machine F Tid).Execution ok) : Prop :=
  ∀ n, (e.state n).pc = .polling → ∃ m active, n ≤ m ∧ e.label m = some (.pollReturn active)

/-- A loop that does not return swaps its queue again, whatever other threads, handlers and
the functors themselves queue. -/
theorem swaps_again (hfair : Fair e) (hpolls : PollsReturn e) (n : ℕ) :
    ∃ m, n ≤ m ∧ (e.label m = some .swap ∨ (e.state m).pc = .returned) := by
  obtain ⟨m, hm, hdone⟩ : ∃ m, n ≤ m ∧
      ((e.state n).swaps < (e.state m).swaps ∨ (e.state m).pc = .returned) := by
    refine e.eventually (J := fun s => (e.state n).swaps ≤ s.swaps)
      (P := fun s => (e.state n).swaps < s.swaps ∨ s.pc = .returned) (fun _ l => l.ofLoop = true)
      roundRank ?_ ?_ ?_ le_rfl ?_
    · intro s l t _ _ hst hs
      rcases swaps_step hst with h | ⟨-, h⟩ <;> omega
    · intro s l t _ _ hst hs _ ht hl
      refine roundRank_of_loop hst hl ?_
      rcases swaps_step hst with h | ⟨-, h⟩ <;> omega
    · intro s l t _ _ hst hs _ ht
      cases hl : l.ofLoop with
      | false => exact (roundRank_of_thread hst hl).le
      | true =>
        refine (roundRank_of_loop hst hl ?_).le
        rcases swaps_step hst with h | ⟨-, h⟩ <;> omega
    · intro k hk hnever
      by_cases hpoll : (e.state k).pc = .polling
      · obtain ⟨m, active, hm, hl⟩ := hpolls k hpoll
        exact ⟨m, _, hm, hl, rfl⟩
      · exact hfair.loop k ⟨fun h => hnever k hk (.inr h), fun h => absurd h hpoll⟩
  rcases hdone with hswap | hret
  · obtain ⟨k, l, hk, hl, hst, hnot, hnow⟩ := Machine.Execution.exists_step
      (Q := fun s : EventLoop F Tid => (e.state n).swaps < s.swaps) hm (lt_irrefl _) hswap
    rcases swaps_step hst with h | ⟨rfl, -⟩
    · exact absurd (h ▸ hnow) hnot
    · exact ⟨k, hk, .inl hl⟩
  · exact ⟨m, hm, .inr hret⟩

/-- A loop that does not return makes as many rounds as one likes. -/
theorem goes_round (hfair : Fair e) (hpolls : PollsReturn e) (n k : ℕ) :
    ∃ m, n ≤ m ∧ ((e.state n).swaps + k ≤ (e.state m).swaps ∨ (e.state m).pc = .returned) := by
  induction k with
  | zero => exact ⟨n, le_rfl, .inl le_rfl⟩
  | succ k ih =>
    obtain ⟨m, hm, hdone | hret⟩ := ih
    · obtain ⟨i, hi, hl | hret⟩ := swaps_again hfair hpolls m
      · have hnext := e.step_of_label hl
        have hst : (e.state i).step .swap = some (e.state (i + 1)) := hnext.2
        obtain ⟨-, hstate⟩ := Option.ite_none_right_eq_some.mp hst
        have hmono : (e.state m).swaps ≤ (e.state i).swaps := by
          refine e.stays (J := fun s => (e.state m).swaps ≤ s.swaps) ?_ hi le_rfl
          intro s l t _ _ hst hs
          rcases swaps_step hst with h | ⟨-, h⟩ <;> omega
        have hswap : (e.state (i + 1)).swaps = (e.state i).swaps + 1 := by
          rw [← Option.some.inj hstate]
        exact ⟨i + 1, by omega, .inl (by omega)⟩
      · exact ⟨i, hm.trans hi, .inr hret⟩
    · exact ⟨m, hm, .inr hret⟩

/-! ## A loop without work -/

/-- The next step of a loop that has nothing to do. -/
def idleStep (s : EventLoop F Tid) : Option (LoopLabel F Tid) :=
  match s.pc with
  | .whileTest => some .testQuit
  | .polling => some (.pollReturn [])
  | .dispatching [] => some .setCalling
  | .swapping => some .swap
  | .running => some .endBatch
  | _ => none

/-- Nothing is queued, nobody is about to wake the loop or to end it, and it goes round. -/
structure Idling (s : EventLoop F Tid) : Prop where
  quit : s.quit_ = false
  empty : s.queue.functors = [] ∧ s.queue.pendingFunctors_ = []
  threads : ∀ u, s.thread u = .idle
  going : s.idleStep.isSome = true

omit [DecidableEq Tid] in
theorem Idling.stays (h : Idling s) : s.pc ≠ .returned := by
  have hg := h.going
  intro hp
  simp [idleStep, hp] at hg

omit [DecidableEq Tid] in
theorem ofLoop_idleStep (hl : s.idleStep = some l) : l.ofLoop = true := by
  unfold idleStep at hl
  split at hl <;> cases hl <;> rfl

omit [DecidableEq Tid] in
theorem queuesInLoop_of_ofLoop (hl : l.ofLoop = true) : QueuesInLoop s l := by
  cases l with
  | selfPush => simp [LoopLabel.ofLoop] at hl
  | _ => trivial

theorem Idling.step (h : Idling s) (hl : s.idleStep = some l) :
    ∃ t, s.step l = some t ∧ Idling t := by
  obtain ⟨hq, ⟨hf, hp⟩, ht, -⟩ := h
  unfold idleStep at hl
  split at hl <;> cases hl
  case h_1 hpc =>
    have hst : s.step .testQuit = some { s with pc := .polling } := by
      simp [EventLoop.step, loopStep, hpc, hq]
    exact ⟨_, hst, hq, ⟨hf, hp⟩, ht, rfl⟩
  case h_2 hpc =>
    have hst : s.step (.pollReturn []) = some { s with pc := .dispatching [] } := by
      simp [EventLoop.step, loopStep, hpc]
    exact ⟨_, hst, hq, ⟨hf, hp⟩, ht, rfl⟩
  case h_3 hpc => exact ⟨_, if_pos hpc, hq, ⟨hf, hp⟩, ht, rfl⟩
  case h_4 hpc => exact ⟨_, if_pos hpc, hq, ⟨hp, hf⟩, ht, rfl⟩
  case h_5 hpc => exact ⟨_, if_pos ⟨hpc, hf⟩, hq, ⟨hf, hp⟩, ht, rfl⟩

/-- A functor queues itself once when it is called, and from then on the loop has no work. -/
theorem exists_pollsReturn :
    ∃ e : (machine String Unit).Execution QueuesInLoop, Fair e ∧ PollsReturn e ∧
      (e.state 11).pc = .inFunctor ∧
      (e.state 11).pushes.map Queued.functor = ["again", "again"] := by
  have along : (machine String Unit).Along QueuesInLoop {}
      [.enter, .resetQuit, .testQuit, .push () "again", .wake (), .pollReturn [.wakeup], .handle,
        .setCalling, .swap, .call, .selfPush "again", .selfTest, .selfWake, .functorReturns,
        .endBatch, .testQuit, .pollReturn [.wakeup], .handle, .setCalling, .swap, .call,
        .functorReturns, .endBatch] :=
    Machine.along_of_runIf rfl
  let e := Machine.Execution.ofRun Idling (fun _ s => s.idleStep) rfl along rfl
    ⟨rfl, ⟨rfl, rfl⟩, fun _ => rfl, rfl⟩ (by
      intro n u l hu hl
      obtain ⟨v, hv, hidle⟩ := hu.step hl
      exact ⟨queuesInLoop_of_ofLoop (ofLoop_idleStep hl), v, hv, hidle⟩)
  have hend : ∀ n, 23 ≤ n → Idling (e.state n) ∧ e.label n = (e.state n).idleStep :=
    fun n hn => ⟨Machine.Execution.state_ofRun hn, Machine.Execution.label_ofRun hn⟩
  refine ⟨e, ⟨?_, ?_⟩, ?_, rfl, rfl⟩
  · intro n _
    rcases Nat.lt_or_ge n 23 with h | h
    · exact ⟨22, _, by omega, rfl, rfl⟩
    · obtain ⟨hidle, hlabel⟩ := hend n h
      obtain ⟨l, hl⟩ := Option.isSome_iff_exists.mp hidle.going
      exact ⟨n, l, le_rfl, hlabel.trans hl, ofLoop_idleStep hl⟩
  · intro n u hu
    by_cases h : n ≤ 4
    · exact ⟨4, h, rfl⟩
    · have hmid : ∀ n < 23, 4 < n → (e.state n).thread () = .idle := by
        simp only [e, Machine.Execution.ofRun]
        decide
      rcases Nat.lt_or_ge n 23 with hn | hn
      · exact absurd (hmid n hn (by omega)) hu
      · exact absurd ((hend n hn).1.threads u) hu
  · intro n hn
    by_cases h₅ : n ≤ 5
    · exact ⟨5, _, h₅, rfl⟩
    by_cases h₁₆ : n ≤ 16
    · exact ⟨16, _, h₁₆, rfl⟩
    · have hmid : ∀ n < 23, 16 < n → (e.state n).pc ≠ .polling := by
        simp only [e, Machine.Execution.ofRun]
        decide
      rcases Nat.lt_or_ge n 23 with h | h
      · exact absurd hn (hmid n h (by omega))
      · exact ⟨n, [], le_rfl, by rw [(hend n h).2, idleStep, hn]⟩

theorem goes_round_requeued :
    ∃ e : (machine String Unit).Execution QueuesInLoop, (e.state 11).pc = .inFunctor ∧
      (e.state 11).pushes.map Queued.functor = ["again", "again"] ∧
      ∃ m, 11 ≤ m ∧ ((e.state 11).swaps + 100 ≤ (e.state m).swaps ∨
        (e.state m).pc = .returned) := by
  obtain ⟨e, hfair, hpolls, hpc, hpushes⟩ := exists_pollsReturn
  exact ⟨e, hpc, hpushes, goes_round hfair hpolls 11 100⟩

end EventLoop

end Muduo
