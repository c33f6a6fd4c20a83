import Muduo.EventLoop.Progress

/-!
# The end of a loop's thread

The destructor of `EventLoopThread` tests `loop_`, calls `loop_->quit()` and joins the thread,
all without the mutex. In between the thread may end by itself and take its loop along. Where
nobody but the destructor quits the loop, the loop still runs when the destructor calls it.

Where the request to quit comes after the reset of `quit_`, the destructor returns: the loop
comes to its end, the thread gets the mutex once more, however often `startLoop` takes it, and
is joined.
-/

namespace Muduo

/-- Steps that the threads take without waiting for user code. -/
def LoopThreadLabel.own {F Tid : Type*} : LoopThreadLabel F Tid → Bool
  | .semWait | .lock | .test | .semPost | .publish | .notify | .leaveLoop | .lockAgain | .clear
  | .testLoop | .quit | .wake | .join => true
  | .start | .spuriousWakeup | .construct _ | .callbackReturns | .loop _ | .setExiting => false

/-- How far the loop is from its reset. -/
def LoopPc.toReset : LoopPc → ℕ
  | .outside => 2
  | .entered => 1
  | .whileTest | .polling | .dispatching _ | .inHandler _ | .swapping | .running | .inFunctor
  | .returned => 0

namespace EventLoop

variable {F Tid : Type*} [DecidableEq Tid] {s t : EventLoop F Tid} {l : LoopLabel F Tid}

theorem returned_stays (hst : s.step l = some t) (h : s.pc = .returned) : t.pc = .returned := by
  cases step_cases hst with
  | push | wake | storeQuit | join | selfPush | selfTest | selfWake | selfQuit => exact h
  | _ => simp_all

/-- The loop returns only where it was asked to. -/
theorem quit_of_returned_step (hst : s.step l = some t) (h : s.pc = .returned → s.quit_ = true)
    (ht : t.pc = .returned) : t.quit_ = true := by
  cases step_cases hst with
  | push | wake | join | selfPush | selfTest | selfWake => exact h ht
  | storeQuit | selfQuit => rfl
  | leave _ hq => exact hq
  | _ => simp at ht

theorem toReset_of_loop (hst : s.step l = some t) (hl : l.ofLoop = true)
    (ht : t.pc.pastReset = false) : t.pc.toReset < s.pc.toReset := by
  cases step_cases hst with
  | enter hpc => simp [hpc, LoopPc.toReset]
  | push | wake | storeQuit | join | selfPush | selfTest | selfWake | selfQuit =>
    simp [LoopLabel.ofLoop] at hl
  | _ => simp [LoopPc.pastReset] at ht

/-- Other threads and user code leave the loop where it is. -/
theorem pc_of_thread (hst : s.step l = some t) (hl : l.ofLoop = false) : t.pc = s.pc := by
  cases step_cases hst <;> first | rfl | simp [LoopLabel.ofLoop] at hl

/-- Only its own `wakeup()` brings a thread out of `queueInLoop` or `quit`. -/
theorem thread_stays {u : Tid} (hst : s.step l = some t) (hl : l ≠ .wake u)
    (h : s.thread u ≠ .idle) : t.thread u ≠ .idle := by
  cases step_cases hst with
  | @push v | @storeQuit v =>
    by_cases hv : u = v
    · simp [setThread, hv]
    · simpa [setThread, hv, enqueue] using h
  | @wake v =>
    have hv : u ≠ v := by rintro rfl; exact hl rfl
    simpa [setThread, hv, wakeup] using h
  | _ => exact h

end EventLoop

namespace EventLoopThread

variable {F Tid : Type*} [DecidableEq Tid] {s t : EventLoopThread F Tid}
  {l : LoopThreadLabel F Tid}

/-! ## What `loop_` points to -/

theorem published_stays (h : (machine F Tid).Reachable s) (hst : s.step l = some t)
    (hp : s.func.published = true) : t.func.published = true := by
  have hlocked := locked h
  cases step_cases hst with
  | start hidle =>
    rw [hlocked.order.mp hidle] at hp
    contradiction
  | semPost hf | construct hf | callbackReturns hf => simp [hf, FuncPc.published] at hp
  | publish | notify | leaveLoop | lockAgain | clear => rfl
  | _ => exact hp

/-- The loop is created before `loop_` is stored to, and `loop_` points to it until the thread
ends. -/
structure Pointed (s : EventLoopThread F Tid) : Prop where
  created : s.func = .calling ∨ s.func = .publishing ∨ s.func.published = true → s.created ≠ none
  loop_ : s.loop_ = if s.func.published = true ∧ s.func ≠ .ended then s.created else none

theorem Pointed.step (h : Pointed s) (hl : Locked s) (hst : s.step l = some t) : Pointed t := by
  obtain ⟨hc, hp⟩ := h
  cases step_cases hst with
  | start hidle =>
    have hf := hl.order.mp hidle
    exact ⟨by simp [FuncPc.published], by simpa [hf, FuncPc.published] using hp⟩
  | construct hf =>
    refine ⟨fun _ => by simp, ?_⟩
    split <;> simpa [hf, FuncPc.published] using hp
  | _ => constructor <;> grind [FuncPc.published]

theorem pointed (h : (machine F Tid).Reachable s) : Pointed s := by
  induction h with
  | init hs =>
    obtain ⟨callback, rfl⟩ := hs
    exact ⟨by simp [FuncPc.published], by simp [FuncPc.published]⟩
  | step l hr _ hst ih => exact ih.step (locked hr) hst

theorem quit_of_returned (h : (machine F Tid).Reachable s) :
    s.loop.pc = .returned → s.loop.quit_ = true := by
  refine h.invariant (I := fun s => s.loop.pc = .returned → s.loop.quit_ = true) ?_ ?_
  · rintro s ⟨callback, rfl⟩ hpc
    contradiction
  · intro s l t hs _ hst
    cases step_cases hst with
    | loop _ hst' => exact EventLoop.quit_of_returned_step hst' hs
    | quit => exact fun _ => rfl
    | _ => exact hs

/-! ## The destructor's use of the loop -/

/-- Nobody but the destructor quits the loop, and the destructor tests `loop_` after it has
been stored to. -/
def QuitsAlone (s : EventLoopThread F Tid) : LoopThreadLabel F Tid → Prop
  | .loop (.storeQuit _) | .loop .selfQuit => False
  | .testLoop => s.func.published = true
  | _ => True

/-- Where the destructor stands, and what it has asked for. -/
structure Unasked (s : EventLoopThread F Tid) : Prop where
  early : s.dtor = .idle ∨ s.dtor = .exiting ∨ s.dtor = .quitting → s.loop.quit_ = false
  found : s.dtor = .quitting ∨ s.dtor = .waking ∨ s.dtor = .joining → s.func.published = true
  done : s.dtor = .done → s.func = .ended

theorem Unasked.step (h : Unasked s) (hs : (machine F Tid).Reachable s) (hok : QuitsAlone s l)
    (hst : s.step l = some t) : Unasked t := by
  obtain ⟨he, hf, hd⟩ := h
  have hp := published_stays hs hst
  cases step_cases hst with
  | loop ha hst' =>
    refine ⟨?_, hf, hd⟩
    intro hdtor
    cases EventLoop.step_cases hst' with
    | storeQuit | selfQuit => exact hok.elim
    | resetQuit => rfl
    | _ => exact he hdtor
  | testLoop hdtor =>
    have hpoint := (pointed hs).loop_
    have hcreated := (pointed hs).created
    constructor <;> grind [QuitsAlone]
  | _ => constructor <;> grind [FuncPc.published]

theorem unasked (h : (machine F Tid).Reach QuitsAlone s) : Unasked s := by
  induction h with
  | init hs =>
    obtain ⟨callback, rfl⟩ := hs
    constructor <;> simp
  | step l hr hok hst ih => exact ih.step hr.reachable hok hst

/-- When the destructor calls `loop_->quit()`, `loop_` points to the loop of `threadFunc`, and
that loop has not returned. When the destructor returns, `threadFunc` has ended. Only the
entry of `quit()` is safe: once it has stored to `quit_`, the loop may return, and the
`wakeup()` that follows may reach an `EventLoop` that is already destroyed. -/
theorem destructor_finds_loop (h : (machine F Tid).Reach QuitsAlone s) :
    (s.dtor = .quitting → s.loop_ = s.created ∧ s.loop_ ≠ none ∧ s.loop.pc ≠ .returned) ∧
      (s.dtor = .done → s.func = .ended) := by
  obtain ⟨he, hf, hd⟩ := unasked h
  refine ⟨?_, hd⟩
  intro hdtor
  have hpublished := hf (.inl hdtor)
  have hrunning : s.loop.pc ≠ .returned := by
    intro hpc
    have hquit := quit_of_returned h.reachable hpc
    simp [he (.inr (.inr hdtor))] at hquit
  have hended : s.func ≠ .ended := by
    intro hended
    exact hrunning ((placed h.reachable).late (.inr (.inr hended)))
  have hpoint := pointed h.reachable
  have hloop : s.loop_ = s.created := by rw [hpoint.loop_, if_pos ⟨hpublished, hended⟩]
  exact ⟨hloop, hloop ▸ hpoint.created (.inr (.inr hpublished)), hrunning⟩

/-- The destructor has found the loop, which polls. -/
theorem destructor_finds_loop_polling :
    ∃ s, (machine String Nat).Reach QuitsAlone s ∧ s.dtor = .quitting ∧
      (s.dtor = .quitting → s.loop_ = s.created ∧ s.loop_ ≠ none ∧ s.loop.pc ≠ .returned) ∧
      (s.dtor = .done → s.func = .ended) := by
  have h₀ : (machine String Nat).Reach QuitsAlone {} := .init ⟨false, rfl⟩
  have h₁ := h₀.step .start (by trivial) rfl
  have h₂ := h₁.step .semPost (by trivial) rfl
  have h₃ := h₂.step (.construct 1) (by trivial) rfl
  have h₄ := h₃.step .publish (by trivial) rfl
  have h₅ := h₄.step .notify (by trivial) rfl
  have h₆ := h₅.step (.loop .enter) (by trivial) rfl
  have h₇ := h₆.step (.loop .resetQuit) (by trivial) rfl
  have h₈ := h₇.step (.loop .testQuit) (by trivial) rfl
  have h₉ := h₈.step .setExiting (by trivial) rfl
  have h₁₀ := h₉.step .testLoop (by exact rfl) rfl
  exact ⟨_, h₁₀, rfl, destructor_finds_loop h₁₀⟩

/-- Where a functor quits the loop, `loop_` may be null again when `loop_->quit()` is called. -/
example : ((machine String Nat).run {}
    [.start, .semPost, .construct 1, .publish, .notify, .loop .enter, .loop .resetQuit,
      .loop .testQuit, .loop (.pollReturn [.other]), .loop .handle, .loop .selfQuit, .setExiting,
      .testLoop, .loop .handlerReturns, .loop .setCalling, .loop .swap, .loop .endBatch,
      .loop .testQuit, .leaveLoop, .lockAgain, .clear]).map (fun s => (s.dtor, s.loop_)) =
    some (.quitting, none) := by
  decide

/-- And `wakeup()` may come after the thread has ended: the store to `quit_` is enough for it
to end. -/
example : ((machine String Nat).run {}
    [.start, .semPost, .construct 1, .publish, .notify, .loop .enter, .loop .resetQuit,
      .setExiting, .testLoop, .quit, .loop .testQuit, .leaveLoop, .lockAgain, .clear]).map
      (fun s => (s.dtor, s.func)) = some (.waking, .ended) := by
  decide

/-! ## Fair executions -/

/-- The loop's thread goes on with `loop()` while it is awake, a thread inside `queueInLoop` or
`quit` gets to its `wakeup()`, and what a thread can do again and again it does. -/
structure Fair (e : (machine F Tid).Execution QuitsAfterReset) : Prop where
  loop : ∀ n, (e.state n).func = .looping → EventLoop.Awake (e.state n).loop →
    ∃ m l, n ≤ m ∧ e.label m = some (.loop l) ∧ l.ofLoop = true
  wake : ∀ u, e.StronglyFair (.loop (.wake u))
  own : ∀ l, l.own = true → e.StronglyFair l

variable {e : (machine F Tid).Execution QuitsAfterReset}

/-- A step that stays possible until it is taken brings about its effect. -/
theorem Fair.leads (hfair : Fair e) (hl : l.own = true) {J Q : EventLoopThread F Tid → Prop}
    (keeps : ∀ s k t, (machine F Tid).Reachable s → s.step k = some t → k ≠ l → J s → J t)
    (effect : ∀ s t, (machine F Tid).Reachable s → s.step l = some t → J s → Q t)
    (possible : ∀ s, J s → QuitsAfterReset s l ∧ (s.step l).isSome = true) {n : ℕ}
    (hn : J (e.state n)) : ∃ m, n ≤ m ∧ Q (e.state m) := by
  refine (hfair.own l hl).leads (J := J) (Q := Q) ?_ ?_ hn ?_
  · exact fun s k t hs _ hst hk hJ => keeps s k t hs.reachable hst hk hJ
  · exact fun s t hs _ hst hJ => effect s t hs.reachable hst hJ
  · exact fun hJ k hk => ⟨k, le_rfl, possible _ (hJ k hk)⟩

/-- Where the loop is awake again and again, and each of its own steps lowers a rank that the
other parties do not touch, the loop reaches its goal. -/
theorem Fair.loop_leads (hfair : Fair e) {α : Type*} [Preorder α] [WellFoundedLT α]
    {J : EventLoopThread F Tid → Prop} {P : EventLoop F Tid → Prop} (rank : EventLoop F Tid → α)
    (keeps : ∀ s k t, (machine F Tid).Reachable s → s.step k = some t → J s → J t)
    (lowers : ∀ s k u, J s → s.loop.step k = some u → k.ofLoop = true → ¬ P u →
      rank u < rank s.loop)
    (others : ∀ v k u, v.step k = some u → k.ofLoop = false → rank u = rank v)
    (asked : ∀ v q w, rank { v with quit_ := q, wakeupFd_ := w } = rank v) {n : ℕ}
    (hn : J (e.state n))
    (goes_on : ∀ k, n ≤ k → (∀ m, n ≤ m → ¬ P (e.state m).loop) →
      ∃ m, k ≤ m ∧ (e.state m).func = .looping ∧ EventLoop.Awake (e.state m).loop) :
    ∃ m, n ≤ m ∧ P (e.state m).loop := by
  refine e.eventually (J := J) (P := fun s => P s.loop)
    (fun _ l => ∃ j, l = .loop j ∧ j.ofLoop = true) (fun s => rank s.loop) ?_ ?_ ?_ hn ?_
  · exact fun s k t hr _ hst hJ => keeps s k t hr.reachable hst hJ
  · rintro s l t - - hst hJ - ht ⟨j, hl, hj⟩
    cases step_cases hst with
    | @loop k _ _ hst' =>
      obtain rfl : k = j := by simpa using hl
      exact lowers s k _ hJ hst' hj ht
    | _ => simp at hl
  · rintro s l t - - hst hJ - ht
    cases step_cases hst with
    | @loop k _ _ hst' =>
      cases hk : k.ofLoop with
      | true => exact (lowers s k _ hJ hst' hk ht).le
      | false => exact (others _ k _ hst' hk).le
    | quit => exact (asked s.loop true s.loop.wakeupFd_).le
    | wake => exact (asked s.loop s.loop.quit_ (signal s.loop.wakeupFd_)).le
    | _ => exact le_rfl
  · intro k hk hnever
    obtain ⟨m, hm, hf, hawake⟩ := goes_on k hk hnever
    obtain ⟨i, j, hi, hl, hj⟩ := hfair.loop m hf hawake
    exact ⟨i, _, hm.trans hi, hl, j, rfl, hj⟩

/-- A thread that runs has been started. -/
theorem start_ne_idle (h : (machine F Tid).Reachable s) (hf : s.func ≠ .notStarted) :
    s.start ≠ .idle :=
  fun hidle => hf ((locked h).order.mp hidle)

theorem looping_of_notified (h : (machine F Tid).Reachable s) (hn : s.func.notified = true)
    (hret : s.loop.pc ≠ .returned) : s.func = .looping := by
  have hlate := fun hf => hret ((placed h).late hf)
  cases hf : s.func <;> simp_all [FuncPc.notified]

theorem notified_of_pastReset (h : (machine F Tid).Reachable s)
    (hp : s.loop.pc.pastReset = true) : s.func.notified = true := by
  by_contra hn
  simp [(placed h).early (by simpa using hn), LoopPc.pastReset] at hp

/-! ### The reset -/

theorem notifies_eventually (hfair : Fair e) {n : ℕ} (hf : (e.state n).func = .notifying) :
    ∃ m, n ≤ m ∧ (e.state m).func.notified = true := by
  refine hfair.leads (l := .notify) rfl (J := fun s => s.func = .notifying)
    (Q := fun s => s.func.notified = true) ?_ ?_ ?_ hf
  · intro s k t hr hst hk hs
    have hstarted := start_ne_idle hr (by simp [hs])
    cases step_cases hst with
    | notify => exact absurd rfl hk
    | _ => simp_all
  · intro s t _ hst _
    cases step_cases hst with
    | notify => rfl
  · intro s hs
    exact ⟨trivial, by simp [step, startStep, funcStep, hs]⟩

theorem notified_stays (h : (machine F Tid).Reachable s) (hst : s.step l = some t)
    (hn : s.func.notified = true) : t.func.notified = true := by
  have hlocked := locked h
  cases step_cases hst with
  | start hidle =>
    rw [hlocked.order.mp hidle] at hn
    contradiction
  | semPost hf | construct hf | callbackReturns hf | publish hf =>
    simp [hf, FuncPc.notified] at hn
  | notify | leaveLoop | lockAgain | clear => rfl
  | _ => exact hn

/-- A loop that has been published gets past its reset. -/
theorem resets_eventually (hfair : Fair e) {n : ℕ} (hp : (e.state n).func.published = true) :
    ∃ m, n ≤ m ∧ (e.state m).loop.pc.pastReset = true := by
  obtain ⟨k, hk, hnotified⟩ : ∃ k, n ≤ k ∧ (e.state k).func.notified = true := by
    by_cases hf : (e.state n).func = .notifying
    · exact notifies_eventually hfair hf
    · refine ⟨n, le_rfl, ?_⟩
      cases h : (e.state n).func <;> simp_all [FuncPc.published, FuncPc.notified]
  obtain ⟨m, hm, hreset⟩ : ∃ m, k ≤ m ∧ (e.state m).loop.pc.pastReset = true := by
    refine hfair.loop_leads (J := fun s => s.func.notified = true)
      (P := fun u => u.pc.pastReset = true) (fun u => u.pc.toReset)
      (fun _ _ _ hr hst hs => notified_stays hr hst hs) ?_ ?_ (fun _ _ _ => rfl) hnotified ?_
    · exact fun s k u _ hst hk hu => EventLoop.toReset_of_loop hst hk (by simpa using hu)
    · exact fun v k u hst hk => congrArg LoopPc.toReset (EventLoop.pc_of_thread hst hk)
    · intro i hi hnever
      have hpc : (e.state i).loop.pc ≠ .returned ∧ (e.state i).loop.pc ≠ .polling := by
        constructor <;>
          · intro hpc
            have hnot := hnever i hi
            rw [hpc] at hnot
            exact hnot rfl
      have hi' : (e.state i).func.notified = true :=
        e.stays (J := fun s => s.func.notified = true)
          (fun _ _ _ hr _ hst hs => notified_stays hr.reachable hst hs) hi hnotified
      exact ⟨i, le_rfl, looping_of_notified (e.reach i).reachable hi' hpc.1, hpc.1,
        fun h => absurd h hpc.2⟩
  exact ⟨m, hk.trans hm, hreset⟩

/-! ### The request to quit -/

/-- The loop has been asked to quit after its reset. -/
def Stopping (s : EventLoopThread F Tid) : Prop :=
  s.loop.quit_ = true ∧ s.loop.pc.pastReset = true

theorem Stopping.step (h : Stopping s) (hst : s.step l = some t) : Stopping t := by
  obtain ⟨hq, hp⟩ := h
  cases step_cases hst with
  | loop _ hst' =>
    obtain ⟨hp', hq'⟩ := EventLoop.quit_stays hst' hp
    exact ⟨hq' hq, hp'⟩
  | quit => exact ⟨rfl, hp⟩
  | _ => exact ⟨hq, hp⟩

theorem quits_eventually (hfair : Fair e) {n : ℕ} (hd : (e.state n).dtor = .quitting)
    (hp : (e.state n).func.published = true) :
    ∃ m, n ≤ m ∧ (e.state m).dtor = .waking ∧ Stopping (e.state m) := by
  refine (hfair.own .quit rfl).leads
    (J := fun s => s.dtor = .quitting ∧ s.func.published = true)
    (Q := fun s => s.dtor = .waking ∧ Stopping s) ?_ ?_ ⟨hd, hp⟩ ?_
  · rintro s k t hr - hst hk ⟨hd, hp⟩
    refine ⟨?_, published_stays hr.reachable hst hp⟩
    cases step_cases hst with
    | quit => exact absurd rfl hk
    | _ => simp_all
  · rintro s t - hok hst -
    cases step_cases (show s.step .quit = some t from hst) with
    | quit => exact ⟨rfl, rfl, hok⟩
  · -- the request waits for the reset, which comes in the end
    intro hJ k hk
    obtain ⟨m, hm, hreset⟩ := resets_eventually hfair (hJ k hk).2
    refine ⟨m, hm, hreset, ?_⟩
    simp [machine, step, startStep, funcStep, dtorStep, (hJ m (hk.trans hm)).1]

theorem wakes_eventually (hfair : Fair e) {n : ℕ} (hd : (e.state n).dtor = .waking)
    (hs : Stopping (e.state n)) :
    ∃ m, n ≤ m ∧ (e.state m).dtor = .joining ∧ Stopping (e.state m) := by
  refine hfair.leads (l := .wake) rfl (J := fun s => s.dtor = .waking ∧ Stopping s)
    (Q := fun s => s.dtor = .joining ∧ Stopping s) ?_ ?_ ?_ ⟨hd, hs⟩
  · rintro s k t - hst hk ⟨hd, hs⟩
    refine ⟨?_, hs.step hst⟩
    cases step_cases hst with
    | wake => exact absurd rfl hk
    | _ => simp_all
  · rintro s t - hst ⟨-, hs⟩
    have ht := hs.step hst
    cases step_cases hst with
    | wake => exact ⟨rfl, ht⟩
  · rintro s ⟨hd, -⟩
    exact ⟨trivial, by simp [step, startStep, funcStep, dtorStep, hd]⟩

/-! ### The end of the loop -/

/-- The destructor waits for the thread, or has seen it end. -/
def Joining (s : EventLoopThread F Tid) : Prop :=
  s.dtor = .joining ∨ (s.dtor = .done ∧ s.func = .ended)

theorem Joining.step (h : Joining s) (hr : (machine F Tid).Reachable s) (hst : s.step l = some t) :
    Joining t := by
  have hlocked := (locked hr).order
  cases step_cases hst with
  | start hidle =>
    have hf := hlocked.mp hidle
    exact .inl (h.resolve_right (by simp [hf]))
  | join _ hended => exact .inr ⟨rfl, hended⟩
  | _ => grind [Joining]

/-- A loop that was asked to quit does not sleep on once `quit()` has returned. -/
theorem announced (h : (machine F Tid).Reachable s) :
    s.dtor = .waking ∨ EventLoop.QuitAnnounced s.loop := by
  refine h.invariant (I := fun s => s.dtor = .waking ∨ EventLoop.QuitAnnounced s.loop) ?_ ?_
  · rintro s ⟨callback, rfl⟩
    exact .inr fun hq => by contradiction
  · intro s l t hs _ hst
    cases step_cases hst with
    | loop _ hst' => exact hs.imp_right fun hq => hq.step hst'
    | setExiting hd | testLoop hd | join hd => exact .inr (hs.resolve_left (by simp [hd]))
    | quit => exact .inl rfl
    | wake => exact .inr fun _ _ => .inl (signal_pos _)
    | _ => exact hs

/-- Before the loop has returned, a thread inside `queueInLoop` or `quit` wakes it up. -/
theorem Fair.woken (hfair : Fair e) {n : ℕ} {u : Tid} (hu : (e.state n).loop.thread u ≠ .idle)
    (hf : ∀ m, n ≤ m → (e.state m).func = .looping) :
    ∃ m, n ≤ m ∧ 0 < (e.state m).loop.wakeupFd_ := by
  refine (hfair.wake u).leads (J := fun s => s.loop.thread u ≠ .idle)
    (Q := fun s => 0 < s.loop.wakeupFd_) ?_ ?_ hu ?_
  · intro s k t _ _ hst hk hs
    cases step_cases hst with
    | @loop j _ _ hst' => exact EventLoop.thread_stays hst' (by rintro rfl; exact hk rfl) hs
    | _ => exact hs
  · intro s t _ _ hst _
    cases step_cases (show s.step (.loop (.wake u)) = some t from hst) with
    | loop _ hst' =>
      cases EventLoop.step_cases hst' with
      | wake => exact signal_pos _
  · intro hJ k hk
    refine ⟨k, le_rfl, trivial, ?_⟩
    simp [machine, step, loopStep, admits, EventLoop.step, hf k hk, hJ k hk, FuncPc.published]

theorem returns_eventually (hfair : Fair e) {n : ℕ} (hs : Stopping (e.state n))
    (hj : Joining (e.state n)) :
    ∃ m, n ≤ m ∧ (e.state m).loop.pc = .returned := by
  have hkeeps : ∀ s k t, (machine F Tid).Reachable s → s.step k = some t →
      Stopping s ∧ Joining s → Stopping t ∧ Joining t :=
    fun _ _ _ hr hst h => ⟨h.1.step hst, h.2.step hr hst⟩
  refine hfair.loop_leads (J := fun s => Stopping s ∧ Joining s) (P := fun u => u.pc = .returned)
    EventLoop.endRank hkeeps ?_ ?_ (fun _ _ _ => rfl) ⟨hs, hj⟩ ?_
  · exact fun s k u h hst hk hu => EventLoop.endRank_of_loop hst hk h.1.1 h.1.2 hu
  · exact fun v k u hst hk => EventLoop.endRank_of_thread hst hk
  · intro k hk hnever
    have hstays : ∀ m, n ≤ m → Stopping (e.state m) ∧ Joining (e.state m) := fun m hm =>
      e.stays (J := fun s => Stopping s ∧ Joining s)
        (fun _ _ _ hr _ hst h => hkeeps _ _ _ hr.reachable hst h) hm ⟨hs, hj⟩
    have hf : ∀ m, n ≤ m → (e.state m).func = .looping := fun m hm =>
      looping_of_notified (e.reach m).reachable
        (notified_of_pastReset (e.reach m).reachable (hstays m hm).1.2) (hnever m hm)
    by_cases hawake : EventLoop.Awake (e.state k).loop
    · exact ⟨k, le_rfl, hf k hk, hawake⟩
    -- a loop that sleeps although it was asked to quit is about to be woken up
    have hpoll : (e.state k).loop.pc = .polling ∧ (e.state k).loop.wakeupFd_ = 0 := by
      have := hnever k hk
      grind [EventLoop.Awake]
    obtain ⟨⟨hq, -⟩, hjoin⟩ := hstays k hk
    have hquit := (announced (e.reach k).reachable).resolve_left (by grind [Joining])
    obtain ⟨u, hu⟩ := (hquit hq hpoll.1).resolve_left (by omega)
    obtain ⟨m, hm, hpos⟩ := hfair.woken hu fun m hm => hf m (hk.trans hm)
    exact ⟨m, hm, hf m (hk.trans hm), hnever m (hk.trans hm), fun _ => hpos⟩

/-! ### The end of the thread -/

theorem leaves_eventually (hfair : Fair e) {n : ℕ} (hf : (e.state n).func = .looping)
    (hpc : (e.state n).loop.pc = .returned) : ∃ m, n ≤ m ∧ (e.state m).func = .locking := by
  refine hfair.leads (l := .leaveLoop) rfl
    (J := fun s => s.func = .looping ∧ s.loop.pc = .returned) (Q := fun s => s.func = .locking)
    ?_ ?_ ?_ ⟨hf, hpc⟩
  · rintro s k t hr hst hk ⟨hf, hpc⟩
    have hstarted := start_ne_idle hr (by simp [hf])
    cases step_cases hst with
    | leaveLoop => exact absurd rfl hk
    | loop _ hst' => exact ⟨hf, EventLoop.returned_stays hst' hpc⟩
    | _ => simp_all [EventLoop.wakeup]
  · intro s t _ hst _
    cases step_cases hst with
    | leaveLoop => rfl
  · rintro s ⟨hf, hpc⟩
    exact ⟨trivial, by simp [step, startStep, funcStep, hf, hpc]⟩

/-- `startLoop` lets the mutex go at the end of each round of its wait loop. -/
theorem frees_eventually (hfair : Fair e) {n : ℕ} (hs : (e.state n).start = .testing) :
    ∃ m, n ≤ m ∧ (e.state m).mutex_ = none := by
  refine hfair.leads (l := .test) rfl (J := fun s => s.start = .testing)
    (Q := fun s => s.mutex_ = none) ?_ ?_ ?_ hs
  · intro s k t _ hst hk hs
    cases step_cases hst with
    | goOnWaiting | leaveWaitLoop => exact absurd rfl hk
    | _ => simp_all
  · intro s t _ hst _
    cases step_cases hst <;> rfl
  · intro s hs
    exact ⟨trivial, by simp [step, startStep, hs]⟩

/-- The thread gets the mutex in the end, although `startLoop` may take it again and again. -/
theorem locks_eventually (hfair : Fair e) {n : ℕ} (hf : (e.state n).func = .locking) :
    ∃ m, n ≤ m ∧ (e.state m).func = .clearing := by
  refine (hfair.own .lockAgain rfl).leads (J := fun s => s.func = .locking)
    (Q := fun s => s.func = .clearing) ?_ ?_ hf ?_
  · intro s k t hr _ hst hk hs
    have hstarted := start_ne_idle hr.reachable (by simp [hs])
    cases step_cases hst with
    | lockAgain => exact absurd rfl hk
    | _ => simp_all
  · intro s t _ _ hst _
    cases step_cases (show s.step .lockAgain = some t from hst) with
    | lockAgain => rfl
  · intro hJ k hk
    obtain ⟨m, hm, hfree⟩ : ∃ m, k ≤ m ∧ (e.state m).mutex_ = none := by
      have hlocked := locked (e.reach k).reachable
      cases hmutex : (e.state k).mutex_ with
      | none => exact ⟨k, le_rfl, hmutex⟩
      | some owner =>
        cases owner with
        | startLoop => exact frees_eventually hfair (hlocked.byStart hmutex)
        | threadFunc =>
          have hf := hJ k hk
          simp [hlocked.byFunc hmutex] at hf
    refine ⟨m, hm, trivial, ?_⟩
    simp [machine, step, startStep, funcStep, hJ m (hk.trans hm), hfree]

theorem clears_eventually (hfair : Fair e) {n : ℕ} (hf : (e.state n).func = .clearing) :
    ∃ m, n ≤ m ∧ (e.state m).func = .ended := by
  refine hfair.leads (l := .clear) rfl (J := fun s => s.func = .clearing)
    (Q := fun s => s.func = .ended) ?_ ?_ ?_ hf
  · intro s k t hr hst hk hs
    have hstarted := start_ne_idle hr (by simp [hs])
    cases step_cases hst with
    | clear => exact absurd rfl hk
    | _ => simp_all
  · intro s t _ hst _
    cases step_cases hst with
    | clear => rfl
  · intro s hs
    exact ⟨trivial, by simp [step, startStep, funcStep, hs]⟩

theorem ends_eventually (hfair : Fair e) {n : ℕ} (hn : (e.state n).func.notified = true)
    (hpc : (e.state n).loop.pc = .returned) : ∃ m, n ≤ m ∧ (e.state m).func = .ended := by
  have hlocking : ∀ n, (e.state n).func = .locking → ∃ m, n ≤ m ∧ (e.state m).func = .ended := by
    intro n hf
    obtain ⟨m, hm, hclearing⟩ := locks_eventually hfair hf
    obtain ⟨k, hk, hended⟩ := clears_eventually hfair hclearing
    exact ⟨k, hm.trans hk, hended⟩
  cases hf : (e.state n).func with
  | notStarted | spawned | constructing | calling | publishing | notifying =>
    simp [hf, FuncPc.notified] at hn
  | looping =>
    obtain ⟨m, hm, hleft⟩ := leaves_eventually hfair hf hpc
    obtain ⟨k, hk, hended⟩ := hlocking m hleft
    exact ⟨k, hm.trans hk, hended⟩
  | locking => exact hlocking n hf
  | clearing => exact clears_eventually hfair hf
  | ended => exact ⟨n, le_rfl, hf⟩

/-! ### The end of the destructor -/

theorem joins_eventually (hfair : Fair e) {n : ℕ} (hj : Joining (e.state n))
    (hended : (e.state n).func = .ended) :
    ∃ m, n ≤ m ∧ (e.state m).dtor = .done ∧ (e.state m).func = .ended := by
  rcases hj with hd | hdone
  · refine hfair.leads (l := .join) rfl (J := fun s => s.dtor = .joining ∧ s.func = .ended)
      (Q := fun s => s.dtor = .done ∧ s.func = .ended) ?_ ?_ ?_ ⟨hd, hended⟩
    · rintro s k t hr hst hk ⟨hd, hf⟩
      have hstarted := start_ne_idle hr (by simp [hf])
      cases step_cases hst with
      | join => exact absurd rfl hk
      | _ => simp_all
    · rintro s t - hst ⟨-, hf⟩
      cases step_cases hst with
      | join => exact ⟨rfl, hf⟩
    · rintro s ⟨hd, hf⟩
      exact ⟨trivial, by simp [step, startStep, funcStep, dtorStep, hd, hf]⟩
  · exact ⟨n, le_rfl, hdone⟩

theorem tests_eventually (hfair : Fair e) {n : ℕ} (hd : (e.state n).dtor = .exiting)
    (hp : (e.state n).func.published = true) :
    ∃ m, n ≤ m ∧ (((e.state m).dtor = .done ∧ (e.state m).func = .ended) ∨
      ((e.state m).dtor = .quitting ∧ (e.state m).func.published = true)) := by
  refine hfair.leads (l := .testLoop) rfl
    (J := fun s => s.dtor = .exiting ∧ s.func.published = true)
    (Q := fun s => (s.dtor = .done ∧ s.func = .ended) ∨
      (s.dtor = .quitting ∧ s.func.published = true)) ?_ ?_ ?_ ⟨hd, hp⟩
  · rintro s k t hr hst hk ⟨hd, hp⟩
    refine ⟨?_, published_stays hr hst hp⟩
    cases step_cases hst with
    | testLoop => exact absurd rfl hk
    | _ => simp_all
  · rintro s t hr hst ⟨-, hp⟩
    have hpoint := (pointed hr).loop_
    have hcreated := (pointed hr).created (.inr (.inr hp))
    cases step_cases hst with
    | testLoop =>
      by_cases hloop : s.loop_ = none
      · have hf : s.func = .ended := by
          by_contra hf
          rw [hloop, if_pos ⟨hp, hf⟩] at hpoint
          exact hcreated hpoint.symm
        exact .inl ⟨if_pos hloop, hf⟩
      · exact .inr ⟨if_neg hloop, hp⟩
  · rintro s ⟨hd, hp⟩
    exact ⟨trivial, by simp [step, startStep, funcStep, dtorStep, hd]⟩

/-- A destructor that begins after the loop has been published returns, and the thread has
ended by then. The `wakeup()` of its `quit()` is taken to return also where the `EventLoop`
is gone already. -/
theorem joined_eventually (hfair : Fair e) {n : ℕ} (hd : (e.state n).dtor = .exiting)
    (hp : (e.state n).func.published = true) :
    ∃ m, n ≤ m ∧ (e.state m).dtor = .done ∧ (e.state m).func = .ended := by
  obtain ⟨a, ha, hdone | ⟨hquitting, hpublished⟩⟩ := tests_eventually hfair hd hp
  · exact ⟨a, ha, hdone⟩
  obtain ⟨b, hb, hwaking, hstopping⟩ := quits_eventually hfair hquitting hpublished
  obtain ⟨c, hc, hjoining, hstopping⟩ := wakes_eventually hfair hwaking hstopping
  obtain ⟨i, hi, hreturned⟩ := returns_eventually hfair hstopping (.inl hjoining)
  have hnotified := notified_of_pastReset (e.reach i).reachable (by rw [hreturned]; rfl)
  obtain ⟨j, hj, hended⟩ := ends_eventually hfair hnotified hreturned
  have hjoin : Joining (e.state j) := by
    refine e.stays (J := Joining) ?_ (hi.trans hj) (.inl hjoining)
    exact fun s l t hr _ hst h => h.step hr.reachable hst
  obtain ⟨m, hm, hdone⟩ := joins_eventually hfair hjoin hended
  exact ⟨m, by omega, hdone⟩

instance (s : EventLoopThread F Tid) (l : LoopThreadLabel F Tid) :
    Decidable (QuitsAfterReset s l) := by
  unfold QuitsAfterReset
  split <;> infer_instance

set_option maxRecDepth 1000 in
/-- The destructor begins while the loop polls and `startLoop` waits. After its return nothing
moves any more. -/
theorem exists_fair :
    ∃ e : (machine String Unit).Execution QuitsAfterReset, Fair e ∧
      (e.state 12).dtor = .exiting ∧ (e.state 12).func.published = true ∧
      (e.state 12).loop.pc = .polling := by
  have along : (machine String Unit).Along QuitsAfterReset {}
      [.start, .semPost, .construct 1, .publish, .notify, .semWait, .lock, .test,
        .loop .enter, .loop .resetQuit, .loop .testQuit, .setExiting, .testLoop, .quit, .wake,
        .loop (.pollReturn [.wakeup]), .loop .handle, .loop .setCalling, .loop .swap,
        .loop .endBatch, .loop .testQuit, .leaveLoop, .lockAgain, .clear, .join] :=
    Machine.along_of_runIf rfl
  let I : EventLoopThread String Unit → Prop := fun u =>
    u.dtor = .done ∧ u.func = .ended ∧ u.start = .waiting
  have hinit : (machine String Unit).init {} := ⟨false, rfl⟩
  let e := Machine.Execution.ofRun I (fun _ _ => none) hinit along rfl ⟨rfl, rfl, rfl⟩ (by simp)
  have hend : ∀ n, 25 ≤ n → I (e.state n) := fun n hn => Machine.Execution.state_ofRun (I := I) hn
  have hreturned : ∀ n, 21 ≤ n → (e.state n).loop.pc = .returned := by
    intro n hn
    refine e.stays (J := fun s => s.loop.pc = .returned) ?_ hn ?_
    · intro s l t _ _ hst hs
      cases step_cases hst with
      | loop _ hst' => exact EventLoop.returned_stays hst' hs
      | _ => exact hs
    · rfl
  refine ⟨e, ⟨?_, ?_, ?_⟩, rfl, rfl, rfl⟩
  · intro n _ hawake
    by_cases hn : n ≤ 20
    · exact ⟨20, _, hn, rfl, rfl⟩
    · exact absurd (hreturned n (by omega)) hawake.1
  · intro u
    refine Machine.Execution.stronglyFair_of_impossible (n := 25) fun m hm => ?_
    simp [machine, step, loopStep, admits, (hend m hm).2.1]
  · intro l hl
    refine Machine.Execution.stronglyFair_of_impossible (n := 25) fun m hm => ?_
    obtain ⟨hd, hf, hs⟩ := hend m hm
    cases l with
    | start | spuriousWakeup | construct | callbackReturns | loop | setExiting =>
      simp [LoopThreadLabel.own] at hl
    | _ => simp [machine, step, startStep, funcStep, dtorStep, hd, hf, hs]

theorem joined_eventually_polling :
    ∃ e : (machine String Unit).Execution QuitsAfterReset,
      (e.state 12).dtor = .exiting ∧ (e.state 12).loop.pc = .polling ∧
      ∃ m, 12 ≤ m ∧ (e.state m).dtor = .done ∧ (e.state m).func = .ended := by
  obtain ⟨e, hfair, hd, hp, hpc⟩ := exists_fair
  exact ⟨e, hd, hpc, joined_eventually hfair hd hp⟩

end EventLoopThread

end Muduo
