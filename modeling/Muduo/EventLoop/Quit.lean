import Muduo.EventLoop.Order
import Mathlib.Data.List.Infix

/-!
# Quitting with functors in the queue

`loop()` tests `quit_` after each batch and then returns, whatever `pendingFunctors_`
holds. A thread that queues functors, quits the loop and joins it can count on them only
if its store of `quit_` comes before the swap of an iteration already begun, or if the
loop has taken them by then.
-/

namespace Muduo

/-- The while-test has been passed and the swap is still to come. -/
def LoopPc.takesQueue : LoopPc → Bool
  | .polling | .dispatching _ | .inHandler _ | .swapping => true
  | .outside | .entered | .whileTest | .running | .inFunctor | .returned => false

/-- Where `p` holds in the first `n` places only before place `e`, the first `e` places
keep what the first `n` have of `p`. -/
theorem filter_take_prefix {α : Type*} {xs : List α} {p : α → Bool} {n e : Nat}
    (h : ∀ i, i < n → ∀ x, xs[i]? = some x → p x = true → i < e) :
    (xs.take n).filter p <+: (xs.take e).filter p := by
  rcases Nat.le_total n e with hne | hen
  · exact (List.take_prefix_take_left hne).filter p
  · have hsplit : xs.take n = xs.take e ++ (xs.drop e).take (n - e) := by
      rw [← List.take_add, Nat.add_sub_cancel' hen]
    have hnone : ((xs.drop e).take (n - e)).filter p = [] := by
      rw [List.filter_eq_nil_iff]
      intro x hx hp
      obtain ⟨i, hi, hget⟩ := List.getElem_of_mem hx
      simp only [List.length_take, List.length_drop] at hi
      have hlt := h (e + i) (by omega) x (by grind) hp
      omega
    rw [hsplit, List.filter_append, hnone, List.append_nil]

namespace EventLoop

variable {F Tid : Type*}

/-- The functors that `t` queued among the first `n` pushes have been called, or will be
in the current batch. -/
def Settled (s : EventLoop F Tid) (t : Tid) (n : Nat) : Prop :=
  ∀ i, i < n → ∀ x, s.pushes[i]? = some x → x.source = some t →
    i < s.executed.length + s.queue.functors.length

/-- Every `quit` so far was in time. -/
structure InTime (s : EventLoop F Tid) : Prop where
  bound : ∀ t n, s.quitMark t = some n → n ≤ s.pushes.length
  settled : ∀ t n, s.quitMark t = some n → s.pc.takesQueue = true ∨ Settled s t n
  joined : ∀ t, s.joined t = true → s.pc = .returned

section

variable {s t : EventLoop F Tid} {u : Tid} {n : Nat}
  (hq : s.executed.map Executed.item ++ s.queue.functors ++ s.queue.pendingFunctors_ = s.pushes)

include hq

theorem settled_of_not_pending (h : ∀ x ∈ s.queue.pendingFunctors_, x.source ≠ some u) :
    Settled s u n := by
  intro i _ x hx hu
  by_contra hge
  refine h x ?_ hu
  rw [← hq, List.getElem?_append_right (by simpa using Nat.le_of_not_lt hge)] at hx
  exact List.mem_of_getElem? hx

/-- With the last batch done, the swap settles everything queued so far. -/
theorem settled_swap (hempty : s.queue.functors = []) (hn : n ≤ s.pushes.length)
    (he : t.executed = s.executed) (hf : t.queue = s.queue.swap) : Settled t u n := by
  intro i hi _ _ _
  have hlen := congrArg List.length hq
  simp only [List.length_append, List.length_map, hempty, List.length_nil] at hlen
  rw [he, hf, FunctorQueue.functors_swap]
  omega

end

variable {s t : EventLoop F Tid}

/-- A push comes after every mark. -/
theorem Settled.push {u : Tid} {n : Nat} (h : Settled s u n) (hn : n ≤ s.pushes.length) (f : F)
    (source : Option Tid) : Settled (s.enqueue f source) u n := by
  intro i hi x hx hu
  simp only [enqueue] at hx
  rw [List.getElem?_append_left (by omega)] at hx
  exact h i hi x hx hu

theorem InTime.enqueue (h : InTime s) (f : F) (source : Option Tid) :
    InTime (s.enqueue f source) where
  bound := fun u n hm => by
    have hb := h.bound u n hm
    simp only [EventLoop.enqueue, List.length_append]
    omega
  settled := fun u n hm => (h.settled u n hm).imp_right fun hs => hs.push (h.bound u n hm) f source
  joined := h.joined

/-- The loop moves on with the queue and the calls as they are. -/
theorem InTime.move (h : InTime s) (hm : t.quitMark = s.quitMark) (hp : t.pushes = s.pushes)
    (he : t.executed = s.executed) (hf : t.queue = s.queue) (hj : t.joined = s.joined)
    (hpc : s.pc.takesQueue = true → t.pc.takesQueue = true) (hret : s.pc ≠ .returned) :
    InTime t where
  bound := hm ▸ hp ▸ h.bound
  settled := fun u n hmark => by
    rcases h.settled u n (hm ▸ hmark) with hs | hs
    · exact .inl (hpc hs)
    · refine .inr fun i hi x hx hu => ?_
      rw [he, hf]
      exact hs i hi x (hp ▸ hx) hu
  joined := fun u hu => absurd (h.joined u (hj ▸ hu)) hret

variable [DecidableEq Tid] {l : LoopLabel F Tid}

/-- When thread `t` stores `quit_`, none of its functors waits for a swap that may not
come. -/
def QuitsInTime (s : EventLoop F Tid) : LoopLabel F Tid → Prop
  | .storeQuit t => (∀ x ∈ s.queue.pendingFunctors_, x.source ≠ some t) ∨ s.pc.takesQueue = true
  | _ => True

instance (s : EventLoop F Tid) (l : LoopLabel F Tid) : Decidable (QuitsInTime s l) := by
  cases l <;> unfold QuitsInTime <;> infer_instance

theorem InTime.step (h : InTime s) (hc : Consistent s)
    (hq : s.executed.map Executed.item ++ s.queue.functors ++ s.queue.pendingFunctors_ = s.pushes)
    (hok : QuitsInTime s l) (hst : s.step l = some t) : InTime t := by
  cases step_cases hst with
  | push f | selfPush f => exact ⟨(h.enqueue f _).bound, (h.enqueue f _).settled, h.joined⟩
  | wake | selfTest | selfWake | selfQuit => exact ⟨h.bound, h.settled, h.joined⟩
  | @storeQuit v hv =>
    refine ⟨?_, ?_, h.joined⟩
    · intro u n hm
      by_cases huv : u = v
      · subst huv
        simp only [Function.update_self, Option.some.injEq] at hm
        exact hm ▸ Nat.le_refl _
      · exact h.bound u n (by simpa [huv] using hm)
    · intro u n hm
      by_cases huv : u = v
      · subst huv
        exact hok.elim (fun hp => .inr (settled_of_not_pending hq hp)) .inl
      · exact h.settled u n (by simpa [huv] using hm)
  | join hv hpc => exact ⟨h.bound, h.settled, fun _ _ => hpc⟩
  | enter hpc | resetQuit hpc | goOn hpc | leave hpc | pollReturn hpc | handleRead hpc | handle hpc
  | handlerReturns hpc | setCalling hpc | functorReturns hpc | endBatch hpc =>
    exact h.move rfl rfl rfl rfl rfl (by simp [hpc, LoopPc.takesQueue]) (by simp [hpc])
  | swap hpc =>
    refine ⟨h.bound, ?_, fun u hu => absurd (h.joined u hu) (by simp [hpc])⟩
    intro u n hm
    have hempty := hc.batch (by simp [hpc]) (by simp [hpc])
    exact .inr (settled_swap hq hempty (h.bound u n hm) rfl rfl)
  | call hpc hn =>
    refine ⟨h.bound, ?_, fun u hu => absurd (h.joined u hu) (by simp [hpc])⟩
    intro u n hm
    have hfs := congrArg List.length (FunctorQueue.next_eq_some hn).1
    rcases h.settled u n hm with hs | hs
    · simp [hpc, LoopPc.takesQueue] at hs
    · refine .inr fun i hi x hx hu => ?_
      have hlt := hs i hi x hx hu
      simp only [List.length_append, List.length_cons, List.length_nil] at hfs ⊢
      omega

theorem inTime (h : (machine F Tid).Reach QuitsInTime s) : InTime s := by
  induction h with
  | init hs => exact hs ▸ ⟨fun _ _ h => by simp at h, fun _ _ h => by simp at h, fun _ h => by simp at h⟩
  | step l hr hok hst ih =>
    exact ih.step (consistent hr.reachable) (pushes_balanced hr.reachable) hok hst

/-- The functors that `t` queued among the first `n` pushes have been called, in order. -/
def Ran (s : EventLoop F Tid) (t : Tid) (n : Nat) : Prop :=
  ((s.pushes.take n).filter fun x => x.source = some t) <+:
    (s.executed.map Executed.item).filter fun x => x.source = some t

/-- Where every `quit` is in time, whatever a thread queued before its `quit` has been
called when `loop()` returns, and so when the loop's thread has been joined. -/
theorem ran_before_return (h : (machine F Tid).Reach QuitsInTime s)
    (hret : s.pc = .returned ∨ ∃ u, s.joined u = true) {u : Tid} {n : Nat}
    (hm : s.quitMark u = some n) : Ran s u n := by
  have hin := inTime h
  have hpc : s.pc = .returned := hret.elim id fun ⟨v, hv⟩ => hin.joined v hv
  have hq := pushes_balanced h.reachable
  rw [(consistent h.reachable).batch (by simp [hpc]) (by simp [hpc]), List.append_nil] at hq
  have hexec : s.executed.map Executed.item = s.pushes.take s.executed.length := by
    rw [← hq, List.take_left' (List.length_map _)]
  have hsettled : Settled s u n :=
    (hin.settled u n hm).resolve_left (by simp [hpc, LoopPc.takesQueue])
  rw [Ran, hexec]
  refine filter_take_prefix fun i hi x hx hu => ?_
  have hlt := hsettled i hi x hx (by simpa using hu)
  rwa [(consistent h.reachable).batch (by simp [hpc]) (by simp [hpc])] at hlt

/-- A thread queues two functors while the loop polls, quits and joins. -/
theorem ran_before_return_polling :
    ∃ s : EventLoop String Nat, (machine String Nat).runIf QuitsInTime {}
        [.enter, .resetQuit, .testQuit, .push 0 "a", .wake 0, .push 0 "b", .wake 0,
          .storeQuit 0, .wake 0, .pollReturn [.wakeup], .handle, .setCalling, .swap, .call,
          .functorReturns, .call, .functorReturns, .endBatch, .testQuit, .join 0] = some s ∧
      s.executed.map (fun e => e.item.functor) = ["a", "b"] ∧ Ran s 0 2 := by
  refine Machine.exists_runIf rfl rfl fun s hs h => ?_
  obtain rfl := Option.some.inj hs
  exact ⟨rfl, ran_before_return h (.inl rfl) rfl⟩

/-- A functor pushed after the swap and before the store of `quit_` is dropped. -/
theorem dropped_after_swap :
    ∃ s : EventLoop String Nat, (machine String Nat).run {}
        [.enter, .resetQuit, .testQuit, .pollReturn [], .setCalling, .swap, .push 0 "destroy",
          .wake 0, .storeQuit 0, .wake 0, .endBatch, .testQuit, .join 0] = some s ∧
      s.pc = .returned ∧ s.joined 0 = true ∧ s.quitMark 0 = some 1 ∧
      s.pushes.map Queued.functor = ["destroy"] ∧ s.executed = [] ∧ ¬ Ran s 0 1 := by
  refine ⟨_, rfl, rfl, rfl, rfl, rfl, rfl, ?_⟩
  intro h
  exact absurd h.length_le (by decide)

end EventLoop

end Muduo
