import Muduo.Poller.Mirror

/-!
# Refused requests

`updateChannel` and `removeChannel` write `index_` and `channels_` whatever `epoll_ctl`
returns: `update` only logs, and `LOG_FATAL` does not end the program. What the program
believes of a channel after a refused request is what it would believe had the request
been granted.
-/

namespace Muduo

namespace ChannelOp

/-- Perform the operation; `fault` is a failure of `epoll_ctl` that has nothing to do with
the request. -/
def attempt (op : ChannelOp) (p : EpollPoller) (ch : Channel) (fault : Option Errno) :
    Except Assertion (EpollPoller × Channel) :=
  match op with
  | .enableReading => .ok (ch.enableReading p fault)
  | .disableReading => .ok (ch.disableReading p fault)
  | .enableWriting => .ok (ch.enableWriting p fault)
  | .disableWriting => .ok (ch.disableWriting p fault)
  | .disableAll => .ok (ch.disableAll p fault)
  | .remove => ch.remove p fault

variable {op : ChannelOp} {p p' : EpollPoller} {ch ch' : Channel} {e : Errno}

theorem attempt_none : op.attempt p ch none = op.perform p ch := by cases op <;> rfl

end ChannelOp

namespace EpollPoller

variable {p p' : EpollPoller} {ch ch' : Channel} {e : Errno}

@[simp] theorem update_fault (operation : EpollOp) :
    p.update operation ch (some e) = (p, some e) := rfl

/-- A refusal is not seen in `index_` and `channels_`. -/
theorem updateChannel_fault (p : EpollPoller) (ch : Channel) (e : Errno) :
    (p.updateChannel ch (some e)).2.1 = (p.updateChannel ch none).2.1 ∧
      (p.updateChannel ch (some e)).1.channels_ = (p.updateChannel ch none).1.channels_ ∧
      (p.updateChannel ch (some e)).1.interest = p.interest := by
  unfold updateChannel
  split_ifs <;> simp

theorem removeChannel_fault {f : Option Errno}
    (h : p.removeChannel ch (some e) = .ok (p', ch', f)) :
    ∃ q g, p.removeChannel ch none = .ok (q, ch', g) ∧ p'.channels_ = q.channels_ ∧
      p'.interest = p.interest := by
  unfold removeChannel at h ⊢
  split at h
  · simp only [Except.ok.injEq, Prod.mk.injEq, update_fault] at h
    obtain ⟨rfl, rfl, -⟩ := h
    refine ⟨_, _, if_pos ‹_›, ?_, ?_⟩
    · split <;> simp
    · split <;> rfl
  · contradiction

end EpollPoller

namespace ChannelOp

variable {op : ChannelOp} {p p' : EpollPoller} {ch ch' : Channel} {e : Errno}

/-- A faulty operation differs from a successful one in the kernel alone, which it leaves
as it was. -/
theorem attempt_fault (h : op.attempt p ch (some e) = .ok (p', ch')) :
    ∃ q, op.perform p ch = .ok (q, ch') ∧ p'.channels_ = q.channels_ ∧
      p'.interest = p.interest := by
  have hupdate : ∀ c, Channel.update p c (some e) = (p', ch') →
      ∃ q, Channel.update p c none = (q, ch') ∧ p'.channels_ = q.channels_ ∧
        p'.interest = p.interest := by
    intro c hc
    obtain ⟨hch, hmap, hk⟩ := p.updateChannel_fault { c with addedToLoop_ := true } e
    simp only [Channel.update, Prod.mk.injEq] at hc ⊢
    rw [hc.1] at hmap hk
    exact ⟨_, ⟨rfl, hch.symm.trans hc.2⟩, hmap, hk⟩
  cases op with
  | remove =>
    obtain ⟨hn, f, hr⟩ := Channel.remove_ok h
    obtain ⟨q, g, hq, hmap, hk⟩ := EpollPoller.removeChannel_fault hr
    exact ⟨q, by rw [perform, Channel.remove, if_pos hn, hq]; rfl, hmap, hk⟩
  | _ =>
    obtain ⟨q, hq, hmap, hk⟩ := hupdate _ (Except.ok.inj h)
    exact ⟨q, congrArg Except.ok hq, hmap, hk⟩

end ChannelOp

/-! ## What a refusal breaks -/

namespace Registered

variable {op : ChannelOp} {p q : EpollPoller} {ch ch' : Channel}

/-- For a registered channel `index_` tells what the kernel holds. -/
theorem interest_eq (hp : Registered p ch) (hq : Registered q ch) :
    p.interest ch.fd_ = q.interest ch.fd_ := by
  cases hp with
  | absent h => rw [h.interest, (hq.of_new h.index).interest]
  | watched h => rw [h.interest, (hq.of_added h.index).interest]
  | parked h => rw [h.interest, (hq.of_deleted h.index).interest]

/-- A successful operation leaves the kernel's entry as it was if it asks for nothing, or
for the mask that is there. -/
theorem perform_keeps_iff (h : Registered p ch) (hr : op.perform p ch = .ok (q, ch')) :
    q.interest ch.fd_ = p.interest ch.fd_ ↔
      op.request ch = none ∨
        op.request ch = some .EPOLL_CTL_MOD ∧ (op.changed ch).events_ = ch.events_ := by
  have hint := ChannelOp.perform_request hr
  cases hreq : op.request ch with
  | none =>
    rw [hreq] at hint
    simp [hint.1]
  | some operation =>
    rw [hreq] at hint
    rw [hint.1]
    rcases h.request_fits hreq with ⟨rfl, hk⟩ | ⟨hne, hk⟩
    · simp [EpollPoller.update, epoll_ctl, hk]
    · cases operation with
      | EPOLL_CTL_ADD => contradiction
      | EPOLL_CTL_MOD => simp [EpollPoller.update, epoll_ctl, hk]
      | EPOLL_CTL_DEL => simp [EpollPoller.update, epoll_ctl, hk]

/-- After a refusal the channel is registered exactly if success would not have changed the
kernel's entry. -/
theorem attempt_iff (h : Registered p ch) (hr : op.attempt p ch (some e) = .ok (p', ch')) :
    Registered p' ch' ↔
      op.request ch = none ∨
        op.request ch = some .EPOLL_CTL_MOD ∧ (op.changed ch).events_ = ch.events_ := by
  obtain ⟨q, hq, hmap, hk⟩ := ChannelOp.attempt_fault hr
  have hreg : Registered q ch' := h.perform hq
  have hfd : ch'.fd_ = ch.fd_ := (ChannelOp.perform_identity hq).1
  rw [← h.perform_keeps_iff hq, ← hk, ← hfd]
  constructor
  · intro hp'
    exact hreg.interest_eq hp'
  · intro hsame
    exact hreg.congr (by rw [hmap]) hsame.symm

end Registered

/-! ## Runs with refusals -/

namespace ChannelSet

variable {ι : Type*}

/-- What the program believes of its channels agrees with the kernel: `index_` is `kAdded`
for those watched, with their masks, and `channels_` has them and those taken out. -/
def Agrees (s : ChannelSet ι) : Prop := ∀ i, Registered s.poller (s.channel i)

/-- No request is refused, except for one that would change nothing. -/
def Granted (s : ChannelSet ι) (l : ChannelOp × ι × Option Errno) : Prop :=
  l.2.2 = none ∨ l.1.request (s.channel l.2.1) = none ∨
    l.1.request (s.channel l.2.1) = some .EPOLL_CTL_MOD ∧
      (l.1.changed (s.channel l.2.1)).events_ = (s.channel l.2.1).events_

variable [DecidableEq ι]

/-- As `step`, with an `epoll_ctl` that may fail for any reason. -/
def faultyStep (s : ChannelSet ι) (l : ChannelOp × ι × Option Errno) : Option (ChannelSet ι) :=
  match l.1.attempt s.poller (s.channel l.2.1) l.2.2 with
  | .ok (p, ch) =>
    some {
      poller := p
      channel := Function.update s.channel l.2.1 ch
      refused := s.refused ++ (l.1.refusal s.poller (s.channel l.2.1) l.2.2).toList
    }
  | .error _ => none

def faultyMachine (ι : Type*) [DecidableEq ι] :
    Machine (ChannelSet ι) (ChannelOp × ι × Option Errno) where
  init := Fresh
  step := faultyStep

variable {s t : ChannelSet ι} {op : ChannelOp} {i : ι} {fault : Option Errno}

/-- Of a faulty step only this matters: the channel operated on, and that the others keep
their descriptors and what is known of them. -/
theorem faultyStep_spec (hst : s.faultyStep (op, i, fault) = some t) :
    op.attempt s.poller (s.channel i) fault = .ok (t.poller, t.channel i) ∧
      (∀ j, j ≠ i → t.channel j = s.channel j) ∧
      (t.channel i).fd_ = (s.channel i).fd_ ∧
      ∀ fd, fd ≠ (s.channel i).fd_ → t.poller.channels_ fd = s.poller.channels_ fd ∧
        t.poller.interest fd = s.poller.interest fd := by
  unfold faultyStep at hst
  split at hst
  · rename_i p ch hr
    obtain rfl := Option.some.inj hst
    refine ⟨by simpa using hr, fun j hj => by simp [hj], ?_⟩
    cases fault with
    | none =>
      rw [ChannelOp.attempt_none] at hr
      exact ⟨by simpa using (ChannelOp.perform_identity hr).1,
        fun fd hfd => ChannelOp.perform_of_ne hr hfd⟩
    | some e =>
      obtain ⟨q, hq, hmap, hk⟩ := ChannelOp.attempt_fault hr
      refine ⟨by simpa using (ChannelOp.perform_identity hq).1, fun fd hfd => ?_⟩
      simp only
      rw [hmap, hk]
      exact ⟨(ChannelOp.perform_of_ne hq hfd).1, rfl⟩
  · contradiction

/-- The channels share no descriptor, so an operation concerns one of them. -/
theorem agrees_faultyStep_iff (hd : Function.Injective fun i => (s.channel i).fd_) (h : Agrees s)
    (hst : s.faultyStep (op, i, fault) = some t) : Agrees t ↔ Granted s (op, i, fault) := by
  obtain ⟨hr, hothers, hfd, hframe⟩ := faultyStep_spec hst
  have hother : ∀ j, j ≠ i → Registered t.poller (t.channel j) := by
    intro j hj
    have hne : (s.channel j).fd_ ≠ (s.channel i).fd_ := hd.ne hj
    rw [hothers j hj]
    exact (h j).congr (hframe _ hne).1 (hframe _ hne).2
  have hone : Agrees t ↔ Registered t.poller (t.channel i) := by
    constructor
    · intro ht
      exact ht i
    · intro hi j
      by_cases hj : j = i
      · exact hj ▸ hi
      · exact hother j hj
  rw [hone]
  cases fault with
  | none =>
    rw [ChannelOp.attempt_none] at hr
    exact ⟨fun _ => .inl rfl, fun _ => (h i).perform hr⟩
  | some e => simpa [Granted] using (h i).attempt_iff hr

/-- The program's view agrees with the kernel throughout a run exactly if no request of the
run is refused, but for requests that would change nothing. -/
theorem agrees_throughout_iff {ls : List (ChannelOp × ι × Option Errno)} (hs : Fresh s)
    (hrun : (faultyMachine ι).run s ls = some t) :
    (faultyMachine ι).Throughout Agrees s ls ↔ (faultyMachine ι).Along Granted s ls := by
  have hm := mirrored_of_fresh hs
  refine Machine.throughout_iff_along
    (J := fun s => (Function.Injective fun i => (s.channel i).fd_) ∧ Agrees s)
    ?_ ?_ (fun _ h => h.2) ⟨hm.distinct, hm.registered⟩ hrun
  · rintro s ⟨op, i, fault⟩ t ⟨hd, ha⟩ hok hst
    refine ⟨?_, (agrees_faultyStep_iff hd ha hst).mpr hok⟩
    obtain ⟨-, hothers, hfd, -⟩ := faultyStep_spec hst
    have hfds : (fun j => (t.channel j).fd_) = fun j => (s.channel j).fd_ := by
      funext j
      by_cases hj : j = i
      · rw [hj, hfd]
      · rw [hothers j hj]
    exact hfds ▸ hd
  · rintro s ⟨op, i, fault⟩ t ⟨hd, ha⟩ hbad hst hagrees
    exact hbad ((agrees_faultyStep_iff hd ha hst).mp hagrees)

/-- A second request for the mask that is there may be refused. -/
theorem agrees_throughout_iff_repeated :
    (faultyMachine Unit).Throughout Agrees { channel := fun _ => { addr := 32, fd_ := 5 } }
      [(.enableReading, (), none), (.enableReading, (), some 12)] := by
  have hfresh : Fresh ({ channel := fun _ => { addr := 32, fd_ := 5 } } : ChannelSet Unit) :=
    ⟨⟨fun _ => 32, fun _ => 5, fun _ _ _ => rfl, rfl⟩, rfl, rfl⟩
  refine (agrees_throughout_iff hfresh rfl).mpr ⟨.inl rfl, ?_⟩
  rintro u ⟨⟩
  exact ⟨.inr (.inr ⟨rfl, rfl⟩), fun _ _ => trivial⟩

/-- `enableReading` of a new connection is refused for lack of memory. `index_` and
`channels_` say that the kernel watches it, so `enableWriting` asks for a change and is
refused as well. -/
theorem refused_add_unnoticed :
    ∃ t : ChannelSet Unit, (faultyMachine Unit).run
        { channel := fun _ => { addr := 32, fd_ := 5 } }
        [(.enableReading, (), some 12), (.enableWriting, (), none)] = some t ∧
      (t.channel ()).index_ = .kAdded ∧ t.poller.channels_ 5 = some 32 ∧
      t.poller.interest 5 = none ∧ t.refused = [12, ENOENT] ∧ ¬ Agrees t := by
  refine ⟨_, rfl, rfl, rfl, rfl, rfl, ?_⟩
  intro h
  exact absurd ((h ()).of_added rfl).interest (by decide)

end ChannelSet

end Muduo
