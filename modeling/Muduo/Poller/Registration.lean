import Muduo.Poller.Basic

/-!
# Where a channel is registered

`index_`, the map `channels_` and the kernel's interest set are three views of one
fact. A channel is absent from all three, watched by all three, or parked: still in
the map, but out of the kernel. When `epoll_ctl` refuses nothing, every update moves
between these cases, and which one it reaches is said here once.
-/

namespace Muduo

variable {p : EpollPoller} {ch : Channel}

/-- Unknown to poller and kernel. -/
structure Absent (p : EpollPoller) (ch : Channel) : Prop where
  index : ch.index_ = .kNew
  channels : p.channels_ ch.fd_ = none
  interest : p.interest ch.fd_ = none

/-- In epoll, with the channel's own mask. -/
structure Watched (p : EpollPoller) (ch : Channel) : Prop where
  index : ch.index_ = .kAdded
  channels : p.channels_ ch.fd_ = some ch.addr
  interest : p.interest ch.fd_ = some (ch.events_, ch.addr)

/-- Known to the poller and out of epoll. -/
structure Parked (p : EpollPoller) (ch : Channel) : Prop where
  index : ch.index_ = .kDeleted
  channels : p.channels_ ch.fd_ = some ch.addr
  interest : p.interest ch.fd_ = none

/-- What every update keeps of the channel it is given. -/
structure Channel.SameObject (ch ch' : Channel) : Prop where
  addr : ch'.addr = ch.addr
  fd : ch'.fd_ = ch.fd_
  events : ch'.events_ = ch.events_
  tied : ch'.tied_ = ch.tied_

namespace EpollPoller

/-- An update changes the index alone. -/
theorem updateChannel_sameObject (p : EpollPoller) (ch : Channel) (fault : Option Errno) :
    ch.SameObject (p.updateChannel ch fault).2.1 := by
  unfold updateChannel
  split_ifs <;> exact ⟨rfl, rfl, rfl, rfl⟩

theorem removeChannel_sameObject {p' : EpollPoller} {ch' : Channel} {fault e : Option Errno}
    (h : p.removeChannel ch fault = .ok (p', ch', e)) : ch.SameObject ch' := by
  unfold removeChannel at h
  split at h
  · cases h
    exact ⟨rfl, rfl, rfl, rfl⟩
  · contradiction

theorem updateChannel_absent (h : Absent p ch) :
    Watched (p.updateChannel ch none).1 (p.updateChannel ch none).2.1 := by
  obtain ⟨hi, hc, hk⟩ := h
  simp only [updateChannel, hi, true_or, if_true, update, epoll_ctl, hk]
  exact ⟨rfl, by simp, by simp⟩

/-- A parked channel is added again whatever its mask, the empty one included. -/
theorem updateChannel_parked (h : Parked p ch) :
    Watched (p.updateChannel ch none).1 (p.updateChannel ch none).2.1 := by
  obtain ⟨hi, hc, hk⟩ := h
  simp only [updateChannel, hi, or_true, if_true, reduceCtorEq, if_false, update, epoll_ctl, hk]
  exact ⟨rfl, hc, by simp⟩

/-- A watched channel keeps its place when only its mask has changed since. -/
theorem updateChannel_watched {m : EventMask} (h : Watched p { ch with events_ := m })
    (hm : ch.isNoneEvent = false) :
    Watched (p.updateChannel ch none).1 (p.updateChannel ch none).2.1 := by
  obtain ⟨hi, hc, hk⟩ := h
  simp only at hi hc hk
  simp only [updateChannel, hi, reduceCtorEq, or_self, if_false, hm, Bool.false_eq_true, update,
    epoll_ctl, hk]
  exact ⟨hi, hc, by simp⟩

theorem updateChannel_watched_none {m : EventMask} (h : Watched p { ch with events_ := m })
    (hm : ch.isNoneEvent = true) :
    Parked (p.updateChannel ch none).1 (p.updateChannel ch none).2.1 := by
  obtain ⟨hi, hc, hk⟩ := h
  simp only at hi hc hk
  simp only [updateChannel, hi, reduceCtorEq, or_self, if_false, hm, if_true, update, epoll_ctl, hk]
  exact ⟨rfl, hc, by simp⟩

theorem removeChannel_watched (h : Watched p ch) :
    ∃ p' ch' e, p.removeChannel ch none = .ok (p', ch', e) ∧ Absent p' ch' ∧
      ch.SameObject ch' := by
  obtain ⟨hi, hc, hk⟩ := h
  simp only [removeChannel, hi, true_or, if_true, update, epoll_ctl, hk]
  exact ⟨_, _, _, rfl, ⟨rfl, by simp, by simp⟩, ⟨rfl, rfl, rfl, rfl⟩⟩

theorem removeChannel_parked (h : Parked p ch) :
    ∃ p' ch' e, p.removeChannel ch none = .ok (p', ch', e) ∧ Absent p' ch' ∧
      ch.SameObject ch' := by
  obtain ⟨hi, hc, hk⟩ := h
  simp only [removeChannel, hi, or_true, if_true, reduceCtorEq, if_false]
  exact ⟨_, _, _, rfl, ⟨rfl, by simp, hk⟩, ⟨rfl, rfl, rfl, rfl⟩⟩

end EpollPoller

namespace Channel

theorem update_sameObject (p : EpollPoller) (ch : Channel) (fault : Option Errno) :
    ch.SameObject (update p ch fault).2 := by
  obtain ⟨h₁, h₂, h₃, h₄⟩ := p.updateChannel_sameObject { ch with addedToLoop_ := true } fault
  exact ⟨h₁, h₂, h₃, h₄⟩

/-- A removal that ends is one of a channel without events, by `removeChannel`. -/
theorem remove_ok {p' : EpollPoller} {ch' : Channel} {fault : Option Errno}
    (h : remove p ch fault = .ok (p', ch')) :
    ch.isNoneEvent = true ∧
      ∃ e, p.removeChannel { ch with addedToLoop_ := false } fault = .ok (p', ch', e) := by
  unfold remove at h
  split at h
  · refine ⟨‹_›, ?_⟩
    cases hr : p.removeChannel { ch with addedToLoop_ := false } fault with
    | error a => simp [hr, Except.map] at h
    | ok r =>
      obtain ⟨q, c, e⟩ := r
      simp only [hr, Except.map, Except.ok.injEq, Prod.mk.injEq] at h
      exact ⟨e, by rw [h.1, h.2]⟩
  · contradiction

theorem remove_sameObject {p' : EpollPoller} {ch' : Channel} {fault : Option Errno}
    (h : remove p ch fault = .ok (p', ch')) : ch.SameObject ch' := by
  obtain ⟨-, e, hr⟩ := remove_ok h
  obtain ⟨h₁, h₂, h₃, h₄⟩ := EpollPoller.removeChannel_sameObject hr
  exact ⟨h₁, h₂, h₃, h₄⟩

theorem update_absent (h : Absent p ch) :
    Watched (update p ch none).1 (update p ch none).2 :=
  EpollPoller.updateChannel_absent ⟨h.index, h.channels, h.interest⟩

theorem update_parked (h : Parked p ch) :
    Watched (update p ch none).1 (update p ch none).2 :=
  EpollPoller.updateChannel_parked ⟨h.index, h.channels, h.interest⟩

theorem update_watched (h : Watched p ch) {m : EventMask} (hm : m ≠ 0#32) :
    Watched (update p { ch with events_ := m } none).1
      (update p { ch with events_ := m } none).2 :=
  EpollPoller.updateChannel_watched (m := ch.events_) ⟨h.index, h.channels, h.interest⟩
    (by simpa [isNoneEvent, kNoneEvent] using hm)

theorem disableAll_watched (h : Watched p ch) :
    Parked (disableAll p ch none).1 (disableAll p ch none).2 :=
  EpollPoller.updateChannel_watched_none (m := ch.events_) ⟨h.index, h.channels, h.interest⟩
    rfl

/-- A channel without events leaves the poller from wherever it was registered. -/
theorem remove_watched (h : Watched p ch) (hm : ch.isNoneEvent = true) :
    ∃ p' ch', remove p ch none = .ok (p', ch') ∧ Absent p' ch' ∧ ch.SameObject ch' := by
  have hin : Watched p { ch with addedToLoop_ := false } := ⟨h.index, h.channels, h.interest⟩
  obtain ⟨p', ch', e, hr, habs, h₁, h₂, h₃, h₄⟩ := EpollPoller.removeChannel_watched hin
  exact ⟨p', ch', by rw [remove, if_pos hm, hr]; rfl, habs, h₁, h₂, h₃, h₄⟩

theorem remove_parked (h : Parked p ch) (hm : ch.isNoneEvent = true) :
    ∃ p' ch', remove p ch none = .ok (p', ch') ∧ Absent p' ch' ∧ ch.SameObject ch' := by
  have hin : Parked p { ch with addedToLoop_ := false } := ⟨h.index, h.channels, h.interest⟩
  obtain ⟨p', ch', e, hr, habs, h₁, h₂, h₃, h₄⟩ := EpollPoller.removeChannel_parked hin
  exact ⟨p', ch', by rw [remove, if_pos hm, hr]; rfl, habs, h₁, h₂, h₃, h₄⟩

end Channel

end Muduo
