import Mathlib.Algebra.Group.Nat.Even
import Mathlib.Dynamics.PeriodicPts.Defs
import Muduo.Poller.Mirror

/-!
# Disabling a channel for good

`disableAll` clears the mask and calls `updateChannel`, which looks at `index_` first. A
watched channel is taken out of the kernel. A channel that is new or has been taken out
already is added, with the empty mask, and the kernel then reports `EPOLLERR` and
`EPOLLHUP` for it. So every second `disableAll` undoes the one before.
-/

namespace Muduo

namespace Channel

/-- One call of `disableAll`, on the poller and the channel together. -/
def disabled (x : EpollPoller × Channel) : EpollPoller × Channel := x.2.disableAll x.1 none

/-- After one `disableAll` the descriptor is outside the kernel, and `n` more calls have changed
nothing when the last of them returns. What the kernel holds between them is not said. -/
structure DisableSettles (p : EpollPoller) (ch : Channel) (n : Nat) : Prop where
  outside : (disabled (p, ch)).1.interest ch.fd_ = none
  index : (disabled^[n] (disabled (p, ch))).2.index_ = (disabled (p, ch)).2.index_
  channels : (disabled^[n] (disabled (p, ch))).1.channels_ = (disabled (p, ch)).1.channels_
  interest : (disabled^[n] (disabled (p, ch))).1.interest = (disabled (p, ch)).1.interest

variable {p : EpollPoller} {ch : Channel}

theorem fd_disabled (p : EpollPoller) (ch : Channel) : (disabled (p, ch)).2.fd_ = ch.fd_ :=
  (update_sameObject p { ch with events_ := kNoneEvent } none).fd

theorem events_disabled (p : EpollPoller) (ch : Channel) :
    (disabled (p, ch)).2.events_ = kNoneEvent :=
  (update_sameObject p { ch with events_ := kNoneEvent } none).events

theorem addedToLoop_disabled (p : EpollPoller) (ch : Channel) :
    (disabled (p, ch)).2.addedToLoop_ = true := by
  unfold disabled disableAll update EpollPoller.updateChannel
  split_ifs <;> rfl

/-- Which of the three cases `disableAll` leads to depends on where it starts. -/
theorem disabled_watched (h : Watched p ch) : Parked (disabled (p, ch)).1 (disabled (p, ch)).2 :=
  disableAll_watched h

theorem disabled_of_ne (h : Registered p ch) (hi : ch.index_ ≠ .kAdded) :
    Watched (disabled (p, ch)).1 (disabled (p, ch)).2 := by
  cases h with
  | absent h => exact update_absent ⟨h.index, h.channels, h.interest⟩
  | parked h => exact update_parked ⟨h.index, h.channels, h.interest⟩
  | watched h => exact absurd h.index hi

/-- The descriptor leaves the kernel exactly from `kAdded`. -/
theorem disabled_outside_iff (h : Registered p ch) :
    (disabled (p, ch)).1.interest ch.fd_ = none ↔ ch.index_ = .kAdded := by
  rw [← fd_disabled p ch]
  constructor
  · intro hout
    by_contra hi
    simpa [hout] using (disabled_of_ne h hi).interest
  · intro hi
    cases h with
    | absent h => simp [h.index] at hi
    | parked h => simp [h.index] at hi
    | watched h => exact (disabled_watched h).interest

/-- Two calls cancel out. -/
theorem disabled_disabled (h : Registered p ch) (hn : ch.index_ ≠ .kNew)
    (hm : ch.events_ = kNoneEvent) (ha : ch.addedToLoop_ = true) :
    disabled (disabled (p, ch)) = (p, ch) := by
  obtain ⟨channels, interest⟩ := p
  obtain ⟨addr, fd, events, index, tied, handling, added⟩ := ch
  obtain rfl : events = kNoneEvent := hm
  obtain rfl : added = true := ha
  cases h with
  | absent h => exact absurd h.index hn
  | watched h =>
    obtain ⟨hi, -, hk⟩ := h
    obtain rfl : index = .kAdded := hi
    simp only at hk
    -- deleted and added again, with the mask it had
    have hself : Function.update interest fd (some (kNoneEvent, addr)) = interest :=
      hk ▸ Function.update_eq_self fd interest
    simp [disabled, disableAll, update, EpollPoller.updateChannel, EpollPoller.update, epoll_ctl,
      isNoneEvent, hk, hself]
  | parked h =>
    obtain ⟨hi, -, hk⟩ := h
    obtain rfl : index = .kDeleted := hi
    simp only at hk
    have hself : Function.update interest fd none = interest :=
      hk ▸ Function.update_eq_self fd interest
    simp [disabled, disableAll, update, EpollPoller.updateChannel, EpollPoller.update, epoll_ctl,
      isNoneEvent, hk, hself]

/-- Further calls come back to where the first one led at every second call, and only then. -/
theorem disableSettles_iff (h : Registered p ch) (n : Nat) :
    DisableSettles p ch n ↔ ch.index_ = .kAdded ∧ Even n := by
  have hfirst : Registered (disabled (p, ch)).1 (disabled (p, ch)).2 := h.update kNoneEvent
  have hnew : (disabled (p, ch)).2.index_ ≠ .kNew := by
    by_cases hi : ch.index_ = .kAdded
    · simp [(disabled_watched (h.of_added hi)).index]
    · simp [(disabled_of_ne h hi).index]
  have hperiod : Function.IsPeriodicPt disabled 2 (disabled (p, ch)) :=
    disabled_disabled hfirst hnew (events_disabled p ch) (addedToLoop_disabled p ch)
  constructor
  · intro hs
    have hi : ch.index_ = .kAdded := (disabled_outside_iff h).mp hs.outside
    have hparked := disabled_watched (h.of_added hi)
    have hagain := disabled_of_ne (.parked hparked) (by simp [hparked.index])
    refine ⟨hi, ?_⟩
    by_contra hodd
    have hindex := hs.index
    rw [← hperiod.iterate_mod_apply n, Nat.not_even_iff.mp hodd, hparked.index] at hindex
    exact absurd (hagain.index.symm.trans hindex) (by decide)
  · rintro ⟨hi, heven⟩
    have hback : disabled^[n] (disabled (p, ch)) = disabled (p, ch) := by
      rw [← hperiod.iterate_mod_apply n, Nat.even_iff.mp heven, Function.iterate_zero_apply]
    exact ⟨(disabled_outside_iff h).mpr hi, by rw [hback], by rw [hback], by rw [hback]⟩

/-- With an empty mask every operation but `remove` is a `disableAll`. -/
theorem disabled_of_perform {op : ChannelOp} {p' : EpollPoller} {ch' : Channel}
    (hop : op ≠ .remove) (hr : op.perform p ch = .ok (p', ch'))
    (hnone : (op.changed ch).isNoneEvent = true) : disabled (p, ch) = (p', ch') := by
  obtain ⟨m, hm⟩ : ∃ m, op.changed ch = { ch with events_ := m } := by
    cases op <;> exact ⟨_, rfl⟩
  obtain rfl : m = kNoneEvent := by simpa [hm, isNoneEvent] using hnone
  rw [← ChannelOp.perform_update hop hr, hm]
  rfl

end Channel

/-! ## Runs -/

namespace ChannelSet

variable {ι : Type*}

/-- No channel with an empty mask is in the kernel's interest set. -/
def NoneOutside (s : ChannelSet ι) : Prop :=
  ∀ i, (s.channel i).isNoneEvent = true → s.poller.interest (s.channel i).fd_ = none

/-- `updateChannel` gets a channel with an empty mask only if the channel is in epoll. -/
def DisablesAdded (s : ChannelSet ι) (l : ChannelOp × ι) : Prop :=
  l.1 ≠ .remove → (l.1.changed (s.channel l.2)).isNoneEvent = true →
    (s.channel l.2).index_ = .kAdded

variable [DecidableEq ι] {s t : ChannelSet ι} {l : ChannelOp × ι}

theorem NoneOutside.step (h : NoneOutside s) (hm : Mirrored s) (hok : DisablesAdded s l)
    (hst : s.step l = some t) : NoneOutside t := by
  obtain ⟨p, ch, hr, rfl⟩ := step_cases hst
  obtain ⟨op, i⟩ := l
  intro j hj
  simp only at hj ⊢
  by_cases hji : j = i
  · subst hji
    simp only [Function.update_self] at hj ⊢
    by_cases hop : op = .remove
    · subst hop
      exact ((hm.registered j).remove hr).interest
    · have hnone : (op.changed (s.channel j)).isNoneEvent = true := by
        have hsame := Channel.update_sameObject s.poller (op.changed (s.channel j)) none
        rw [ChannelOp.perform_update hop hr] at hsame
        have he : ch.events_ = (op.changed (s.channel j)).events_ := hsame.events
        simpa [Channel.isNoneEvent, he] using hj
      have hd := Channel.disabled_of_perform hop hr hnone
      have hout := (Channel.disabled_outside_iff (hm.registered j)).mpr (hok hop hnone)
      rw [hd] at hout
      rwa [(ChannelOp.perform_identity hr).1]
  · have hne : (s.channel j).fd_ ≠ (s.channel i).fd_ := hm.distinct.ne hji
    rw [Function.update_of_ne hji] at hj ⊢
    rw [(ChannelOp.perform_of_ne hr hne).2]
    exact h j hj

/-- Any other update with an empty mask puts the channel into the kernel. -/
theorem not_noneOutside (hm : Mirrored s) (hbad : ¬ DisablesAdded s l)
    (hst : s.step l = some t) : ¬ NoneOutside t := by
  obtain ⟨p, ch, hr, rfl⟩ := step_cases hst
  obtain ⟨op, i⟩ := l
  obtain ⟨hop, hnone, hi⟩ : op ≠ .remove ∧ (op.changed (s.channel i)).isNoneEvent = true ∧
      (s.channel i).index_ ≠ .kAdded := by
    simpa only [DisablesAdded, Classical.not_imp] using hbad
  have hd := Channel.disabled_of_perform hop hr hnone
  have hw := Channel.disabled_of_ne (hm.registered i) hi
  have he : ch.events_ = Channel.kNoneEvent := by
    have he := Channel.events_disabled s.poller (s.channel i)
    rwa [hd] at he
  rw [hd] at hw
  intro h
  have hout := h i (by simp [Channel.isNoneEvent, he])
  simp only [Function.update_self] at hout
  exact absurd (hout.symm.trans hw.interest) (by simp)

/-- What `disableAll` promises holds exactly for a watched channel and an even number of
further calls, and a run keeps channels with empty masks out of the kernel exactly if it
calls `updateChannel` with an empty mask for watched channels alone. -/
theorem disableAll_settles_iff {ls : List (ChannelOp × ι)} (hs : Fresh s)
    (hrun : (machine ι).run s ls = some t) :
    (∀ i n, Channel.DisableSettles t.poller (t.channel i) n ↔
        (t.channel i).index_ = .kAdded ∧ Even n) ∧
      ((machine ι).Throughout NoneOutside s ls ↔ (machine ι).Along DisablesAdded s ls) := by
  refine ⟨?_, ?_⟩
  · intro i n
    have ht := mirrored (Machine.reachable_run hs ls hrun)
    exact Channel.disableSettles_iff (ht.registered i) n
  · have hstart : Mirrored s ∧ NoneOutside s := by
      have hm := mirrored_of_fresh hs
      refine ⟨hm, ?_⟩
      intro i _
      obtain ⟨-, hp, -⟩ := hs
      rw [hp]
    refine Machine.throughout_iff_along (J := fun s => Mirrored s ∧ NoneOutside s) ?_ ?_
      (fun _ h => h.2) hstart hrun
    · rintro s l t ⟨hm, hout⟩ hok hst
      exact ⟨hm.step hst, hout.step hm hok hst⟩
    · rintro s l t ⟨hm, -⟩ hbad hst
      exact not_noneOutside hm hbad hst

/-- A channel is enabled, disabled and enabled for writing, and can be disabled for good. -/
theorem disableAll_settles_iff_enabled :
    ∃ t : ChannelSet Unit, (machine Unit).run { channel := fun _ => { addr := 32, fd_ := 5 } }
        [(.enableReading, ()), (.disableAll, ()), (.enableWriting, ())] = some t ∧
      Channel.DisableSettles t.poller (t.channel ()) 4 := by
  have hfresh : Fresh ({ channel := fun _ => { addr := 32, fd_ := 5 } } : ChannelSet Unit) :=
    ⟨⟨fun _ => 32, fun _ => 5, fun _ _ _ => rfl, rfl⟩, rfl, rfl⟩
  refine Machine.exists_run hfresh (by decide) fun t ht _ => ?_
  have hi : (t.channel ()).index_ = .kAdded := by
    obtain rfl := Option.some.inj ht
    rfl
  exact ((disableAll_settles_iff hfresh ht).1 () 4).mpr ⟨hi, by decide⟩

/-- A connection is closed twice: the second `disableAll` puts its channel back into the
kernel, with no event and with `kAdded`. -/
theorem disabled_twice_added :
    ∃ t : ChannelSet Unit, (machine Unit).run { channel := fun _ => { addr := 32, fd_ := 5 } }
        [(.enableReading, ()), (.disableAll, ())] = some t ∧
      ¬ Channel.DisableSettles t.poller (t.channel ()) 0 ∧
      ∃ u, (machine Unit).run t [(.disableAll, ())] = some u ∧
        (u.channel ()).isNoneEvent = true ∧ (u.channel ()).index_ = .kAdded ∧
        u.poller.interest 5 = some (0, 32) ∧ ¬ NoneOutside u := by
  refine ⟨_, rfl, ?_, _, rfl, rfl, rfl, rfl, ?_⟩
  · intro h
    exact absurd h.outside (by decide)
  · intro h
    exact absurd (h () rfl) (by decide)

end ChannelSet

end Muduo
