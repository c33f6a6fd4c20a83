import Muduo.Library.Machine
import Muduo.Poller.Registration

/-!
# The poller mirrors the kernel

Several channels share one poller, each under a descriptor of its own. Their owners
enable, disable and remove them in any order. Every channel then stays in one of the
three cases of registration: an operation moves the channel it is called on between
the cases and leaves the others where they are. In none of the cases does the request
that `updateChannel` or `removeChannel` makes meet a kernel that refuses it.
-/

namespace Muduo

/-! ## The requests made to the kernel -/

namespace EpollPoller

/-- The operation that `updateChannel` asks for. -/
def updateRequest (ch : Channel) : EpollOp :=
  if ch.index_ = .kNew ∨ ch.index_ = .kDeleted then .EPOLL_CTL_ADD
  else if ch.isNoneEvent then .EPOLL_CTL_DEL
  else .EPOLL_CTL_MOD

/-- The operation that `removeChannel` asks for, if any. -/
def removeRequest (ch : Channel) : Option EpollOp :=
  if ch.index_ = .kAdded then some .EPOLL_CTL_DEL else none

/-- `updateChannel` makes this one call of `epoll_ctl`, and returns what comes of it. -/
theorem updateChannel_request (p : EpollPoller) (ch : Channel) (fault : Option Errno) :
    (p.updateChannel ch fault).1.interest = (p.update (updateRequest ch) ch fault).1.interest ∧
      (p.updateChannel ch fault).2.2 = (p.update (updateRequest ch) ch fault).2 := by
  unfold updateChannel updateRequest
  split_ifs with h₁ h₂ h₃
  · simp only [update]; split <;> exact ⟨rfl, rfl⟩
  · exact ⟨rfl, rfl⟩
  · exact ⟨rfl, rfl⟩
  · exact ⟨rfl, rfl⟩

/-- `removeChannel` makes this call of `epoll_ctl` or none. -/
theorem removeChannel_request {p p' : EpollPoller} {ch ch' : Channel} {fault e : Option Errno}
    (h : p.removeChannel ch fault = .ok (p', ch', e)) :
    match removeRequest ch with
    | some operation =>
      p'.interest = (p.update operation ch fault).1.interest ∧ e = (p.update operation ch fault).2
    | none => p'.interest = p.interest ∧ e = none := by
  unfold removeChannel at h
  split at h
  · simp only [Except.ok.injEq, Prod.mk.injEq] at h
    obtain ⟨rfl, -, rfl⟩ := h
    unfold removeRequest
    split_ifs
    · simp only [update]; split <;> exact ⟨rfl, rfl⟩
    · exact ⟨rfl, rfl⟩
  · contradiction

/-- `epoll_ctl` grants the addition of a descriptor that it does not have. -/
theorem update_add {p : EpollPoller} {ch : Channel} (h : p.interest ch.fd_ = none) :
    (p.update .EPOLL_CTL_ADD ch none).2 = none := by
  simp [update, epoll_ctl, h]

/-- It grants the change or deletion of one that it has. -/
theorem update_change {p : EpollPoller} {ch : Channel} {operation : EpollOp}
    (h : p.interest ch.fd_ ≠ none) (hop : operation ≠ .EPOLL_CTL_ADD) :
    (p.update operation ch none).2 = none := by
  obtain ⟨event, h⟩ := Option.ne_none_iff_exists'.mp h
  cases operation with
  | EPOLL_CTL_ADD => contradiction
  | EPOLL_CTL_MOD => simp [update, epoll_ctl, h]
  | EPOLL_CTL_DEL => simp [update, epoll_ctl, h]

end EpollPoller

/-! ## Operations on a channel -/

/-- The public operations that reach the poller. -/
inductive ChannelOp where
  | enableReading | disableReading | enableWriting | disableWriting | disableAll | remove
  deriving DecidableEq, Repr

namespace ChannelOp

/-- Perform the operation with an `epoll_ctl` that fails for no other reason than a
wrong request. -/
def perform (op : ChannelOp) (p : EpollPoller) (ch : Channel) :
    Except Assertion (EpollPoller × Channel) :=
  match op with
  | .enableReading => .ok (ch.enableReading p none)
  | .disableReading => .ok (ch.disableReading p none)
  | .enableWriting => .ok (ch.enableWriting p none)
  | .disableWriting => .ok (ch.disableWriting p none)
  | .disableAll => .ok (ch.disableAll p none)
  | .remove => ch.remove p none

/-- The channel as the poller gets to see it. -/
def changed (op : ChannelOp) (ch : Channel) : Channel :=
  match op with
  | .enableReading => { ch with events_ := ch.events_ ||| Channel.kReadEvent }
  | .disableReading => { ch with events_ := ch.events_ &&& ~~~Channel.kReadEvent }
  | .enableWriting => { ch with events_ := ch.events_ ||| Channel.kWriteEvent }
  | .disableWriting => { ch with events_ := ch.events_ &&& ~~~Channel.kWriteEvent }
  | .disableAll => { ch with events_ := Channel.kNoneEvent }
  | .remove => ch

/-- The call of `epoll_ctl` that the operation makes, if any. -/
def request (op : ChannelOp) (ch : Channel) : Option EpollOp :=
  match op with
  | .remove => EpollPoller.removeRequest ch
  | _ => some (EpollPoller.updateRequest (op.changed ch))

/-- The errno that the poller's function returns to the operation, which drops it. -/
def refusal (op : ChannelOp) (p : EpollPoller) (ch : Channel) (fault : Option Errno) :
    Option Errno :=
  match op with
  | .remove =>
    match p.removeChannel { ch with addedToLoop_ := false } fault with
    | .ok (_, _, e) => e
    | .error _ => none
  | _ => (p.updateChannel { op.changed ch with addedToLoop_ := true } fault).2.2

variable {op : ChannelOp} {p p' : EpollPoller} {ch ch' : Channel}

@[simp] theorem fd_changed : (op.changed ch).fd_ = ch.fd_ := by cases op <;> rfl
@[simp] theorem addr_changed : (op.changed ch).addr = ch.addr := by cases op <;> rfl
@[simp] theorem index_changed : (op.changed ch).index_ = ch.index_ := by cases op <;> rfl

theorem request_of_ne (h : op ≠ .remove) :
    op.request ch = some (EpollPoller.updateRequest (op.changed ch)) := by
  cases op <;> first | rfl | contradiction

/-- Every operation but `remove` is an update of the changed channel. -/
theorem perform_update (hop : op ≠ .remove) (h : op.perform p ch = .ok (p', ch')) :
    Channel.update p (op.changed ch) none = (p', ch') := by
  cases op with
  | remove => contradiction
  | _ => exact Except.ok.inj h

/-- What an operation does to the kernel is what its request does, and it is refused when the
request is. -/
theorem perform_request (h : op.perform p ch = .ok (p', ch')) :
    match op.request ch with
    | some operation =>
      p'.interest = (p.update operation (op.changed ch) none).1.interest ∧
        op.refusal p ch none = (p.update operation (op.changed ch) none).2
    | none => p'.interest = p.interest ∧ op.refusal p ch none = none := by
  by_cases hop : op = .remove
  · subst hop
    obtain ⟨-, e, hr⟩ := Channel.remove_ok h
    have he : ChannelOp.refusal .remove p ch none = e := by rw [refusal, hr]
    have hreq := EpollPoller.removeChannel_request hr
    rw [he]
    exact hreq
  · have hp : (Channel.update p (op.changed ch) none).1 = p' := by rw [perform_update hop h]
    have he : op.refusal p ch none =
        (p.updateChannel { op.changed ch with addedToLoop_ := true } none).2.2 := by
      cases op <;> first | rfl | contradiction
    rw [request_of_ne hop, ← hp, he]
    exact EpollPoller.updateChannel_request _ _ _

/-- The descriptor and the address are the channel's for ever. -/
theorem perform_identity (h : op.perform p ch = .ok (p', ch')) :
    ch'.fd_ = ch.fd_ ∧ ch'.addr = ch.addr := by
  by_cases hop : op = .remove
  · subst hop
    have hsame := Channel.remove_sameObject h
    exact ⟨hsame.fd, hsame.addr⟩
  · have hsame := Channel.update_sameObject p (op.changed ch) none
    rw [perform_update hop h] at hsame
    exact ⟨by simpa using hsame.fd, by simpa using hsame.addr⟩

/-- An operation leaves what is known of other descriptors unchanged. -/
theorem perform_of_ne {fd : Nat} (h : op.perform p ch = .ok (p', ch')) (hfd : fd ≠ ch.fd_) :
    p'.channels_ fd = p.channels_ fd ∧ p'.interest fd = p.interest fd := by
  by_cases hop : op = .remove
  · subst hop
    obtain ⟨-, e, hr⟩ := Channel.remove_ok h
    exact EpollPoller.removeChannel_of_ne _ _ _ (by exact hfd) hr
  · have hp : (Channel.update p (op.changed ch) none).1 = p' := by rw [perform_update hop h]
    rw [← hp]
    exact EpollPoller.updateChannel_of_ne _ _ _ (by simpa using hfd)

end ChannelOp

/-! ## Registration is kept -/

/-- The three cases of registration. -/
inductive Registered (p : EpollPoller) (ch : Channel) : Prop where
  | absent (h : Absent p ch)
  | watched (h : Watched p ch)
  | parked (h : Parked p ch)

namespace Registered

variable {op : ChannelOp} {p p' : EpollPoller} {ch ch' : Channel}

/-- Registration depends on the poller at the channel's own descriptor only. -/
theorem congr (h : Registered p ch) (hc : p'.channels_ ch.fd_ = p.channels_ ch.fd_)
    (hk : p'.interest ch.fd_ = p.interest ch.fd_) : Registered p' ch := by
  cases h with
  | absent h => exact .absent ⟨h.index, hc.trans h.channels, hk.trans h.interest⟩
  | watched h => exact .watched ⟨h.index, hc.trans h.channels, hk.trans h.interest⟩
  | parked h => exact .parked ⟨h.index, hc.trans h.channels, hk.trans h.interest⟩

/-- A channel is registered again after an update with any mask. -/
theorem update (h : Registered p ch) (m : EventMask) :
    Registered (Channel.update p { ch with events_ := m } none).1
      (Channel.update p { ch with events_ := m } none).2 := by
  cases h with
  | absent h => exact .watched (Channel.update_absent ⟨h.index, h.channels, h.interest⟩)
  | parked h => exact .watched (Channel.update_parked ⟨h.index, h.channels, h.interest⟩)
  | watched h =>
    by_cases hm : m = 0#32
    · subst hm
      exact .parked (Channel.disableAll_watched h)
    · exact .watched (Channel.update_watched h hm)

/-- A channel is absent after its removal. -/
theorem remove (h : Registered p ch) (hr : ChannelOp.perform .remove p ch = .ok (p', ch')) :
    Absent p' ch' := by
  have hnone := (Channel.remove_ok hr).1
  have hr : ch.remove p none = .ok (p', ch') := hr
  cases h with
  | absent h => simp [Channel.remove, EpollPoller.removeChannel, hnone, h.index, Except.map] at hr
  | watched h =>
    obtain ⟨_, _, he, habs, -⟩ := Channel.remove_watched h hnone
    cases he.symm.trans hr
    exact habs
  | parked h =>
    obtain ⟨_, _, he, habs, -⟩ := Channel.remove_parked h hnone
    cases he.symm.trans hr
    exact habs

theorem perform (h : Registered p ch) (hr : op.perform p ch = .ok (p', ch')) :
    Registered p' ch' := by
  by_cases hop : op = .remove
  · subst hop
    exact .absent (h.remove hr)
  · obtain ⟨m, hm⟩ : ∃ m, op.changed ch = { ch with events_ := m } := by
      cases op <;> exact ⟨_, rfl⟩
    have hu := h.update m
    rwa [← hm, ChannelOp.perform_update hop hr] at hu

/-- A descriptor is added when the kernel does not have it, and changed or deleted when the
kernel has it with the channel's mask. -/
theorem request_fits (h : Registered p ch) {operation : EpollOp}
    (hreq : op.request ch = some operation) :
    operation = .EPOLL_CTL_ADD ∧ p.interest ch.fd_ = none ∨
      operation ≠ .EPOLL_CTL_ADD ∧ p.interest ch.fd_ = some (ch.events_, ch.addr) := by
  by_cases hop : op = .remove
  · subst hop
    simp only [ChannelOp.request, EpollPoller.removeRequest] at hreq
    cases h with
    | absent h => simp [h.index] at hreq
    | parked h => simp [h.index] at hreq
    | watched h =>
      simp only [h.index, if_true, Option.some.injEq] at hreq
      exact .inr ⟨by simp [← hreq], h.interest⟩
  · simp only [ChannelOp.request_of_ne hop, EpollPoller.updateRequest, Option.some.injEq,
      ChannelOp.index_changed] at hreq
    cases h with
    | absent h => exact .inl ⟨by simpa [h.index] using hreq.symm, h.interest⟩
    | parked h => exact .inl ⟨by simpa [h.index] using hreq.symm, h.interest⟩
    | watched h =>
      simp only [h.index, reduceCtorEq, or_self, if_false] at hreq
      refine .inr ⟨?_, h.interest⟩
      split at hreq <;> simp [← hreq]

/-- So a request is never refused. -/
theorem refusal (h : Registered p ch) (hr : op.perform p ch = .ok (p', ch')) :
    op.refusal p ch none = none := by
  have hreq := ChannelOp.perform_request hr
  split at hreq
  · rename_i operation hop
    rw [hreq.2]
    rcases h.request_fits hop with ⟨rfl, hk⟩ | ⟨hne, hk⟩
    · exact EpollPoller.update_add (by simpa using hk)
    · exact EpollPoller.update_change (by simp [hk]) hne
  · exact hreq.2

end Registered

/-! ## Many channels on one poller -/

/-- A poller with the channels that use it, and every errno `epoll_ctl` has returned. -/
structure ChannelSet (ι : Type*) where
  poller : EpollPoller := {}
  channel : ι → Channel
  refused : List Errno := []

namespace ChannelSet

variable {ι : Type*} [DecidableEq ι]

/-- Perform an operation on one of the channels, if its assertions hold. -/
def step (s : ChannelSet ι) (l : ChannelOp × ι) : Option (ChannelSet ι) :=
  match l.1.perform s.poller (s.channel l.2) with
  | .ok (p, ch) =>
    some {
      poller := p
      channel := Function.update s.channel l.2 ch
      refused := s.refused ++ (l.1.refusal s.poller (s.channel l.2) none).toList
    }
  | .error _ => none

/-- Channels as constructed, with descriptors of their own, on a fresh poller. -/
def Fresh (s : ChannelSet ι) : Prop :=
  (∃ addr fd : ι → Nat, fd.Injective ∧
    s.channel = fun i => { addr := addr i, fd_ := fd i }) ∧
  s.poller = {} ∧ s.refused = []

def machine (ι : Type*) [DecidableEq ι] : Machine (ChannelSet ι) (ChannelOp × ι) where
  init := Fresh
  step := step

variable {s t : ChannelSet ι} {l : ChannelOp × ι}

/-- The one way a step can go. -/
theorem step_cases (h : s.step l = some t) :
    ∃ p ch, l.1.perform s.poller (s.channel l.2) = .ok (p, ch) ∧
      t = {
        poller := p
        channel := Function.update s.channel l.2 ch
        refused := s.refused ++ (l.1.refusal s.poller (s.channel l.2) none).toList
      } := by
  unfold step at h
  split at h
  · exact ⟨_, _, ‹_›, (Option.some.inj h).symm⟩
  · contradiction

/-- Every channel is registered in one of the three ways, and the poller and the kernel
know of nothing else. -/
structure Mirrored (s : ChannelSet ι) : Prop where
  distinct : Function.Injective fun i => (s.channel i).fd_
  registered : ∀ i, Registered s.poller (s.channel i)
  known : ∀ fd, (∀ i, fd ≠ (s.channel i).fd_) →
    s.poller.channels_ fd = none ∧ s.poller.interest fd = none
  refused : s.refused = []

omit [DecidableEq ι] in
theorem mirrored_of_fresh (h : Fresh s) : Mirrored s := by
  obtain ⟨⟨addr, fd, hinj, hch⟩, hp, hr⟩ := h
  refine ⟨?_, ?_, ?_, hr⟩
  · rw [hch]; exact hinj
  · intro i
    rw [hch, hp]
    exact .absent ⟨rfl, rfl, rfl⟩
  · intro fd _
    rw [hp]
    exact ⟨rfl, rfl⟩

theorem Mirrored.step (h : Mirrored s) (hst : s.step l = some t) : Mirrored t := by
  obtain ⟨p, ch, hr, rfl⟩ := step_cases hst
  obtain ⟨op, i⟩ := l
  have hfd : ∀ j, (Function.update s.channel i ch j).fd_ = (s.channel j).fd_ := by
    intro j
    by_cases hj : j = i
    · subst hj
      simpa using (ChannelOp.perform_identity hr).1
    · simp [hj]
  refine ⟨?_, ?_, ?_, ?_⟩
  · simpa only [hfd] using h.distinct
  · intro j
    by_cases hj : j = i
    · subst hj
      simpa using (h.registered j).perform hr
    · -- another descriptor, so nothing the poller knows of it has moved
      have hne : (s.channel j).fd_ ≠ (s.channel i).fd_ := h.distinct.ne hj
      obtain ⟨hc, hk⟩ := ChannelOp.perform_of_ne hr hne
      simpa [hj] using (h.registered j).congr hc hk
  · intro fd hne
    simp only [hfd] at hne
    obtain ⟨hc, hk⟩ := ChannelOp.perform_of_ne hr (hne i)
    rw [hc, hk]
    exact h.known fd hne
  · simp [h.refused, (h.registered i).refusal hr]

theorem mirrored (h : (machine ι).Reachable s) : Mirrored s := by
  refine h.invariant (I := Mirrored) ?_ ?_
  · intro s hs
    exact mirrored_of_fresh hs
  · intro s l t hm _ hst
    exact hm.step hst

end ChannelSet

/-- The mask under which the kernel watches the channel's descriptor. -/
def EpollPoller.watchedMask (p : EpollPoller) (ch : Channel) : Option EventMask :=
  (p.interest ch.fd_).map Prod.fst

namespace Registered

variable {p : EpollPoller} {ch : Channel}

theorem added_iff (h : Registered p ch) :
    ch.index_ = .kAdded ↔ p.watchedMask ch = some ch.events_ := by
  cases h with
  | absent h => simp [EpollPoller.watchedMask, h.index, h.interest]
  | watched h => simp [EpollPoller.watchedMask, h.index, h.interest]
  | parked h => simp [EpollPoller.watchedMask, h.index, h.interest]

theorem hasChannel_iff (h : Registered p ch) :
    p.hasChannel ch = true ↔ ch.index_ = .kAdded ∨ ch.index_ = .kDeleted := by
  cases h with
  | absent h => simp [EpollPoller.hasChannel, h.index, h.channels]
  | watched h => simp [EpollPoller.hasChannel, h.index, h.channels]
  | parked h => simp [EpollPoller.hasChannel, h.index, h.channels]

theorem of_new (h : Registered p ch) (hi : ch.index_ = .kNew) : Absent p ch := by
  cases h with
  | absent h => exact h
  | watched h => simp [h.index] at hi
  | parked h => simp [h.index] at hi

theorem of_added (h : Registered p ch) (hi : ch.index_ = .kAdded) : Watched p ch := by
  cases h with
  | watched h => exact h
  | absent h => simp [h.index] at hi
  | parked h => simp [h.index] at hi

theorem of_deleted (h : Registered p ch) (hi : ch.index_ = .kDeleted) : Parked p ch := by
  cases h with
  | parked h => exact h
  | absent h => simp [h.index] at hi
  | watched h => simp [h.index] at hi

end Registered

namespace ChannelSet

variable {ι : Type*} [DecidableEq ι] {s : ChannelSet ι}

/-- Whatever is done to which channel, no request is ever refused, and the index of each
channel says what the map and the kernel hold for it. -/
theorem poller_mirrors_kernel (h : (machine ι).Reachable s) :
    s.refused = [] ∧
      ∀ i, ((s.channel i).index_ = .kAdded ↔
          s.poller.watchedMask (s.channel i) = some (s.channel i).events_) ∧
        (s.poller.hasChannel (s.channel i) = true ↔
          (s.channel i).index_ = .kAdded ∨ (s.channel i).index_ = .kDeleted) ∧
        ((s.channel i).index_ = .kNew →
          s.poller.channels_ (s.channel i).fd_ = none ∧
            s.poller.interest (s.channel i).fd_ = none) := by
  have hm := mirrored h
  refine ⟨hm.refused, ?_⟩
  intro i
  have hreg := hm.registered i
  refine ⟨hreg.added_iff, hreg.hasChannel_iff, ?_⟩
  intro hi
  exact ⟨(hreg.of_new hi).channels, (hreg.of_new hi).interest⟩

/-- Two channels, one of them taken out of epoll, added again with an empty mask, removed
and enabled once more. -/
theorem poller_mirrors_kernel_readded :
    ∃ s : ChannelSet Bool, (machine Bool).run
        { channel := fun i => if i then { addr := 96, fd_ := 7 } else { addr := 32, fd_ := 5 } }
        [(.enableReading, false), (.enableReading, true), (.enableWriting, false),
          (.disableAll, false), (.disableReading, false), (.disableAll, false), (.remove, false),
          (.enableReading, false)] = some s ∧
      s.refused = [] ∧
      ∀ i, ((s.channel i).index_ = .kAdded ↔
          s.poller.watchedMask (s.channel i) = some (s.channel i).events_) ∧
        (s.poller.hasChannel (s.channel i) = true ↔
          (s.channel i).index_ = .kAdded ∨ (s.channel i).index_ = .kDeleted) ∧
        ((s.channel i).index_ = .kNew →
          s.poller.channels_ (s.channel i).fd_ = none ∧
            s.poller.interest (s.channel i).fd_ = none) := by
  have hfresh : Fresh ({
      channel := fun i => if i then { addr := 96, fd_ := 7 } else { addr := 32, fd_ := 5 } } :
      ChannelSet Bool) := by
    refine ⟨⟨fun i => if i then 96 else 32, fun i => if i then 7 else 5, by decide, ?_⟩, rfl, rfl⟩
    funext i
    cases i <;> rfl
  exact Machine.exists_run hfresh (by decide) fun s _ h => poller_mirrors_kernel h

end ChannelSet

end Muduo
