import Mathlib.Data.BitVec
import Mathlib.Logic.Function.Basic

/-!
# Channels and the epoll poller

A `Channel` couples a descriptor with an event mask and with the index under which
the poller knows it. `EpollPoller` keeps the map of known channels; the interest set
of its epoll instance belongs to the kernel and is changed by `epoll_ctl` alone.

`LOG_ERROR` and `LOG_FATAL` print and return, so a refused `epoll_ctl` leaves the
interest set as it was and the caller goes on. The functions of the poller return the
errno with which `epoll_ctl` has failed; the program only logs that it did, and drops it.
-/

namespace Muduo

/-! ## Event masks -/

abbrev EventMask := BitVec 32

def EPOLLIN : EventMask := 0x001
def EPOLLPRI : EventMask := 0x002
def EPOLLOUT : EventMask := 0x004
def EPOLLERR : EventMask := 0x008
def EPOLLHUP : EventMask := 0x010
def EPOLLRDHUP : EventMask := 0x2000

/-- The test `mask & bits` of the source. -/
def EventMask.has (mask bits : EventMask) : Bool := mask &&& bits != 0

theorem EventMask.has_or (m w r : EventMask) : (m ||| w).has r = (m.has r || w.has r) := by
  rw [Bool.eq_iff_iff]
  simp only [has, BitVec.and_or_distrib_right, bne_iff_ne, ne_eq, BitVec.or_eq_zero_iff,
    Bool.or_eq_true, BitVec.ofNat_eq_ofNat]
  tauto

@[simp] theorem EventMask.has_clear (m w : EventMask) : (m &&& ~~~w).has w = false := by
  simp [has, BitVec.and_assoc]

theorem EventMask.has_clear_of_disjoint (m : EventMask) {w r : EventMask} (h : ~~~w &&& r = r) :
    (m &&& ~~~w).has r = m.has r := by
  rw [has, has, BitVec.and_assoc, h]

@[simp] theorem EventMask.has_zero (r : EventMask) : EventMask.has 0#32 r = false := by
  simp [has]

theorem EventMask.ne_zero_of_has {m r : EventMask} (h : m.has r = true) : m ≠ 0#32 := by
  rintro rfl
  simp at h

/-! ## Errors of the environment -/

abbrev Errno := Nat

def ENOENT : Errno := 2
def EAGAIN : Errno := 11
def EEXIST : Errno := 17
def EPIPE : Errno := 32
def ECONNRESET : Errno := 104

/-- The name the source uses for `EAGAIN`. -/
abbrev EWOULDBLOCK : Errno := EAGAIN

/-- The assertions that a removal can run into. -/
inductive Assertion where
  /-- `assert(isNoneEvent())` of `Channel::remove` -/
  | isNoneEvent
  /-- `assert(index == kAdded || index == kDeleted)` of `EpollPoller::removeChannel` -/
  | indexKnown
  deriving DecidableEq, Repr

/-! ## Channels -/

/-- `index_`: new to the poller, in epoll, or known but taken out of epoll. -/
inductive Index where
  | kNew | kAdded | kDeleted
  deriving DecidableEq, Repr

/-- `addr` is the address of the object, which is what the poller stores. -/
structure Channel where
  addr : Nat
  fd_ : Nat
  events_ : EventMask := 0
  index_ : Index := .kNew
  tied_ : Bool := false
  eventHandling_ : Bool := false
  addedToLoop_ : Bool := false
  deriving DecidableEq, Repr

namespace Channel

def kNoneEvent : EventMask := 0
def kReadEvent : EventMask := EPOLLIN ||| EPOLLPRI
def kWriteEvent : EventMask := EPOLLOUT

def isWriting (ch : Channel) : Bool := ch.events_.has kWriteEvent
def isReading (ch : Channel) : Bool := ch.events_.has kReadEvent
def isNoneEvent (ch : Channel) : Bool := ch.events_ == kNoneEvent

end Channel

/-! ## The kernel's interest set -/

/-- For each descriptor, the watched mask and the pointer handed back with events. -/
abbrev InterestSet := Nat → Option (EventMask × Nat)

inductive EpollOp where
  | EPOLL_CTL_ADD | EPOLL_CTL_MOD | EPOLL_CTL_DEL
  deriving DecidableEq, Repr

/-- `epoll_ctl`: adding a present descriptor and changing an absent one fail; `fault`
is any other failure. -/
def epoll_ctl (k : InterestSet) (op : EpollOp) (fd : Nat) (event : EventMask × Nat)
    (fault : Option Errno) : Except Errno InterestSet :=
  match fault with
  | some e => .error e
  | none =>
    match op, k fd with
    | .EPOLL_CTL_ADD, none => .ok (Function.update k fd (some event))
    | .EPOLL_CTL_ADD, some _ => .error EEXIST
    | .EPOLL_CTL_MOD, some _ => .ok (Function.update k fd (some event))
    | .EPOLL_CTL_DEL, some _ => .ok (Function.update k fd none)
    | .EPOLL_CTL_MOD, none | .EPOLL_CTL_DEL, none => .error ENOENT

/-! ## The poller -/

/-- `channels_` is the map `fd -> Channel*`; `interest` is the kernel's side of `epollfd_`. -/
structure EpollPoller where
  channels_ : Nat → Option Nat := fun _ => none
  interest : InterestSet := fun _ => none

namespace EpollPoller

/-- `Poller::hasChannel` -/
def hasChannel (p : EpollPoller) (ch : Channel) : Bool := p.channels_ ch.fd_ == some ch.addr

def update (p : EpollPoller) (operation : EpollOp) (ch : Channel) (fault : Option Errno) :
    EpollPoller × Option Errno :=
  match epoll_ctl p.interest operation ch.fd_ (ch.events_, ch.addr) fault with
  | .ok k => ({ p with interest := k }, none)
  | .error e => (p, some e)

def updateChannel (p : EpollPoller) (ch : Channel) (fault : Option Errno) :
    EpollPoller × Channel × Option Errno :=
  if ch.index_ = .kNew ∨ ch.index_ = .kDeleted then
    let p :=
      if ch.index_ = .kNew then
        { p with channels_ := Function.update p.channels_ ch.fd_ (some ch.addr) }
      else p
    let ch := { ch with index_ := .kAdded }
    let r := p.update .EPOLL_CTL_ADD ch fault
    (r.1, ch, r.2)
  else if ch.isNoneEvent then
    let r := p.update .EPOLL_CTL_DEL ch fault
    (r.1, { ch with index_ := .kDeleted }, r.2)
  else
    let r := p.update .EPOLL_CTL_MOD ch fault
    (r.1, ch, r.2)

def removeChannel (p : EpollPoller) (ch : Channel) (fault : Option Errno) :
    Except Assertion (EpollPoller × Channel × Option Errno) :=
  if ch.index_ = .kAdded ∨ ch.index_ = .kDeleted then
    let p := { p with channels_ := Function.update p.channels_ ch.fd_ none }
    let r := if ch.index_ = .kAdded then p.update .EPOLL_CTL_DEL ch fault else (p, none)
    .ok (r.1, { ch with index_ := .kNew }, r.2)
  else .error .indexKnown

end EpollPoller

namespace Channel

/-- `Channel::update`, reached through `EventLoop::updateChannel`. -/
def update (p : EpollPoller) (ch : Channel) (fault : Option Errno) : EpollPoller × Channel :=
  let r := p.updateChannel { ch with addedToLoop_ := true } fault
  (r.1, r.2.1)

def enableReading (p : EpollPoller) (ch : Channel) (fault : Option Errno) :=
  update p { ch with events_ := ch.events_ ||| kReadEvent } fault
def disableReading (p : EpollPoller) (ch : Channel) (fault : Option Errno) :=
  update p { ch with events_ := ch.events_ &&& ~~~kReadEvent } fault
def enableWriting (p : EpollPoller) (ch : Channel) (fault : Option Errno) :=
  update p { ch with events_ := ch.events_ ||| kWriteEvent } fault
def disableWriting (p : EpollPoller) (ch : Channel) (fault : Option Errno) :=
  update p { ch with events_ := ch.events_ &&& ~~~kWriteEvent } fault
def disableAll (p : EpollPoller) (ch : Channel) (fault : Option Errno) :=
  update p { ch with events_ := kNoneEvent } fault

/-- `Channel::remove`, reached through `EventLoop::removeChannel`. -/
def remove (p : EpollPoller) (ch : Channel) (fault : Option Errno) :
    Except Assertion (EpollPoller × Channel) :=
  if ch.isNoneEvent then
    (p.removeChannel { ch with addedToLoop_ := false } fault).map fun r => (r.1, r.2.1)
  else .error .isNoneEvent

end Channel

/-! ## One descriptor at a time -/

namespace EpollPoller

variable (p : EpollPoller) (ch : Channel) (fault : Option Errno) {fd : Nat}

theorem interest_update_of_ne (op : EpollOp) (h : fd ≠ ch.fd_) :
    (p.update op ch fault).1.interest fd = p.interest fd := by
  unfold update epoll_ctl
  cases fault with
  | some e => rfl
  | none => cases op <;> cases p.interest ch.fd_ <;> simp [h]

@[simp] theorem channels_update (op : EpollOp) :
    (p.update op ch fault).1.channels_ = p.channels_ := by
  unfold update
  split <;> rfl

/-- Updating a channel leaves what is known of other descriptors unchanged. -/
theorem updateChannel_of_ne (h : fd ≠ ch.fd_) :
    (p.updateChannel ch fault).1.channels_ fd = p.channels_ fd ∧
      (p.updateChannel ch fault).1.interest fd = p.interest fd := by
  unfold updateChannel
  split_ifs
  · simp [interest_update_of_ne, h]
  · simp [interest_update_of_ne, h]
  · simp [interest_update_of_ne, h]
  · simp [interest_update_of_ne, h]

theorem removeChannel_of_ne {p' : EpollPoller} {ch' : Channel} {e : Option Errno} (h : fd ≠ ch.fd_)
    (hr : p.removeChannel ch fault = .ok (p', ch', e)) :
    p'.channels_ fd = p.channels_ fd ∧ p'.interest fd = p.interest fd := by
  unfold removeChannel at hr
  split at hr
  · simp only [Except.ok.injEq, Prod.mk.injEq] at hr
    obtain ⟨rfl, -⟩ := hr
    split <;> simp [interest_update_of_ne, h]
  · contradiction

end EpollPoller

end Muduo
