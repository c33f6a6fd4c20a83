import Muduo.Connection.Alone

/-!
# Many connections on one loop

A loop serves its wakeup channel, perhaps an acceptor, and connections that come and go.
The kernel gives out the smallest free descriptor, the allocator gives out freed memory,
so descriptors and addresses are used again, while epoll knows a channel only by the
pointer that was registered with its descriptor.

Objects live in a heap under their addresses. The calls that a callback makes, on its own
connection and on others, are steps of their own, after that of the function that has invoked
it. Nothing is lost by this, since only two functions go on after a callback. `handleClose`
invokes `closeCallback_`, and what comes of that on this loop is a functor in the queue, a
later step in any case. `connectDestroyed` removes the channel of a connection that is
`kDisconnected` by then, on which `send` and `shutdown` do nothing.
-/

namespace Muduo

open TcpConnection

/-! ## Calls on one connection -/

inductive ConnCall where
  | connectEstablished
  | stream (l : StreamStep)
  | setEventHandling (b : Bool)
  /-- the store of `shutdown`, on whichever thread it runs -/
  | setDisconnecting

def connCall (c : TcpConnection) : ConnCall → TcpConnection
  | .connectEstablished => c.connectEstablished []
  | .stream l => c.streamStep l
  | .setEventHandling b => c.setEventHandling b
  | .setDisconnecting => c.setState .kDisconnecting

/-- The call that a callback of the channel is bound to. -/
def TcpConnection.Handler.step (r : ReadResult) (w : WriteResult) : Handler → StreamStep
  | .close | .error => .handleClose []
  | .read => .handleRead r
  | .write => .handleWrite w

/-- The steps of an event are its handlers, with callbacks whose calls come later. -/
theorem streamStep_handler (c : TcpConnection) (r : ReadResult) (w : WriteResult) (k : Handler) :
    c.streamStep (k.step r w) = runHandler { read := r, write := w } c k := by
  cases k <;> rfl

/-- The step is called by other code, not by the connection's own channel. -/
def TcpConnection.StreamStep.called : StreamStep → Bool
  | .sendInLoop _ _ | .userCall _ | .shutdownInLoop | .connectDestroyed _ => true
  | .handleWrite _ | .handleRead _ | .handleClose _ => false

/-! ## The loop and its objects -/

/-- What lives at an address: a channel with its own owner, or a connection, with the calls
made on it so far. -/
inductive Object where
  | channel (ch : Channel)
  | connection (c : TcpConnection) (calls : List ConnCall)

def Object.channel_ : Object → Channel
  | .channel ch => ch
  | .connection c _ => c.channel_

/-- The process's table of descriptors: closed, open for something outside of this loop, or
owned by the object at an address. -/
inductive Descriptor where
  | closed | elsewhere
  | here (addr : Nat)
  deriving DecidableEq, Repr

/-- A channel in `activeChannels_`: the pointer from `data.ptr`, the events, and the
descriptor that the kernel was reporting on. -/
structure ReadyEvent where
  ptr : Nat
  revents : EventMask
  fd : Nat
  deriving DecidableEq, Repr

structure SharedLoop where
  poller : EpollPoller := {}
  objects : Nat → Option Object := fun _ => none
  fds : Nat → Descriptor := fun _ => .closed
  activeChannels_ : List ReadyEvent := []
  /-- the channel whose event is being handled, with the callbacks still to run -/
  running : Option (Nat × List Handler) := none
  /-- a pointer to a destroyed object was followed -/
  dangling : Bool := false

inductive SharedStep where
  | newChannel (addr fd : Nat)
  | newConnection (addr fd : Nat)
  | perform (addr : Nat) (op : ChannelOp)
  | connectEstablished (addr : Nat)
  | call (addr : Nat) (l : StreamStep)
  /-- a thread that has found `kConnected` in `shutdown` goes on with the store -/
  | store (addr : Nat)
  | poll (ready : List (Nat × EventMask))
  | dispatch
  | handler (r : ReadResult) (w : WriteResult)
  | endEvent
  | destroy (addr : Nat) (inLoopThread : Bool)
  | openElsewhere (fd : Nat)
  | closeElsewhere (fd : Nat)

namespace SharedLoop

/-- The connection with the loop's poller. -/
def within (s : SharedLoop) (c : TcpConnection) : TcpConnection := { c with poller := s.poller }

/-- Make a call on the connection at an address; a failed assertion ends the program. -/
def callOn (s : SharedLoop) (addr : Nat) (l : ConnCall) : Option SharedLoop :=
  match s.objects addr with
  | some (.connection c calls) =>
    let c' := connCall (s.within c) l
    if c'.aborted = none then
      some { s with
        poller := c'.poller
        objects := Function.update s.objects addr (some (.connection c' (calls ++ [l]))) }
    else none
  | _ => none

/-- Follow a pointer. -/
def follow (s : SharedLoop) (addr : Nat) (next : Option SharedLoop) : Option SharedLoop :=
  if (s.objects addr).isNone then some { s with dangling := true } else next

/-- A constructor runs at a free address, on a descriptor that the kernel has just opened. -/
def create (s : SharedLoop) (addr fd : Nat) (o : Object) : Option SharedLoop :=
  if (s.objects addr).isNone ∧ s.fds fd = .closed then
    some { s with
      objects := Function.update s.objects addr (some o)
      fds := Function.update s.fds fd (.here addr) }
  else none

/-- `~Channel` with its assertions, the last of them made on the loop thread only; then the
descriptor is closed, and the kernel forgets it. -/
def destroy (s : SharedLoop) (addr : Nat) (inLoopThread : Bool) : Option SharedLoop :=
  match s.objects addr with
  | some o =>
    if o.channel_.eventHandling_ = false ∧ o.channel_.addedToLoop_ = false ∧
        (inLoopThread = true → s.poller.hasChannel o.channel_ = false) then
      some { s with
        poller := { s.poller with interest := Function.update s.poller.interest o.channel_.fd_ none }
        objects := Function.update s.objects addr none
        fds := Function.update s.fds o.channel_.fd_ .closed }
    else none
  | none => none

/-- `epoll_wait` reports descriptors of the interest set, each of them once, and
`fillActiveChannels` takes the pointers. -/
def poll (s : SharedLoop) (ready : List (Nat × EventMask)) : Option SharedLoop :=
  if s.activeChannels_ = [] ∧ s.running.isNone ∧ (ready.map Prod.fst).Nodup ∧
      ∀ e ∈ ready, (s.poller.interest e.1).isSome then
    some { s with
      activeChannels_ := ready.filterMap fun e =>
        (s.poller.interest e.1).map fun k => ⟨k.2, e.2, e.1⟩ }
  else none

/-- `handleEvent` of the next active channel. -/
def dispatch (s : SharedLoop) : Option SharedLoop :=
  match s.running, s.activeChannels_ with
  | none, e :: rest =>
    let s := { s with activeChannels_ := rest }
    s.follow e.ptr <|
      match s.objects e.ptr with
      | some (.connection _ _) =>
        (s.callOn e.ptr (.setEventHandling true)).map fun t =>
          { t with running := some (e.ptr, handlers e.revents) }
      | _ => some s
  | _, _ => none

def step (s : SharedLoop) : SharedStep → Option SharedLoop
  | .newChannel addr fd => s.create addr fd (.channel { addr := addr, fd_ := fd })
  | .newConnection addr fd => s.create addr fd (.connection (TcpConnection.new addr fd) [])
  | .perform addr op =>
    match s.objects addr with
    | some (.channel ch) =>
      match op.perform s.poller ch with
      | .ok (p, ch) => some { s with
          poller := p
          objects := Function.update s.objects addr (some (.channel ch)) }
      | .error _ => none
    | _ => none
  | .connectEstablished addr =>
    match s.objects addr with
    | some (.connection c _) =>
      if c.state_ = .kConnecting then s.callOn addr .connectEstablished else none
    | _ => none
  | .call addr l => if l.called then s.callOn addr (.stream l) else none
  | .store addr =>
    match s.objects addr with
    | some (.connection c _) =>
      if c.state_ = .kConnecting then none else s.callOn addr .setDisconnecting
    | _ => none
  | .poll ready => s.poll ready
  | .dispatch => s.dispatch
  | .handler r w =>
    match s.running with
    | some (addr, k :: ks) =>
      s.follow addr <| (s.callOn addr (.stream (k.step r w))).map fun t =>
        { t with running := some (addr, ks) }
    | _ => none
  | .endEvent =>
    match s.running with
    | some (addr, []) =>
      s.follow addr <| (s.callOn addr (.setEventHandling false)).map fun t =>
        { t with running := none }
    | _ => none
  | .destroy addr inLoopThread => s.destroy addr inLoopThread
  | .openElsewhere fd =>
    if s.fds fd = .closed then some { s with fds := Function.update s.fds fd .elsewhere } else none
  | .closeElsewhere fd =>
    if s.fds fd = .elsewhere then some { s with fds := Function.update s.fds fd .closed } else none

/-- A loop starts without channels. -/
def machine : Machine SharedLoop SharedStep where
  init s := s = {}
  step := step

end SharedLoop

/-! ## What one call does -/

/-- The connection on which the call takes effect. -/
def ConnCall.start (c : TcpConnection) : ConnCall → TcpConnection
  | .setEventHandling b => c.setEventHandling b
  | .setDisconnecting => c.setState .kDisconnecting
  | .connectEstablished | .stream _ => c

@[simp] theorem ConnCall.fd_start (c : TcpConnection) (l : ConnCall) :
    (l.start c).channel_.fd_ = c.channel_.fd_ := by cases l <;> rfl
@[simp] theorem ConnCall.addr_start (c : TcpConnection) (l : ConnCall) :
    (l.start c).channel_.addr = c.channel_.addr := by cases l <;> rfl
@[simp] theorem ConnCall.poller_start (c : TcpConnection) (l : ConnCall) :
    (l.start c).poller = c.poller := by cases l <;> rfl

theorem alone_connCall (c : TcpConnection) (l : ConnCall) :
    connCall c.alone l = (connCall c l).alone := by
  cases l with
  | connectEstablished => exact alone_connectEstablished c []
  | stream l => exact alone_streamStep c l
  | setEventHandling b => rfl
  | setDisconnecting => rfl

theorem confined_connCall {c : TcpConnection} (h : Settled c.poller c.channel_) (l : ConnCall) :
    Confined (l.start c) (connCall c l) := by
  cases l with
  | connectEstablished => exact (Confined.refl h).connectEstablished []
  | stream l => exact (Confined.refl h).streamStep l
  | setEventHandling b => exact .refl (h.flags b c.channel_.tied_)
  | setDisconnecting => exact .refl h

namespace SharedLoop

variable {s t : SharedLoop} {addr fd : Nat}

/-! ## The table, the heap and the poller agree -/

/-- Every object owns its descriptor and is settled in the poller, the poller knows of no
other descriptors, and a connection is what its own calls make of it. -/
structure Kept (s : SharedLoop) : Prop where
  held : ∀ addr o, s.objects addr = some o → o.channel_.addr = addr ∧
    s.fds o.channel_.fd_ = .here addr ∧ Settled s.poller o.channel_
  here : ∀ fd addr, s.fds fd = .here addr → ∃ o, s.objects addr = some o ∧ o.channel_.fd_ = fd
  known : ∀ fd, (∀ addr, s.fds fd ≠ .here addr) →
    s.poller.channels_ fd = none ∧ s.poller.interest fd = none
  replay : ∀ addr c calls, s.objects addr = some (.connection c calls) →
    (s.within c).alone = calls.foldl connCall (TcpConnection.new addr c.channel_.fd_)

theorem Kept.congr (h : Kept s) (hp : t.poller = s.poller) (ho : t.objects = s.objects)
    (hf : t.fds = s.fds) : Kept t := by
  refine ⟨?_, ?_, ?_, ?_⟩
  · rw [hp, ho, hf]
    exact h.held
  · rw [ho, hf]
    exact h.here
  · rw [hp, hf]
    exact h.known
  · intro addr c calls
    rw [within, hp, ho]
    exact h.replay addr c calls

/-- Objects at different addresses have different descriptors. -/
theorem Kept.fd_ne (h : Kept s) {a b : Nat} {o o' : Object} (ha : s.objects a = some o)
    (hb : s.objects b = some o') (hne : a ≠ b) : o.channel_.fd_ ≠ o'.channel_.fd_ := by
  intro he
  have hfa := (h.held a o ha).2.1
  rw [he, (h.held b o' hb).2.1] at hfa
  exact hne (Descriptor.here.inj hfa).symm

/-- An object changes, and the poller changes at its descriptor only. -/
theorem Kept.replace (h : Kept s) {o o' : Object} {p : EpollPoller}
    (ho : s.objects addr = some o) (hfd : o'.channel_.fd_ = o.channel_.fd_)
    (haddr : o'.channel_.addr = o.channel_.addr) (hset : Settled p o'.channel_)
    (hothers : ∀ fd ≠ o.channel_.fd_, p.channels_ fd = s.poller.channels_ fd ∧
      p.interest fd = s.poller.interest fd)
    (hreplay : ∀ c calls, o' = .connection c calls →
      { c with poller := p }.alone = calls.foldl connCall (TcpConnection.new addr c.channel_.fd_)) :
    Kept { s with poller := p, objects := Function.update s.objects addr (some o') } := by
  obtain ⟨ha, hf, -⟩ := h.held addr o ho
  refine ⟨?_, ?_, ?_, ?_⟩
  · intro a q hq
    by_cases hae : a = addr
    · subst hae
      obtain rfl : o' = q := by simpa using hq
      exact ⟨haddr.trans ha, by rw [hfd]; exact hf, hset⟩
    · have hq : s.objects a = some q := by simpa [hae] using hq
      obtain ⟨ha', hf', hs'⟩ := h.held a q hq
      obtain ⟨hc, hk⟩ := hothers _ (h.fd_ne hq ho hae)
      exact ⟨ha', hf', hs'.congr hc hk⟩
  · intro fd a hfda
    obtain ⟨q, hq, hqfd⟩ := h.here fd a hfda
    by_cases hae : a = addr
    · subst hae
      obtain rfl : o = q := Option.some.inj (ho.symm.trans hq)
      exact ⟨o', by simp, hfd.trans hqfd⟩
    · exact ⟨q, by simpa [hae] using hq, hqfd⟩
  · intro fd hfd'
    have hne : fd ≠ o.channel_.fd_ := by
      rintro rfl
      exact hfd' addr hf
    obtain ⟨hc, hk⟩ := hothers fd hne
    rw [hc, hk]
    exact h.known fd hfd'
  · intro a c calls hc
    by_cases hae : a = addr
    · subst hae
      exact hreplay c calls (by simpa using hc)
    · have hc : s.objects a = some (.connection c calls) := by simpa [hae] using hc
      obtain ⟨hcs, hks⟩ := hothers _ (h.fd_ne hc ho hae)
      rw [← h.replay a c calls hc]
      exact congrArg (fun q : EpollPoller => { c with poller := q })
        (EpollPoller.restrict_congr hcs hks)

theorem Kept.callOn (h : Kept s) {l : ConnCall} (hst : s.callOn addr l = some t) : Kept t := by
  unfold SharedLoop.callOn at hst
  split at hst
  · rename_i c calls hc
    obtain ⟨-, hst⟩ := Option.ite_none_right_eq_some.mp hst
    obtain rfl := Option.some.inj hst
    obtain ⟨-, -, hset⟩ := h.held addr _ hc
    have hconf := @confined_connCall (s.within c) hset l
    refine h.replace hc ?_ ?_ hconf.settled ?_ ?_
    · exact hconf.fd.trans (ConnCall.fd_start _ l)
    · exact hconf.addr.trans (ConnCall.addr_start _ l)
    · intro fd hne
      have ho := hconf.others fd (by rw [ConnCall.fd_start]; exact hne)
      rwa [ConnCall.poller_start] at ho
    · rintro c' calls' he
      obtain ⟨rfl, rfl⟩ := Object.connection.inj he
      have hfd : (connCall (s.within c) l).channel_.fd_ = c.channel_.fd_ :=
        hconf.fd.trans (ConnCall.fd_start _ l)
      rw [List.foldl_append, List.foldl_cons, List.foldl_nil, hfd, ← h.replay addr c calls hc,
        alone_connCall]
  · contradiction

theorem Kept.perform (h : Kept s) {op : ChannelOp} {p : EpollPoller} {ch ch' : Channel}
    (hc : s.objects addr = some (.channel ch)) (hr : op.perform s.poller ch = .ok (p, ch')) :
    Kept { s with poller := p, objects := Function.update s.objects addr (some (.channel ch')) } := by
  obtain ⟨hfd, haddr⟩ := ChannelOp.perform_identity hr
  refine h.replace hc hfd haddr ((h.held addr _ hc).2.2.perform hr) ?_ ?_
  · intro fd hne
    exact ChannelOp.perform_of_ne hr hne
  · rintro c calls he
    cases he

/-- A new object finds nothing in the poller under its descriptor. -/
theorem Kept.create (h : Kept s) {o : Object} (hst : s.create addr fd o = some t)
    (ho : o = .channel { addr := addr, fd_ := fd } ∨
      o = .connection (TcpConnection.new addr fd) []) : Kept t := by
  obtain ⟨⟨hfree, hclosed⟩, hst⟩ := Option.ite_none_right_eq_some.mp hst
  obtain rfl := Option.some.inj hst
  rw [Option.isNone_iff_eq_none] at hfree
  have hch : o.channel_ = { addr := addr, fd_ := fd } := by rcases ho with rfl | rfl <;> rfl
  obtain ⟨hknown, hint⟩ := h.known fd (by simp [hclosed])
  have hne : ∀ a q, s.objects a = some q → a ≠ addr ∧ q.channel_.fd_ ≠ fd := by
    intro a q hq
    constructor
    · rintro rfl
      simp [hfree] at hq
    · rintro rfl
      have hf := (h.held a q hq).2.1
      simp [hclosed] at hf
  refine ⟨?_, ?_, ?_, ?_⟩
  · intro a q hq
    by_cases hae : a = addr
    · subst hae
      obtain rfl : o = q := by simpa using hq
      rw [hch]
      exact ⟨rfl, by simp, .absent ⟨rfl, hknown, hint⟩, by simp⟩
    · have hq : s.objects a = some q := by simpa [hae] using hq
      have hfd := (hne a q hq).2
      obtain ⟨ha', hf', hs'⟩ := h.held a q hq
      exact ⟨ha', by simpa [hfd] using hf', hs'⟩
  · intro x a hx
    by_cases hxe : x = fd
    · subst hxe
      obtain rfl : addr = a := by simpa using hx
      exact ⟨o, by simp, by rw [hch]⟩
    · obtain ⟨q, hq, hqfd⟩ := h.here x a (by simpa [hxe] using hx)
      exact ⟨q, by simpa [(hne a q hq).1] using hq, hqfd⟩
  · intro x hx
    by_cases hxe : x = fd
    · rw [hxe]
      exact ⟨hknown, hint⟩
    · exact h.known x (by simpa [hxe] using hx)
  · intro a c calls hc
    by_cases hae : a = addr
    · subst hae
      have hc : o = .connection c calls := by simpa using hc
      rcases ho with rfl | rfl
      · cases hc
      · obtain ⟨rfl, rfl⟩ := Object.connection.inj hc
        simp only [within, alone, List.foldl_nil]
        rw [show s.poller.restrict (TcpConnection.new a fd).channel_.fd_ = {} from
          EpollPoller.restrict_eq_empty hknown hint]
        rfl
    · exact h.replay a c calls (by simpa [hae] using hc)

/-- The poller has nothing left of an object that may be destroyed. -/
theorem Kept.destroy (h : Kept s) {b : Bool} (hst : s.destroy addr b = some t) : Kept t := by
  unfold SharedLoop.destroy at hst
  split at hst
  · rename_i o ho
    obtain ⟨⟨-, hadd, -⟩, hst⟩ := Option.ite_none_right_eq_some.mp hst
    obtain rfl := Option.some.inj hst
    obtain ⟨ha, hf, hset⟩ := h.held addr o ho
    obtain ⟨-, hc, hk⟩ := hset.absent hadd
    -- the kernel has already lost the descriptor, so closing it changes nothing in epoll
    have hp : ({ s.poller with
        interest := Function.update s.poller.interest o.channel_.fd_ none } : EpollPoller) =
        s.poller := by
      rw [← hk, Function.update_eq_self]
    rw [hp]
    have hne : ∀ a q, a ≠ addr → s.objects a = some q → q.channel_.fd_ ≠ o.channel_.fd_ :=
      fun a q hae hq => h.fd_ne hq ho hae
    refine ⟨?_, ?_, ?_, ?_⟩
    · intro a q hq
      by_cases hae : a = addr
      · simp [hae] at hq
      · have hq : s.objects a = some q := by simpa [hae] using hq
        have hfd := hne a q hae hq
        obtain ⟨ha', hf', hs'⟩ := h.held a q hq
        exact ⟨ha', by simpa [hfd] using hf', hs'⟩
    · intro x a hx
      by_cases hxe : x = o.channel_.fd_
      · simp [hxe] at hx
      · obtain ⟨q, hq, hqfd⟩ := h.here x a (by simpa [hxe] using hx)
        have hae : a ≠ addr := by
          rintro rfl
          obtain rfl := Option.some.inj (ho.symm.trans hq)
          exact hxe hqfd.symm
        exact ⟨q, by simpa [hae] using hq, hqfd⟩
    · intro x hx
      by_cases hxe : x = o.channel_.fd_
      · rw [hxe]
        exact ⟨hc, hk⟩
      · exact h.known x (by simpa [hxe] using hx)
    · intro a c calls hc
      by_cases hae : a = addr
      · simp [hae] at hc
      · exact h.replay a c calls (by simpa [hae] using hc)
  · contradiction

theorem Kept.descriptor (h : Kept s) {d d' : Descriptor} (hs : s.fds fd = d)
    (hd : ∀ addr, d ≠ .here addr) (hd' : ∀ addr, d' ≠ .here addr) :
    Kept { s with fds := Function.update s.fds fd d' } := by
  refine ⟨?_, ?_, ?_, h.replay⟩
  · intro a q hq
    obtain ⟨ha, hf, hset⟩ := h.held a q hq
    have hne : q.channel_.fd_ ≠ fd := by
      rintro rfl
      exact hd a (hs.symm.trans hf)
    exact ⟨ha, by simpa [hne] using hf, hset⟩
  · intro x a hx
    by_cases hxe : x = fd
    · subst hxe
      exact absurd (by simpa using hx) (hd' a)
    · exact h.here x a (by simpa [hxe] using hx)
  · intro x hx
    by_cases hxe : x = fd
    · subst hxe
      exact h.known x fun a ha => hd a (hs.symm.trans ha)
    · exact h.known x (by simpa [hxe] using hx)

/-! ## What a step does -/

theorem callOn_cases {l : ConnCall} (hst : s.callOn addr l = some t) :
    ∃ c calls, s.objects addr = some (.connection c calls) ∧
      t = { s with
        poller := (connCall (s.within c) l).poller
        objects := Function.update s.objects addr
          (some (.connection (connCall (s.within c) l) (calls ++ [l]))) } := by
  unfold SharedLoop.callOn at hst
  split at hst
  · obtain ⟨-, hst⟩ := Option.ite_none_right_eq_some.mp hst
    exact ⟨_, _, ‹_›, (Option.some.inj hst).symm⟩
  · contradiction

theorem follow_cases {next : Option SharedLoop} (hst : s.follow addr next = some t) :
    (s.objects addr = none ∧ t = { s with dangling := true }) ∨
      (s.objects addr ≠ none ∧ next = some t) := by
  unfold follow at hst
  split at hst
  · rename_i hn
    exact .inl ⟨Option.isNone_iff_eq_none.mp hn, (Option.some.inj hst).symm⟩
  · rename_i hn
    exact .inr ⟨fun he => hn (by simp [he]), hst⟩

theorem dispatch_cases (hst : s.dispatch = some t) :
    ∃ e rest, s.running = none ∧ s.activeChannels_ = e :: rest ∧
      ((s.objects e.ptr = none ∧ t = { s with activeChannels_ := rest, dangling := true }) ∨
        t = { s with activeChannels_ := rest } ∨
        ∃ u, { s with activeChannels_ := rest : SharedLoop }.callOn e.ptr (.setEventHandling true) =
            some u ∧ t = { u with running := some (e.ptr, handlers e.revents) }) := by
  unfold dispatch at hst
  split at hst
  · rename_i e rest hr ha
    refine ⟨e, rest, hr, ha, ?_⟩
    rcases follow_cases hst with ⟨hn, rfl⟩ | ⟨-, hst⟩
    · exact .inl ⟨hn, rfl⟩
    · refine .inr ?_
      split at hst
      · obtain ⟨u, hu, rfl⟩ := Option.map_eq_some_iff.mp hst
        exact .inr ⟨u, hu, rfl⟩
      · exact .inl (Option.some.inj hst).symm
  · contradiction

/-- The steps of an event that is being handled: its next callback, or its end. -/
theorem running_cases {l : SharedStep} (hst : s.step l = some t)
    (hl : (∃ r w, l = .handler r w) ∨ l = .endEvent) :
    ∃ a ks, s.running = some (a, ks) ∧
      ((s.objects a = none ∧ t = { s with dangling := true }) ∨
        (∃ k ks' c u, ks = k :: ks' ∧ c.called = false ∧ s.callOn a (.stream c) = some u ∧
          t = { u with running := some (a, ks') }) ∨
        ∃ u, s.callOn a (.setEventHandling false) = some u ∧ t = { u with running := none }) := by
  rcases hl with ⟨r, w, rfl⟩ | rfl
  · simp only [step] at hst
    split at hst
    · rename_i a k ks hr
      refine ⟨a, k :: ks, hr, ?_⟩
      rcases follow_cases hst with h | ⟨-, hst⟩
      · exact .inl h
      · obtain ⟨u, hu, rfl⟩ := Option.map_eq_some_iff.mp hst
        exact .inr (.inl ⟨k, ks, k.step r w, u, rfl, by cases k <;> rfl, hu, rfl⟩)
    · contradiction
  · simp only [step] at hst
    split at hst
    · rename_i a hr
      refine ⟨a, [], hr, ?_⟩
      rcases follow_cases hst with h | ⟨-, hst⟩
      · exact .inl h
      · obtain ⟨u, hu, rfl⟩ := Option.map_eq_some_iff.mp hst
        exact .inr (.inr ⟨u, hu, rfl⟩)
    · contradiction

theorem perform_cases {op : ChannelOp} (hst : s.step (.perform addr op) = some t) :
    ∃ ch p ch', s.objects addr = some (.channel ch) ∧ op.perform s.poller ch = .ok (p, ch') ∧
      t = { s with
        poller := p, objects := Function.update s.objects addr (some (.channel ch')) } := by
  simp only [step] at hst
  split at hst
  · split at hst
    · exact ⟨_, _, _, ‹_›, ‹_›, (Option.some.inj hst).symm⟩
    · contradiction
  · contradiction

theorem established_cases (hst : s.step (.connectEstablished addr) = some t) :
    s.callOn addr .connectEstablished = some t := by
  simp only [step] at hst
  split at hst
  · exact (Option.ite_none_right_eq_some.mp hst).2
  · contradiction

theorem store_cases (hst : s.step (.store addr) = some t) :
    s.callOn addr .setDisconnecting = some t := by
  simp only [step] at hst
  split at hst
  · exact (Option.ite_none_left_eq_some.mp hst).2
  · contradiction

theorem Kept.event (h : Kept s) {l : SharedStep} (hst : s.step l = some t)
    (hl : (∃ r w, l = .handler r w) ∨ l = .endEvent) : Kept t := by
  obtain ⟨a, ks, -, ⟨-, rfl⟩ | ⟨k, ks', c, u, -, -, hu, rfl⟩ | ⟨u, hu, rfl⟩⟩ :=
    running_cases hst hl
  · exact h.congr rfl rfl rfl
  · exact (h.callOn hu).congr rfl rfl rfl
  · exact (h.callOn hu).congr rfl rfl rfl

theorem Kept.step (h : Kept s) {l : SharedStep} (hst : s.step l = some t) : Kept t := by
  cases l with
  | newChannel addr fd => exact h.create hst (.inl rfl)
  | newConnection addr fd => exact h.create hst (.inr rfl)
  | perform addr op =>
    obtain ⟨ch, p, ch', hc, hr, rfl⟩ := perform_cases hst
    exact h.perform hc hr
  | connectEstablished addr => exact h.callOn (established_cases hst)
  | call addr l => exact h.callOn (Option.ite_none_right_eq_some.mp hst).2
  | store addr => exact h.callOn (store_cases hst)
  | poll ready =>
    obtain ⟨-, hst⟩ := Option.ite_none_right_eq_some.mp hst
    exact Option.some.inj hst ▸ h.congr rfl rfl rfl
  | dispatch =>
    obtain ⟨e, rest, -, -, ⟨-, rfl⟩ | rfl | ⟨u, hu, rfl⟩⟩ := dispatch_cases hst
    · exact h.congr rfl rfl rfl
    · exact h.congr rfl rfl rfl
    · have hpop : Kept { s with activeChannels_ := rest } := h.congr rfl rfl rfl
      exact (hpop.callOn hu).congr rfl rfl rfl
  | handler r w => exact h.event hst (.inl ⟨r, w, rfl⟩)
  | endEvent => exact h.event hst (.inr rfl)
  | destroy addr b => exact h.destroy hst
  | openElsewhere fd =>
    obtain ⟨hf, hst⟩ := Option.ite_none_right_eq_some.mp hst
    exact Option.some.inj hst ▸ h.descriptor hf (by simp) (by simp)
  | closeElsewhere fd =>
    obtain ⟨hf, hst⟩ := Option.ite_none_right_eq_some.mp hst
    exact Option.some.inj hst ▸ h.descriptor hf (by simp) (by simp)

theorem kept (h : machine.Reachable s) : Kept s := by
  refine h.invariant ?_ fun s l t hs _ hst => hs.step hst
  rintro s rfl
  exact ⟨by simp, by simp, fun _ _ => ⟨rfl, rfl⟩, by simp⟩

/-- An entry of the interest set is that of a live object, with its descriptor, its address
and its mask. -/
theorem Kept.entry (h : Kept s) {m : EventMask} {ptr : Nat}
    (hi : s.poller.interest fd = some (m, ptr)) :
    ∃ o, s.objects ptr = some o ∧ o.channel_.fd_ = fd ∧
      o.channel_.events_ = m ∧ o.channel_.addedToLoop_ = true := by
  have hhere : ∃ addr, s.fds fd = .here addr := by
    by_contra hn
    push Not at hn
    simp [(h.known fd hn).2] at hi
  obtain ⟨addr, hfd⟩ := hhere
  obtain ⟨o, ho, rfl⟩ := h.here fd addr hfd
  obtain ⟨ha, -, hset⟩ := h.held addr o ho
  cases hset.registered with
  | absent hr => simp [hr.interest] at hi
  | parked hr => simp [hr.interest] at hi
  | watched hr =>
    obtain ⟨rfl, rfl⟩ := Prod.mk.inj (Option.some.inj (hr.interest.symm.trans hi))
    exact ⟨o, ha ▸ ho, rfl, rfl, by simp [hset.added, hr.index]⟩

/-- An entry of `channels_`, watched or taken out of epoll, is that of a live object. -/
theorem Kept.channel (h : Kept s) {ptr : Nat} (hc : s.poller.channels_ fd = some ptr) :
    ∃ o, s.objects ptr = some o ∧ o.channel_.fd_ = fd ∧ o.channel_.addedToLoop_ = true := by
  obtain ⟨addr, hfd⟩ : ∃ addr, s.fds fd = .here addr := by
    by_contra hn
    push Not at hn
    simp [(h.known fd hn).1] at hc
  obtain ⟨o, ho, rfl⟩ := h.here fd addr hfd
  obtain ⟨ha, -, hset⟩ := h.held addr o ho
  cases hadd : o.channel_.addedToLoop_ with
  | false => simp [(hset.absent hadd).channels] at hc
  | true =>
    obtain rfl := Option.some.inj ((hset.channels hadd).symm.trans hc)
    exact ⟨o, ha ▸ ho, rfl, hadd⟩

/-! ## Pointers in the batch -/

/-- `connectDestroyed` and `remove` run between batches: the loop calls pending functors once
`activeChannels_` is served. -/
def Batched (s : SharedLoop) : SharedStep → Prop
  | .call addr l => l.removes = true → ∀ e ∈ s.activeChannels_, e.ptr ≠ addr
  | .perform addr op => op = .remove → ∀ e ∈ s.activeChannels_, e.ptr ≠ addr
  | _ => True

/-- The pointer leads to an object that is in the loop with this descriptor. -/
def Busy (s : SharedLoop) (addr fd : Nat) : Prop :=
  ∃ o, s.objects addr = some o ∧ o.channel_.fd_ = fd ∧ o.channel_.addedToLoop_ = true

/-- The pointer leads to a connection whose event is being handled. -/
def Handling (s : SharedLoop) (addr : Nat) : Prop :=
  ∃ c calls, s.objects addr = some (.connection c calls) ∧ c.channel_.eventHandling_ = true

theorem Busy.congr (h : Busy s addr fd) (ho : t.objects addr = s.objects addr) :
    Busy t addr fd := by
  rwa [Busy, ho]

theorem Handling.congr (h : Handling s addr) (ho : t.objects addr = s.objects addr) :
    Handling t addr := by
  rwa [Handling, ho]

/-- A channel stays in the loop through every call but `connectDestroyed`. -/
theorem Busy.callOn (h : Busy s addr fd) (hk : Kept s) {a : Nat} {l : ConnCall}
    (hl : a = addr → ∀ c, l = .stream c → c.removes = false) (hst : s.callOn a l = some t) :
    Busy t addr fd := by
  obtain ⟨c, calls, hc, rfl⟩ := callOn_cases hst
  by_cases hae : addr = a
  · subst hae
    obtain ⟨o, ho, hfd, hadd⟩ := h
    obtain rfl := Option.some.inj (hc.symm.trans ho)
    obtain ⟨-, -, hset⟩ := hk.held addr _ hc
    refine ⟨_, Function.update_self _ _ _, ?_, ?_⟩
    · exact ((@confined_connCall (s.within c) hset l).fd.trans (ConnCall.fd_start _ l)).trans hfd
    · cases l with
      | connectEstablished => exact (Channel.added_update _ _ none).1
      | stream l => exact added_streamStep (c := s.within c) hadd (hl rfl l rfl)
      | setEventHandling b => exact hadd
      | setDisconnecting => exact hadd
  · exact h.congr (Function.update_of_ne hae _ _)

theorem Handling.callOn (h : Handling s addr) (hk : Kept s) {a : Nat} {l : ConnCall}
    (hl : a = addr → l ≠ .setEventHandling false) (hst : s.callOn a l = some t) :
    Handling t addr := by
  obtain ⟨c, calls, hc, rfl⟩ := callOn_cases hst
  by_cases hae : addr = a
  · subst hae
    obtain ⟨c', calls', hc', hev⟩ := h
    obtain ⟨rfl, rfl⟩ := Object.connection.inj (Option.some.inj (hc.symm.trans hc'))
    obtain ⟨-, -, hset⟩ := hk.held addr _ hc
    refine ⟨_, _, Function.update_self _ _ _, ?_⟩
    rw [(@confined_connCall (s.within c) hset l).handling]
    cases l with
    | connectEstablished => exact hev
    | stream l => exact hev
    | setEventHandling b =>
      cases b with
      | true => rfl
      | false => exact absurd rfl (hl rfl)
    | setDisconnecting => exact hev
  · exact h.congr (Function.update_of_ne hae _ _)

/-- A constructor runs where nothing lives. -/
theorem create_objects {a x : Nat} {o p : Object} (hst : s.create a x o = some t)
    (hp : s.objects addr = some p) : t.objects addr = s.objects addr := by
  obtain ⟨⟨hfree, -⟩, hst⟩ := Option.ite_none_right_eq_some.mp hst
  obtain rfl := Option.some.inj hst
  refine Function.update_of_ne ?_ _ _
  rintro rfl
  simp [hp] at hfree

theorem destroy_cases {b : Bool} (hst : s.destroy addr b = some t) :
    ∃ o, s.objects addr = some o ∧ o.channel_.eventHandling_ = false ∧
      o.channel_.addedToLoop_ = false ∧ t.objects = Function.update s.objects addr none ∧
      t.activeChannels_ = s.activeChannels_ ∧ t.running = s.running ∧ t.dangling = s.dangling := by
  unfold SharedLoop.destroy at hst
  split at hst
  · obtain ⟨⟨hev, hadd, -⟩, hst⟩ := Option.ite_none_right_eq_some.mp hst
    obtain rfl := Option.some.inj hst
    exact ⟨_, ‹_›, hev, hadd, rfl, rfl, rfl, rfl⟩
  · contradiction

/-- Every pointer that the loop still has to follow leads to its object, and none has been
followed to nowhere. -/
structure Safe (s : SharedLoop) : Prop where
  active : ∀ e ∈ s.activeChannels_, Busy s e.ptr e.fd
  running : ∀ addr ks, s.running = some (addr, ks) → Handling s addr
  alive : s.dangling = false

/-- A step that leaves the batch and the running event alone keeps both if it keeps every
object that they need. -/
theorem Safe.keep (h : Safe s) (ha : t.activeChannels_ = s.activeChannels_)
    (hr : t.running = s.running) (hd : t.dangling = s.dangling)
    (hbusy : ∀ e ∈ s.activeChannels_, Busy s e.ptr e.fd → Busy t e.ptr e.fd)
    (hhandling : ∀ addr ks, s.running = some (addr, ks) → Handling s addr → Handling t addr) :
    Safe t := by
  refine ⟨?_, ?_, hd.trans h.alive⟩
  · rw [ha]
    exact fun e he => hbusy e he (h.active e he)
  · rw [hr]
    exact fun addr ks he => hhandling addr ks he (h.running addr ks he)

theorem Safe.callOn (h : Safe s) (hk : Kept s) {l : ConnCall} (hev : l ≠ .setEventHandling false)
    (hl : ∀ c, l = .stream c → c.removes = true → ∀ e ∈ s.activeChannels_, e.ptr ≠ addr)
    (hst : s.callOn addr l = some t) : Safe t := by
  obtain ⟨c, calls, hc, rfl⟩ := callOn_cases hst
  refine h.keep rfl rfl rfl ?_ ?_
  · intro e he hb
    refine hb.callOn hk ?_ hst
    rintro rfl c' rfl
    by_contra hrem
    exact hl c' rfl (by simpa using hrem) e he rfl
  · intro a ks _ hh
    exact hh.callOn hk (fun _ => hev) hst

theorem Safe.create (h : Safe s) {a x : Nat} {o : Object} (hst : s.create a x o = some t) :
    Safe t := by
  have hobj {b : Nat} {p : Object} := @create_objects s t b a x o p hst
  obtain ⟨-, hst⟩ := Option.ite_none_right_eq_some.mp hst
  obtain rfl := Option.some.inj hst
  refine h.keep rfl rfl rfl ?_ ?_
  · rintro e - ⟨p, hp, hb⟩
    exact Busy.congr ⟨p, hp, hb⟩ (hobj hp)
  · rintro b ks - ⟨c, calls, hc, hh⟩
    exact Handling.congr ⟨c, calls, hc, hh⟩ (hobj hc)

/-- The assertions of `~Channel` rule out every object that the loop still needs. -/
theorem Safe.destroy (h : Safe s) {b : Bool} (hst : s.destroy addr b = some t) : Safe t := by
  obtain ⟨o, ho, hev, hadd, hobj, ha, hr, hd⟩ := destroy_cases hst
  refine h.keep ha hr hd ?_ ?_
  · rintro e - ⟨p, hp, hfd, hb⟩
    refine Busy.congr ⟨p, hp, hfd, hb⟩ ?_
    rw [hobj]
    refine Function.update_of_ne ?_ _ _
    rintro rfl
    obtain rfl := Option.some.inj (ho.symm.trans hp)
    simp [hadd] at hb
  · rintro a ks - ⟨c, calls, hc, hh⟩
    refine Handling.congr ⟨c, calls, hc, hh⟩ ?_
    rw [hobj]
    refine Function.update_of_ne ?_ _ _
    rintro rfl
    obtain rfl := Option.some.inj (ho.symm.trans hc)
    simp [Object.channel_, hh] at hev

theorem Safe.perform (h : Safe s) {op : ChannelOp} (hok : Batched s (.perform addr op))
    (hst : s.step (.perform addr op) = some t) : Safe t := by
  obtain ⟨ch, p, ch', hc, hr, rfl⟩ := perform_cases hst
  refine h.keep rfl rfl rfl ?_ ?_
  · rintro e he ⟨q, hq, hfd, hadd⟩
    by_cases hae : e.ptr = addr
    · obtain rfl := Option.some.inj (hc.symm.trans (hae ▸ hq))
      refine ⟨.channel ch', by simp [hae], ?_, ?_⟩
      · exact (ChannelOp.perform_identity hr).1.trans hfd
      · exact (ChannelOp.added_perform (fun hop => hok hop e he hae) hr).1
    · exact Busy.congr ⟨q, hq, hfd, hadd⟩ (Function.update_of_ne hae _ _)
  · rintro a ks - ⟨c, calls, hc', hh⟩
    refine Handling.congr ⟨c, calls, hc', hh⟩ (Function.update_of_ne ?_ _ _)
    rintro rfl
    simp [hc] at hc'

/-- The kernel reports only channels that are in the loop. -/
theorem Safe.poll (h : Safe s) (hk : Kept s) {ready : List (Nat × EventMask)}
    (hst : s.poll ready = some t) : Safe t := by
  obtain ⟨-, hst⟩ := Option.ite_none_right_eq_some.mp hst
  obtain rfl := Option.some.inj hst
  refine ⟨?_, h.running, h.alive⟩
  intro e he
  obtain ⟨r, -, hr⟩ := List.mem_filterMap.mp he
  obtain ⟨⟨m, ptr⟩, hint, rfl⟩ := Option.map_eq_some_iff.mp hr
  obtain ⟨o, ho, hfd, hw⟩ := hk.entry hint
  exact ⟨o, ho, hfd, hw.2⟩

theorem Safe.dispatch (h : Safe s) (hk : Kept s) (hst : s.dispatch = some t) : Safe t := by
  obtain ⟨e, rest, -, ha, hcase⟩ := dispatch_cases hst
  have hpop : Safe { s with activeChannels_ := rest } :=
    ⟨fun e' he => h.active e' (ha ▸ List.mem_cons_of_mem e he), h.running, h.alive⟩
  rcases hcase with ⟨hn, rfl⟩ | rfl | ⟨u, hu, rfl⟩
  · obtain ⟨o, ho, -⟩ := h.active e (by simp [ha])
    simp [hn] at ho
  · exact hpop
  · have hk' : Kept { s with activeChannels_ := rest } := hk.congr rfl rfl rfl
    have hsafe := hpop.callOn hk' (by simp) (by simp) hu
    obtain ⟨c, calls, -, rfl⟩ := callOn_cases hu
    refine ⟨hsafe.active, ?_, hsafe.alive⟩
    intro addr ks hr
    obtain ⟨rfl, rfl⟩ := Prod.mk.inj (Option.some.inj hr)
    exact ⟨_, _, Function.update_self _ _ _, rfl⟩

theorem Safe.event (h : Safe s) (hk : Kept s) {l : SharedStep} (hst : s.step l = some t)
    (hl : (∃ r w, l = .handler r w) ∨ l = .endEvent) : Safe t := by
  obtain ⟨a, ks, hr, ⟨hn, rfl⟩ | ⟨k, ks', c, u, -, hc, hu, rfl⟩ | ⟨u, hu, rfl⟩⟩ :=
    running_cases hst hl
  · obtain ⟨c, calls, hc, -⟩ := h.running a ks hr
    simp [hn] at hc
  · have hrem : c.removes = false := by cases c <;> first | rfl | contradiction
    have hsafe := h.callOn hk (l := .stream c) (by simp) (by
      rintro c' he hc'
      obtain rfl := ConnCall.stream.inj he
      simp [hrem] at hc') hu
    refine ⟨hsafe.active, ?_, hsafe.alive⟩
    intro addr ks'' he
    obtain ⟨rfl, rfl⟩ := Prod.mk.inj (Option.some.inj he)
    have hu' : Handling u a := (h.running a ks hr).callOn hk (by simp) hu
    exact hu'.congr rfl
  · have hbusy : ∀ e ∈ s.activeChannels_, Busy u e.ptr e.fd := fun e he =>
      (h.active e he).callOn hk (by simp) hu
    obtain ⟨c, calls, -, rfl⟩ := callOn_cases hu
    exact ⟨fun e he => (hbusy e he).congr rfl, by simp, h.alive⟩

theorem Safe.step (h : Safe s) (hk : Kept s) {l : SharedStep} (hok : Batched s l)
    (hst : s.step l = some t) : Safe t := by
  cases l with
  | newChannel addr fd => exact h.create hst
  | newConnection addr fd => exact h.create hst
  | perform addr op => exact h.perform hok hst
  | connectEstablished addr => exact h.callOn hk (by simp) (by simp) (established_cases hst)
  | call addr l =>
    refine h.callOn hk (by simp) ?_ (Option.ite_none_right_eq_some.mp hst).2
    rintro c he hc
    exact hok (ConnCall.stream.inj he ▸ hc)
  | store addr => exact h.callOn hk (by simp) (by simp) (store_cases hst)
  | poll ready => exact h.poll hk hst
  | dispatch => exact h.dispatch hk hst
  | handler r w => exact h.event hk hst (.inl ⟨r, w, rfl⟩)
  | endEvent => exact h.event hk hst (.inr rfl)
  | destroy addr b => exact h.destroy hst
  | openElsewhere fd =>
    obtain ⟨-, hst⟩ := Option.ite_none_right_eq_some.mp hst
    obtain rfl := Option.some.inj hst
    exact h.keep rfl rfl rfl (fun _ _ hb => hb) fun _ _ _ hh => hh
  | closeElsewhere fd =>
    obtain ⟨-, hst⟩ := Option.ite_none_right_eq_some.mp hst
    obtain rfl := Option.some.inj hst
    exact h.keep rfl rfl rfl (fun _ _ hb => hb) fun _ _ _ hh => hh

theorem safe (h : machine.Reach Batched s) : Safe s := by
  have hboth : Kept s ∧ Safe s := by
    refine h.invariant (I := fun s => Kept s ∧ Safe s) ?_ fun s l t hs hok hst =>
      ⟨hs.1.step hst, hs.2.step hs.1 hok hst⟩
    rintro s rfl
    exact ⟨kept (.init rfl), by simp, by simp, rfl⟩
  exact hboth.2

instance (s : SharedLoop) (l : SharedStep) : Decidable (Batched s l) := by
  cases l <;> unfold Batched <;> infer_instance

/-- A loop with an acceptor, on which one connection comes, writes and goes, and its address
and its descriptor are used again while another one is served. -/
def reuse : List SharedStep :=
  [.newChannel 16 4, .perform 16 .enableReading,
    .newConnection 64 5, .connectEstablished 64, .newConnection 96 6, .connectEstablished 96,
    .poll [(4, EPOLLIN), (6, EPOLLIN), (5, EPOLLIN)], .dispatch,
    .dispatch, .handler (.received [104, 105]) (.error EAGAIN),
    .call 64 (.userCall (.send [104, 105] (.wrote 1))), .endEvent,
    .dispatch, .handler (.received []) (.error EAGAIN), .endEvent,
    .call 64 (.connectDestroyed []), .destroy 64 true,
    .newConnection 64 5, .connectEstablished 64, .store 96, .poll [(5, EPOLLIN)]]

/-! ## Connections on their own -/

/-- Whatever else lives on the loop and is called between its own calls, a connection is
what those calls make of a connection that has the poller for itself. -/
theorem replays_own_calls (h : machine.Reachable s) {c : TcpConnection} {calls : List ConnCall}
    (hc : s.objects addr = some (.connection c calls)) :
    (s.within c).alone = calls.foldl connCall (TcpConnection.new addr c.channel_.fd_) :=
  (kept h).replay addr c calls hc

theorem replays_own_calls_reuse :
    ∃ s, machine.run {} reuse = some s ∧
      ∃ c calls, s.objects 96 = some (.connection c calls) ∧ calls.length = 5 ∧
        (s.within c).alone = calls.foldl connCall (TcpConnection.new 96 c.channel_.fd_) := by
  refine Machine.exists_run rfl (by decide) fun s hs h => ?_
  obtain rfl := Option.some.inj hs
  exact ⟨_, _, rfl, rfl, replays_own_calls h rfl⟩

/-- Channels are removed between batches alone, so the loop never follows a pointer to nowhere:
what epoll stores, what `channels_` stores, in epoll or not, and what waits in
`activeChannels_` leads to the live owner of the descriptor, the assertions of
`fillActiveChannels` hold, `~Channel` never fails its last assertion alone, and a connection on
a descriptor that is used again starts afresh. -/
theorem pointers_lead_to_owners (h : machine.Reach Batched s) :
    s.dangling = false ∧
    (∀ fd m ptr, s.poller.interest fd = some (m, ptr) →
      ∃ o, s.objects ptr = some o ∧ o.channel_.fd_ = fd ∧ o.channel_.events_ = m) ∧
    (∀ fd ptr, s.poller.channels_ fd = some ptr →
      ∃ o, s.objects ptr = some o ∧ o.channel_.fd_ = fd) ∧
    (∀ e ∈ s.activeChannels_, s.poller.channels_ e.fd = some e.ptr ∧
      ∃ o, s.objects e.ptr = some o ∧ o.channel_.fd_ = e.fd) ∧
    (∀ addr o, s.objects addr = some o → o.channel_.addedToLoop_ = false →
      s.poller.hasChannel o.channel_ = false) ∧
    ∀ addr fd t, s.step (.newConnection addr fd) = some t →
      Fresh (t.within (TcpConnection.new addr fd)) := by
  have hk := kept h.reachable
  have hs := safe h
  refine ⟨hs.alive, ?_, ?_, ?_, ?_, ?_⟩
  · intro fd m ptr hi
    obtain ⟨o, ho, hfd, hm, -⟩ := hk.entry hi
    exact ⟨o, ho, hfd, hm⟩
  · intro fd ptr hc
    obtain ⟨o, ho, hfd, -⟩ := hk.channel hc
    exact ⟨o, ho, hfd⟩
  · intro e he
    obtain ⟨o, ho, hfd, hadd⟩ := hs.active e he
    obtain ⟨ha, -, hset⟩ := hk.held e.ptr o ho
    exact ⟨by rw [← hfd, hset.channels hadd, ha], o, ho, hfd⟩
  · intro addr o ho hadd
    have hnot := (hk.held addr o ho).2.2.hasChannel_iff
    simpa [hadd] using hnot
  · intro addr fd t hst
    have hkt := hk.step hst
    obtain ⟨-, hst⟩ := Option.ite_none_right_eq_some.mp hst
    obtain rfl := Option.some.inj hst
    obtain ⟨-, -, hset⟩ := hkt.held addr _ (Function.update_self _ _ _)
    exact ⟨rfl, hset.absent rfl, rfl, rfl, rfl, rfl⟩

theorem pointers_lead_to_owners_reuse :
    ∃ s, machine.runIf Batched {} reuse = some s ∧ s.dangling = false ∧
    (∀ fd m ptr, s.poller.interest fd = some (m, ptr) →
      ∃ o, s.objects ptr = some o ∧ o.channel_.fd_ = fd ∧ o.channel_.events_ = m) ∧
    (∀ fd ptr, s.poller.channels_ fd = some ptr →
      ∃ o, s.objects ptr = some o ∧ o.channel_.fd_ = fd) ∧
    (∀ e ∈ s.activeChannels_, s.poller.channels_ e.fd = some e.ptr ∧
      ∃ o, s.objects e.ptr = some o ∧ o.channel_.fd_ = e.fd) ∧
    (∀ addr o, s.objects addr = some o → o.channel_.addedToLoop_ = false →
      s.poller.hasChannel o.channel_ = false) ∧
    ∀ addr fd t, s.step (.newConnection addr fd) = some t →
      Fresh (t.within (TcpConnection.new addr fd)) :=
  Machine.exists_runIf rfl (by decide) fun _ _ h => pointers_lead_to_owners h

/-- A connection destroyed by the callback of another one, while its own event waits. -/
example : (machine.run {} [.newConnection 64 5, .connectEstablished 64, .newConnection 96 6,
    .connectEstablished 96, .poll [(6, EPOLLIN), (5, EPOLLIN)], .dispatch,
    .call 64 (.connectDestroyed []), .destroy 64 true, .handler (.received [104]) (.wrote 0),
    .endEvent, .dispatch]).map SharedLoop.dangling = some true := by
  decide

end SharedLoop

end Muduo
