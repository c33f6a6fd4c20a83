import Muduo.Connection.Phases
import Muduo.Library.Machine

/-!
# What the user is told about a connection

The user of a connection is told that it is up, then hears of messages, then is told
that it is down. One dispatch may run several handlers, two of them bound to
`handleClose`, so this order depends on what epoll and `readv` report together.
-/

namespace Muduo

inductive Note where
  | up | message | down
  deriving DecidableEq, Repr

def Effect.note : Effect → Option Note
  | .connectionCallback true => some .up
  | .connectionCallback false => some .down
  | .messageCallback _ => some .message
  | _ => none

/-- A prefix of up, messages, down. -/
def Orderly (ns : List Note) : Prop :=
  ∃ n, ns <+: .up :: (List.replicate n .message ++ [.down])

theorem orderly_live (n : Nat) : Orderly (.up :: List.replicate n .message) :=
  ⟨n, by simp⟩

theorem orderly_over (n : Nat) : Orderly (.up :: (List.replicate n .message ++ [.down])) :=
  ⟨n, List.prefix_refl _⟩

/-- Nothing comes after the first `down`. -/
theorem not_orderly (before after : List Note) (x : Note) :
    ¬ Orderly (before ++ .down :: x :: after) := by
  rintro ⟨n, hp⟩
  have hi : before.length < (.up :: (List.replicate n .message ++ [.down]) : List Note).length - 1 := by
    have hlen := hp.length_le
    simp only [List.length_append, List.length_cons] at hlen ⊢
    omega
  have hget : (Note.up :: (List.replicate n .message ++ [.down]))[before.length]? = some .down := by
    rw [List.prefix_iff_getElem?.mp hp before.length (by simp)]
    simp
  cases hb : before.length with
  | zero => simp [hb] at hget
  | succ k =>
    simp only [hb, List.length_cons, List.length_append, List.length_replicate,
      List.length_nil] at hi
    rw [hb, List.getElem?_cons_succ, List.getElem?_append_left (by simp; omega)] at hget
    simp [List.getElem?_replicate] at hget

namespace TcpConnection

def notes (c : TcpConnection) : List Note := c.effects.filterMap Effect.note

theorem notes_emit (c : TcpConnection) (e : Effect) :
    (c.emit e).notes = c.notes ++ e.note.toList := by
  cases h : e.note <;> simp [notes, h]

@[simp] theorem notes_setEventHandling (c : TcpConnection) (b : Bool) :
    (c.setEventHandling b).notes = c.notes := rfl

theorem note_of_quiet {e : Effect} (h : e.quiet = true) : e.note = none := by
  cases e <;> grind [Effect.quiet, Effect.note]

theorem stable_notes (ns : List Note) : Stable fun c => c.notes = ns where
  emit := fun c e he h => by rw [notes_emit, note_of_quiet he]; simpa using h
  input := fun _ _ h => h
  output := fun _ _ h => h
  enableWriting := fun _ h => h
  disableWriting := fun _ h => h
  disconnecting := fun _ _ h => h

@[simp] theorem notes_userCalls (c : TcpConnection) (calls : List UserCall) :
    (c.userCalls calls).notes = c.notes :=
  (stable_notes c.notes).userCalls calls rfl

@[simp] theorem notes_disconnect (c : TcpConnection) : c.disconnect.notes = c.notes ++ [.down] :=
  notes_emit _ _

@[simp] theorem notes_handleClose (c : TcpConnection) (calls : List UserCall) :
    (c.handleClose calls).notes = c.notes ++ [.down] := by
  rw [handleClose, notes_emit, notes_userCalls, notes_disconnect]
  simp [Effect.note]

@[simp] theorem notes_removeChannel (c : TcpConnection) : c.removeChannel.notes = c.notes := by
  unfold removeChannel
  split <;> rfl

/-! ## One dispatch -/

/-- What a handler tells the user; the connection's state has no say in it. -/
def Handler.notes (env : Environment) : Handler → List Note
  | .close | .error => [.down]
  | .read =>
    match env.read with
    | .received [] => [.down]
    | .received (_ :: _) => [.message]
    | .error _ => []
  | .write => []

def eventNotes (revents : EventMask) (env : Environment) : List Note :=
  (handlers revents).flatMap (Handler.notes env)

theorem notes_runHandler (env : Environment) (c : TcpConnection) (h : Handler) :
    (runHandler env c h).notes = c.notes ++ h.notes env := by
  cases h with
  | close => exact notes_handleClose _ _
  | error => exact notes_handleClose _ _
  | read =>
    cases hr : env.read with
    | error e => simp [runHandler, handleRead, Handler.notes, hr]
    | received bytes =>
      cases bytes with
      | nil => simp [runHandler, handleRead, Handler.notes, hr]
      | cons b bs =>
        simp [runHandler, handleRead, Handler.notes, hr, notes_emit, Effect.note]
        rfl
  | write =>
    simpa [runHandler, Handler.notes] using (stable_notes c.notes).handleWrite env.write rfl

theorem notes_handleEvent (c : TcpConnection) (revents : EventMask) (env : Environment) :
    (c.handleEvent true revents env).notes = c.notes ++ eventNotes revents env := by
  have hfold : ∀ (hs : List Handler) (c : TcpConnection),
      (hs.foldl (runHandler env) c).notes = c.notes ++ hs.flatMap (Handler.notes env) := by
    intro hs
    induction hs with
    | nil => simp
    | cons h hs ih => simp [ih, notes_runHandler]
  simp [handleEvent, handleEventWithGuard, hfold, eventNotes]

/-- What epoll and `readv` must not report together: two ways to `handleClose`, or one
of them with bytes to read or the end of the stream. -/
def Undisturbed (revents : EventMask) (env : Environment) : Prop :=
  let hangup := revents.has EPOLLHUP && !revents.has EPOLLIN
  ¬ (hangup = true ∧ revents.has EPOLLERR = true) ∧
    (hangup = true ∨ revents.has EPOLLERR = true →
      revents.has (EPOLLIN ||| EPOLLPRI ||| EPOLLRDHUP) = true → ∃ e, env.read = .error e)

/-- What is said depends on four tests of the mask and on the result of `readv`. -/
theorem eventNotes_eq (revents : EventMask) (env : Environment) :
    eventNotes revents env =
      (if revents.has EPOLLHUP && !revents.has EPOLLIN then [.down] else []) ++
      (if revents.has EPOLLERR then [.down] else []) ++
      (if revents.has (EPOLLIN ||| EPOLLPRI ||| EPOLLRDHUP) then Handler.read.notes env else []) := by
  simp only [eventNotes, handlers, List.flatMap_append]
  split_ifs <;> simp [Handler.notes]

/-- An undisturbed dispatch says at most one thing. -/
theorem eventNotes_of_undisturbed {revents : EventMask} {env : Environment}
    (h : Undisturbed revents env) :
    eventNotes revents env = [] ∨ eventNotes revents env = [.message] ∨
      eventNotes revents env = [.down] := by
  rw [eventNotes_eq]
  obtain ⟨hone, hread⟩ := h
  have hr : Handler.read.notes env = [] ∨ Handler.read.notes env = [.message] ∨
      Handler.read.notes env = [.down] := by
    rcases hr : env.read with (_ | ⟨b, bs⟩) | e <;> simp [Handler.notes, hr]
  have hquiet : (∃ e, env.read = .error e) → Handler.read.notes env = [] := by
    rintro ⟨e, he⟩
    simp [Handler.notes, he]
  split_ifs with h₁ h₂ h₃ h₃ h₂ h₃ h₃ <;> grind

theorem eventNotes_of_not_undisturbed {revents : EventMask} {env : Environment}
    (h : ¬ Undisturbed revents env) : ∃ x ns, eventNotes revents env = .down :: x :: ns := by
  rw [eventNotes_eq]
  have hread : (¬ ∃ e, env.read = .error e) → ∃ x, Handler.read.notes env = [x] := by
    intro hne
    rcases hr : env.read with (_ | ⟨b, bs⟩) | e
    · exact ⟨.down, by simp [Handler.notes, hr]⟩
    · exact ⟨.message, by simp [Handler.notes, hr]⟩
    · exact absurd ⟨e, hr⟩ hne
  by_cases hboth : (revents.has EPOLLHUP && !revents.has EPOLLIN) = true ∧
      revents.has EPOLLERR = true
  · rw [if_pos hboth.1, if_pos hboth.2]
    exact ⟨.down, _, rfl⟩
  · obtain ⟨hone, hr, hne⟩ : ((revents.has EPOLLHUP && !revents.has EPOLLIN) = true ∨
        revents.has EPOLLERR = true) ∧ revents.has (EPOLLIN ||| EPOLLPRI ||| EPOLLRDHUP) = true ∧
        ¬ ∃ e, env.read = .error e := by
      simp only [Undisturbed] at h
      tauto
    obtain ⟨x, hx⟩ := hread hne
    rw [if_pos hr, hx]
    rcases hone with h₁ | h₁
    · rw [if_pos h₁]
      split
      · exact ⟨.down, _, rfl⟩
      · exact ⟨x, _, rfl⟩
    · rw [if_pos h₁]
      split
      · exact ⟨.down, _, rfl⟩
      · exact ⟨x, _, rfl⟩

/-! ## Runs on the loop thread -/

inductive LoopStep where
  | handleEvent (revents : EventMask) (env : Environment)
  | userCall (u : UserCall)
  | connectDestroyed (calls : List UserCall)

/-- Events arrive while the channel is registered; a failed assertion ends the program. -/
def loopStep (c : TcpConnection) : LoopStep → Option TcpConnection
  | .handleEvent revents env =>
    if c.aborted = none ∧ c.registered then some (c.handleEvent true revents env) else none
  | .userCall u => if c.aborted = none then some (c.userCall u) else none
  | .connectDestroyed calls => if c.aborted = none then some (c.connectDestroyed calls) else none

/-- The connection from the end of `connectEstablished` on. -/
def loopMachine : Machine TcpConnection LoopStep where
  init c := ∃ c₀ calls, Fresh c₀ ∧ c = c₀.connectEstablished calls
  step := loopStep

/-- The step's event, if it has one, is undisturbed. -/
def LoopStep.Undisturbed (_ : TcpConnection) : LoopStep → Prop
  | .handleEvent revents env => TcpConnection.Undisturbed revents env
  | .userCall _ | .connectDestroyed _ => True

/-- Up and hearing of messages, or told to be down and out of reach of events. -/
inductive Told (c : TcpConnection) : Prop where
  | live (n : Nat) : Open c → c.notes = .up :: List.replicate n .message → Told c
  | ended (n : Nat) : Closed c ∨ Removed c →
      c.notes = .up :: (List.replicate n .message ++ [.down]) → Told c
  | stopped : c.aborted ≠ none → Orderly c.notes → Told c

variable {c t : TcpConnection}

theorem Told.orderly (h : Told c) : Orderly c.notes := by
  cases h with
  | live n _ hn => exact hn ▸ orderly_live n
  | ended n _ hn => exact hn ▸ orderly_over n
  | stopped _ ho => exact ho

theorem told_connectEstablished (h : Fresh c) (calls : List UserCall) :
    Told (c.connectEstablished calls) := by
  refine .live 0 (h.connectEstablished calls) ?_
  rw [connectEstablished, notes_userCalls, notes_emit]
  simp [notes, h.effects, Effect.note]

/-! ### Phases during a dispatch -/

theorem closes_iff_down_mem (env : Environment) (k : Handler) :
    k.closes env.read = true ↔ Note.down ∈ k.notes env := by
  cases k with
  | read => rcases hr : env.read with (_ | ⟨b, bs⟩) | e <;> simp [Handler.closes, Handler.notes, hr]
  | _ => simp [Handler.closes, Handler.notes]

theorem notes_of_closes {env : Environment} {k : Handler} (hk : k.closes env.read = true) :
    k.notes env = [.down] := by
  cases k with
  | read => grind [Handler.closes, Handler.notes]
  | write => simp [Handler.closes] at hk
  | _ => rfl

/-- A handler that says `down` closes an open connection; any other leaves it open. -/
theorem Open.runHandler (h : Open c) (env : Environment) (k : Handler) :
    (k.notes env = [.down] ∧ Closed (TcpConnection.runHandler env c k)) ∨
      (Note.down ∉ k.notes env ∧ Open (TcpConnection.runHandler env c k)) := by
  by_cases hk : k.closes env.read = true
  · exact .inl ⟨notes_of_closes hk, runHandler_of_closes hk c ▸ h.handleClose _⟩
  · refine .inr ⟨mt (closes_iff_down_mem env k).mpr hk, h.runHandler_open ?_⟩
    simpa using hk

/-- Once closed, a handler with nothing to say changes nothing that matters. -/
theorem Closed.runHandler (h : Closed c) (env : Environment) {k : Handler}
    (hk : k.notes env = []) : Closed (TcpConnection.runHandler env c k) := by
  refine h.runHandler_closed ?_
  simpa [hk] using (closes_iff_down_mem env k).not

theorem Closed.dispatch (h : Closed c) (env : Environment) {hs : List Handler}
    (hn : hs.flatMap (Handler.notes env) = []) : Closed (hs.foldl (TcpConnection.runHandler env) c) := by
  induction hs generalizing c with
  | nil => exact h
  | cons k hs ih =>
    simp only [List.flatMap_cons, List.append_eq_nil_iff] at hn
    exact ih (h.runHandler env hn.1) hn.2

theorem Open.dispatch (h : Open c) (env : Environment) (hs : List Handler) :
    (Note.down ∉ hs.flatMap (Handler.notes env) → Open (hs.foldl (TcpConnection.runHandler env) c)) ∧
      (hs.flatMap (Handler.notes env) = [.down] → Closed (hs.foldl (TcpConnection.runHandler env) c)) := by
  induction hs generalizing c with
  | nil => exact ⟨fun _ => h, fun hn => by simp at hn⟩
  | cons k hs ih =>
    simp only [List.flatMap_cons, List.foldl_cons]
    rcases h.runHandler env k with ⟨hk, hc⟩ | ⟨hk, ho⟩
    · refine ⟨fun hn => absurd (by simp [hk]) hn, fun hn => hc.dispatch env ?_⟩
      simpa [hk] using hn
    · refine ⟨fun hn => (ih ho).1 (fun hm => hn (List.mem_append_right _ hm)), fun hn => ?_⟩
      cases hkn : k.notes env with
      | nil => exact (ih ho).2 (by simpa [hkn] using hn)
      | cons x xs =>
        simp only [hkn, List.cons_append, List.cons.injEq] at hn
        simp [hkn, hn.1] at hk

theorem Open.setEventHandling (h : Open c) (b : Bool) : Open (c.setEventHandling b) :=
  ⟨h.state, ⟨h.watched.index, h.watched.channels, h.watched.interest⟩, h.reading, h.running⟩

theorem Closed.setEventHandling (h : Closed c) (b : Bool) : Closed (c.setEventHandling b) :=
  ⟨h.state, ⟨h.parked.index, h.parked.channels, h.parked.interest⟩, h.silent, h.running⟩

theorem Told.handleEvent {n : Nat} (h : Open c) (hn : c.notes = .up :: List.replicate n .message)
    {revents : EventMask} {env : Environment} (hu : Undisturbed revents env) :
    Told (c.handleEvent true revents env) := by
  have hnotes := notes_handleEvent c revents env
  have hd := (h.setEventHandling true).dispatch env (handlers revents)
  have hev : c.handleEvent true revents env = c.handleEventWithGuard revents env := by
    simp [TcpConnection.handleEvent]
  rcases eventNotes_of_undisturbed hu with he | he | he
  · refine .live n ?_ (by rw [hnotes, he, hn, List.append_nil])
    rw [hev]
    exact (hd.1 (by rw [← eventNotes, he]; simp)).setEventHandling false
  · refine .live (n + 1) ?_ (by rw [hnotes, he, hn, List.replicate_succ']; rfl)
    rw [hev]
    exact (hd.1 (by rw [← eventNotes, he]; simp)).setEventHandling false
  · refine .ended n (.inl ?_) (by rw [hnotes, he, hn]; rfl)
    rw [hev]
    exact (hd.2 he).setEventHandling false

/-! ### Runs -/

theorem notes_connectDestroyed (c : TcpConnection) (calls : List UserCall) :
    (c.connectDestroyed calls).notes = c.notes ++ if c.state_ = .kConnected then [.down] else [] := by
  rw [connectDestroyed, notes_removeChannel]
  split <;> simp

theorem Told.connectDestroyed (h : Told c) (hr : c.aborted = none) (calls : List UserCall) :
    Told (c.connectDestroyed calls) := by
  have hnotes := notes_connectDestroyed c calls
  cases h with
  | live n ho hn =>
    rcases ho.state with hs | hs
    · exact .ended n (.inr (ho.connectDestroyed hs calls)) (by rw [hnotes, hn, if_pos hs]; rfl)
    · rw [if_neg (by simp [hs]), List.append_nil] at hnotes
      refine .stopped ?_ (by rw [hnotes, hn]; exact orderly_live n)
      rw [TcpConnection.connectDestroyed, if_neg (by simp [hs]), ho.removeChannel]
      exact Option.some_ne_none _
  | ended n hc hn =>
    have hs : c.state_ = .kDisconnected := hc.elim Closed.state Removed.state
    rw [if_neg (by simp [hs]), List.append_nil] at hnotes
    rcases hc with hc | hc
    · exact .ended n (.inr (hc.connectDestroyed calls)) (by rw [hnotes, hn])
    · refine .stopped ?_ (by rw [hnotes, hn]; exact orderly_over n)
      rw [TcpConnection.connectDestroyed, if_neg (by simp [hs]), hc.removeChannel]
      exact Option.some_ne_none _
  | stopped hab _ => exact absurd hr hab

theorem Told.userCall (h : Told c) (hr : c.aborted = none) (u : UserCall) :
    Told (c.userCall u) := by
  have hnotes : (c.userCall u).notes = c.notes := (stable_notes c.notes).userCall u rfl
  cases h with
  | live n ho hn => exact .live n (stable_open.userCall u ho) (hnotes.trans hn)
  | ended n hc hn =>
    exact .ended n (hc.imp (·.userCalls [u]) (·.userCalls [u])) (hnotes.trans hn)
  | stopped hab _ => exact absurd hr hab

theorem Told.step {l : LoopStep} (h : Told c) (hok : l.Undisturbed c)
    (hst : loopStep c l = some t) : Told t := by
  cases l with
  | handleEvent revents env =>
    simp only [loopStep, Option.ite_none_right_eq_some, Option.some.injEq] at hst
    obtain ⟨⟨hr, hreg⟩, rfl⟩ := hst
    cases h with
    | live n ho hn => exact Told.handleEvent ho hn hok
    | ended n hc hn =>
      have hdeaf := hc.elim Closed.registered Removed.registered
      simp [hdeaf] at hreg
    | stopped hab _ => exact absurd hr hab
  | userCall u =>
    simp only [loopStep, Option.ite_none_right_eq_some, Option.some.injEq] at hst
    obtain ⟨hr, rfl⟩ := hst
    exact h.userCall hr u
  | connectDestroyed calls =>
    simp only [loopStep, Option.ite_none_right_eq_some, Option.some.injEq] at hst
    obtain ⟨hr, rfl⟩ := hst
    exact h.connectDestroyed hr calls

/-- `down` is followed by something. -/
def Muddled (c : TcpConnection) : Prop :=
  ∃ before x after, c.notes = before ++ .down :: x :: after

theorem step_disturbed {l : LoopStep} (hok : ¬ l.Undisturbed c)
    (hst : loopStep c l = some t) : Muddled t := by
  cases l with
  | handleEvent revents env =>
    simp only [loopStep, Option.ite_none_right_eq_some, Option.some.injEq] at hst
    obtain ⟨-, rfl⟩ := hst
    obtain ⟨x, ns, he⟩ := eventNotes_of_not_undisturbed hok
    exact ⟨c.notes, x, ns, by rw [notes_handleEvent, he]⟩
  | userCall u => exact absurd trivial hok
  | connectDestroyed calls => exact absurd trivial hok

theorem notes_step {l : LoopStep} (hst : loopStep c l = some t) : c.notes <+: t.notes := by
  cases l with
  | handleEvent revents env =>
    simp only [loopStep, Option.ite_none_right_eq_some, Option.some.injEq] at hst
    obtain ⟨-, rfl⟩ := hst
    exact ⟨_, (notes_handleEvent c revents env).symm⟩
  | userCall u =>
    simp only [loopStep, Option.ite_none_right_eq_some, Option.some.injEq] at hst
    obtain ⟨-, rfl⟩ := hst
    exact ((stable_notes c.notes).userCall u rfl) ▸ List.prefix_refl _
  | connectDestroyed calls =>
    simp only [loopStep, Option.ite_none_right_eq_some, Option.some.injEq] at hst
    obtain ⟨-, rfl⟩ := hst
    exact ⟨_, (notes_connectDestroyed c calls).symm⟩

theorem Muddled.step {l : LoopStep} (h : Muddled c) (hst : loopStep c l = some t) :
    Muddled t := by
  obtain ⟨before, x, after, hn⟩ := h
  obtain ⟨more, hm⟩ := notes_step hst
  exact ⟨before, x, after ++ more, by rw [← hm, hn]; simp⟩

theorem Muddled.not_orderly (h : Muddled c) : ¬ Orderly c.notes := by
  obtain ⟨before, x, after, hn⟩ := h
  exact hn ▸ Muduo.not_orderly before after x

/-- The user hears up, messages and down in this order, and nothing after, exactly in
the runs whose events are all undisturbed. -/
theorem notes_orderly_iff {ls : List LoopStep} (hc : Fresh c) (calls : List UserCall)
    (hrun : loopMachine.run (c.connectEstablished calls) ls = some t) :
    Orderly t.notes ↔ loopMachine.Along LoopStep.Undisturbed (c.connectEstablished calls) ls :=
  Machine.run_iff_along (J := Told) (P := fun c => Orderly c.notes) (Q := Muddled)
    (fun _ _ _ hj hok hst => hj.step hok hst) (fun _ _ _ _ hok hst => step_disturbed hok hst)
    (fun _ _ _ hq hst => hq.step hst) (fun _ => Told.orderly) (fun _ => Muddled.not_orderly)
    (told_connectEstablished hc calls) hrun

/-- A message, then the end of the stream. -/
theorem notes_orderly_iff_message_close :
    Orderly (((((new 1 5).connectEstablished []).handleEvent true EPOLLIN
        { read := .received [104, 105] }).handleEvent true EPOLLIN { read := .received [] }).notes) ↔
      loopMachine.Along LoopStep.Undisturbed ((new 1 5).connectEstablished [])
        [.handleEvent EPOLLIN { read := .received [104, 105] },
          .handleEvent EPOLLIN { read := .received [] }] :=
  notes_orderly_iff (fresh_new 1 5) [] rfl

/-- A reset reported as `EPOLLHUP | EPOLLERR` tells the user twice that the connection is
down; an error reported together with unread data lets a message follow. -/
theorem down_twice_and_message_after_down :
    (∃ t, loopMachine.run ((new 1 5).connectEstablished [])
        [.handleEvent (EPOLLHUP ||| EPOLLERR) {}] = some t ∧
      t.notes = [.up, .down, .down] ∧ ¬ Orderly t.notes) ∧
    ∃ t, loopMachine.run ((new 1 5).connectEstablished [])
        [.handleEvent (EPOLLIN ||| EPOLLERR) { read := .received [104] }] = some t ∧
      t.notes = [.up, .down, .message] ∧ ¬ Orderly t.notes := by
  refine ⟨⟨_, rfl, rfl, ?_⟩, ⟨_, rfl, rfl, ?_⟩⟩
  · exact not_orderly [.up] [] .down
  · exact not_orderly [.up] [] .message

end TcpConnection

end Muduo
