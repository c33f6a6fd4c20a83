import Muduo.Connection.Stream
import Muduo.EventLoop.Basic

/-!
# The caller's string

Off the loop thread `send` binds `buf.c_str()` and `buf.size()` into the functor, not the
bytes. The functor reads the caller's memory when it runs, twice: once for `::write` and
once for the output buffer. What the caller does to its string until then decides what is
sent.
-/

namespace Muduo

/-- `bind(&TcpConnection::sendInLoop, this, data, len)`; `original` is what the bound
memory held when `send` was called. -/
structure SendFunctor where
  data : Nat
  len : Nat
  original : List UInt8
  deriving DecidableEq, Repr

/-- Allocated memory by address. -/
abbrev Storage := Nat → Option (List UInt8)

/-- The bytes read through the bound pointer; freed or shrunk memory holds anything. -/
def SendFunctor.read (f : SendFunctor) (m : Storage) (garbage : Nat → UInt8) : List UInt8 :=
  match m f.data with
  | some bytes => if f.len ≤ bytes.length then bytes.take f.len else (List.range f.len).map garbage
  | none => (List.range f.len).map garbage

/-- The bound memory is still allocated and holds the original bytes from offset `n` on. -/
def SendFunctor.Kept (f : SendFunctor) (n : Nat) (m : Storage) : Prop :=
  match m f.data with
  | some bytes => f.len ≤ bytes.length ∧ (bytes.take f.len).drop n = f.original.drop n
  | none => f.len ≤ n

instance (f : SendFunctor) (n : Nat) (m : Storage) : Decidable (f.Kept n m) := by
  unfold SendFunctor.Kept
  split <;> infer_instance

/-- Whatever the memory holds, `len` bytes are read. -/
theorem SendFunctor.length_read (f : SendFunctor) (m : Storage) (garbage : Nat → UInt8) :
    (f.read m garbage).length = f.len := by
  unfold read
  split
  · split
    · simpa
    · simp
  · simp

theorem SendFunctor.Kept.drop_read {f : SendFunctor} {n : Nat} {m : Storage} (h : f.Kept n m)
    (hlen : f.original.length = f.len) (garbage : Nat → UInt8) :
    (f.read m garbage).drop n = f.original.drop n := by
  unfold Kept at h
  unfold SendFunctor.read
  split at h
  · rw [if_pos h.1, h.2]
  · rw [List.drop_eq_nil_of_le (by simpa using h), List.drop_eq_nil_of_le (by omega)]

structure CallerBuffer where
  conn : TcpConnection
  memory : Storage := fun _ => none
  queue : FunctorQueue SendFunctor := {}
  /-- the functor between its direct write and its use of the output buffer -/
  running : Option (SendFunctor × TcpConnection.SendProgress) := none
  /-- bytes given to `::write` or to the output buffer, each with the original ones -/
  handed : List (List UInt8 × List UInt8) := []
  /-- the connection if every functor had carried its original bytes -/
  byValue : TcpConnection

inductive CallerLabel where
  /-- `send` on a thread other than the loop's -/
  | send (p len : Nat)
  /-- the caller changes, frees or allocates the memory at `p` -/
  | store (p : Nat) (content : Option (List UInt8))
  | swap
  /-- `sendInLoop` up to the direct write -/
  | start (w : WriteResult) (garbage : Nat → UInt8)
  /-- the rest of it -/
  | finish (garbage : Nat → UInt8)
  /-- anything else that happens to the connection on the loop thread -/
  | other (l : TcpConnection.StreamStep)

namespace CallerBuffer

/-- `sendInLoop` tries the direct write. -/
def writesDirectly (c : TcpConnection) : Bool :=
  !c.channel_.isWriting && c.outputBuffer_.length == 0

/-- `sendInLoop` has bytes left for the output buffer. -/
def buffers (p : TcpConnection.SendProgress) : Bool := !p.faultError && decide (0 < p.remaining)

/-- The part of the data that goes to the output buffer. -/
def rest (data : List UInt8) (p : TcpConnection.SendProgress) : List UInt8 :=
  (data.drop p.nwrote).take p.remaining

def start (s : CallerBuffer) (f : SendFunctor) (w : WriteResult) (garbage : Nat → UInt8) :
    CallerBuffer :=
  if s.conn.state_ = .kDisconnected then s
  else
    let data := f.read s.memory garbage
    { s with
      conn := (s.conn.writeDirect data w).1
      running := some (f, (s.conn.writeDirect data w).2)
      handed := s.handed ++ if writesDirectly s.conn then [(data, f.original)] else [] }

def finish (s : CallerBuffer) (f : SendFunctor) (p : TcpConnection.SendProgress)
    (garbage : Nat → UInt8) : CallerBuffer :=
  let data := f.read s.memory garbage
  { s with
    conn := s.conn.bufferRest data p
    running := none
    handed := s.handed ++ if buffers p then [(rest data p, rest f.original p)] else [] }

def step (s : CallerBuffer) : CallerLabel → Option CallerBuffer
  | .send p len =>
    match s.memory p with
    | some bytes =>
      if s.conn.state_ = .kConnected ∧ len ≤ bytes.length then
        some { s with queue := s.queue.push ⟨p, len, bytes.take len⟩ }
      else none
    | none => none
  | .store p content => some { s with memory := Function.update s.memory p content }
  | .swap =>
    if s.running = none ∧ s.queue.functors = [] then some { s with queue := s.queue.swap } else none
  | .start w garbage =>
    match s.running, s.queue.next with
    | none, some (f, q) =>
      some
        { { s with queue := q }.start f w garbage with
          byValue := s.byValue.sendInLoop f.original w }
    | _, _ => none
  | .finish garbage =>
    match s.running with
    | some (f, p) => some (s.finish f p garbage)
    | none => none
  | .other l =>
    match s.running with
    | none => some { s with conn := s.conn.streamStep l, byValue := s.byValue.streamStep l }
    | some _ => none

def machine : Machine CallerBuffer CallerLabel where
  init s := ∃ c m, TcpConnection.Fresh c ∧
    s = { conn := c.connectEstablished [], memory := m, byValue := c.connectEstablished [] }
  step := step

/-! ## The steps as a relation -/

/-- Every way to move, with its guard. -/
inductive Steps (s : CallerBuffer) : CallerLabel → CallerBuffer → Prop where
  | send {p len : Nat} {bytes : List UInt8} : s.memory p = some bytes → len ≤ bytes.length →
      Steps s (.send p len) { s with queue := s.queue.push ⟨p, len, bytes.take len⟩ }
  | store {p : Nat} {content : Option (List UInt8)} :
      Steps s (.store p content) { s with memory := Function.update s.memory p content }
  | swap : s.queue.functors = [] → Steps s .swap { s with queue := s.queue.swap }
  | start {w : WriteResult} {garbage : Nat → UInt8} {f : SendFunctor}
      {q : FunctorQueue SendFunctor} : s.running = none → s.queue.next = some (f, q) →
      Steps s (.start w garbage)
        { { s with queue := q }.start f w garbage with
          byValue := s.byValue.sendInLoop f.original w }
  | finish {garbage : Nat → UInt8} {f : SendFunctor} {p : TcpConnection.SendProgress} :
      s.running = some (f, p) → Steps s (.finish garbage) (s.finish f p garbage)
  | other {l : TcpConnection.StreamStep} : s.running = none →
      Steps s (.other l) { s with conn := s.conn.streamStep l, byValue := s.byValue.streamStep l }

variable {s t : CallerBuffer} {l : CallerLabel}

theorem step_cases (h : s.step l = some t) : Steps s l t := by
  cases l <;> simp only [step] at h
  case send =>
    split at h
    · simp only [Option.ite_none_right_eq_some, Option.some.injEq] at h
      exact h.2 ▸ .send ‹_› h.1.2
    · contradiction
  case store => exact Option.some.inj h ▸ .store
  case swap =>
    simp only [Option.ite_none_right_eq_some, Option.some.injEq] at h
    exact h.2 ▸ .swap h.1.2
  case start =>
    split at h
    · exact Option.some.inj h ▸ .start ‹_› ‹_›
    · contradiction
  case finish =>
    split at h
    · exact Option.some.inj h ▸ .finish ‹_›
    · contradiction
  case other =>
    split at h
    · exact Option.some.inj h ▸ .other ‹_›
    · contradiction

/-! ## While the caller keeps its string -/

/-- The caller's string still holds its bytes when `::write` reads them, and what is left
of them when the output buffer takes it. -/
def KeepsString (s : CallerBuffer) : CallerLabel → Prop
  | .start _ _ => ∀ f ∈ s.queue.functors.head?, s.conn.state_ ≠ .kDisconnected →
      writesDirectly s.conn = true → f.Kept 0 s.memory
  | .finish _ => ∀ x ∈ s.running, buffers x.2 = true → x.1.Kept x.2.nwrote s.memory
  | _ => True

/-- The functors read what `send` was given, so the connection is where carrying the bytes
would have brought it, up to the rest of a functor still running. -/
structure Sync (s : CallerBuffer) : Prop where
  length : ∀ f ∈ s.queue.all, f.original.length = f.len
  handed : ∀ x ∈ s.handed, x.1 = x.2
  between : s.running = none → s.conn = s.byValue
  within : ∀ f p, s.running = some (f, p) → f.original.length = f.len ∧
    s.byValue = s.conn.bufferRest f.original p

/-- `writeDirect` reads its data only when it writes. -/
theorem writeDirect_congr {c : TcpConnection} {xs ys : List UInt8} (w : WriteResult)
    (hlen : xs.length = ys.length) (h : writesDirectly c = true → xs = ys) :
    c.writeDirect xs w = c.writeDirect ys w := by
  by_cases hw : writesDirectly c = true
  · rw [h hw]
  · have hw' : (!c.channel_.isWriting && c.outputBuffer_.length == 0) = false := by
      simpa [writesDirectly] using hw
    simp [TcpConnection.writeDirect, hw', hlen]

/-- `bufferRest` reads only the part it buffers. -/
theorem bufferRest_congr (c : TcpConnection) {xs ys : List UInt8} {p : TcpConnection.SendProgress}
    (h : buffers p = true → rest xs p = rest ys p) : c.bufferRest xs p = c.bufferRest ys p := by
  unfold TcpConnection.bufferRest
  split
  · have hr : (xs.drop p.nwrote).take p.remaining = (ys.drop p.nwrote).take p.remaining := h ‹_›
    rw [hr]
  · rfl

/-- Bytes handed over under a condition, which are the original ones then. -/
theorem Sync.handed_append (h : Sync s) {p : Prop} [Decidable p] {xs ys : List UInt8}
    (hp : p → xs = ys) :
    ∀ x ∈ s.handed ++ (if p then [(xs, ys)] else []), x.1 = x.2 := by
  intro x hx
  rcases List.mem_append.mp hx with hx | hx
  · exact h.handed x hx
  · split at hx
    · obtain rfl := List.mem_singleton.mp hx
      exact hp ‹_›
    · simp at hx

theorem Sync.start {f : SendFunctor} {q : FunctorQueue SendFunctor} {w : WriteResult}
    {garbage : Nat → UInt8} (h : Sync s) (hr : s.running = none)
    (hn : s.queue.next = some (f, q)) (hok : KeepsString s (.start w garbage)) :
    Sync { { s with queue := q }.start f w garbage with
      byValue := s.byValue.sendInLoop f.original w } := by
  have hall := FunctorQueue.all_next hn
  have hlen : f.original.length = f.len := h.length f (by simp [hall])
  have hq : ∀ g ∈ q.all, g.original.length = g.len := fun g hg => h.length g (by simp [hall, hg])
  have hconn := h.between hr
  by_cases hs : s.conn.state_ = .kDisconnected
  · have hv : s.byValue.sendInLoop f.original w = s.conn := by
      rw [← hconn, TcpConnection.sendInLoop_of_disconnected hs]
    simp only [CallerBuffer.start, hs, if_true, hv]
    exact ⟨hq, h.handed, fun _ => rfl, fun _ _ hf => by simp [hr] at hf⟩
  · have hdata : writesDirectly s.conn = true → f.read s.memory garbage = f.original := by
      intro hw
      have hkept := hok f (by simp [(FunctorQueue.next_eq_some hn).1]) hs hw
      simpa using hkept.drop_read hlen garbage
    have hsame : s.conn.writeDirect (f.read s.memory garbage) w =
        s.conn.writeDirect f.original w :=
      writeDirect_congr w ((f.length_read _ _).trans hlen.symm) hdata
    simp only [CallerBuffer.start, hs, if_false, hsame]
    refine ⟨hq, h.handed_append hdata, by simp, ?_⟩
    · intro g p hg
      obtain ⟨rfl, rfl⟩ := Prod.mk.inj (Option.some.inj hg)
      refine ⟨hlen, ?_⟩
      rw [← hconn, TcpConnection.sendInLoop, if_neg hs]

theorem Sync.finish {f : SendFunctor} {p : TcpConnection.SendProgress} {garbage : Nat → UInt8}
    (h : Sync s) (hr : s.running = some (f, p)) (hok : KeepsString s (.finish garbage)) :
    Sync (s.finish f p garbage) := by
  obtain ⟨hlen, hv⟩ := h.within f p hr
  have hrest : buffers p = true → rest (f.read s.memory garbage) p = rest f.original p := by
    intro hb
    have hkept := hok (f, p) (by simp [hr]) hb
    rw [rest, rest, hkept.drop_read hlen garbage]
  refine ⟨h.length, h.handed_append hrest, ?_, ?_⟩
  · intro _
    exact (bufferRest_congr _ hrest).trans hv.symm
  · intro g p' hg
    simp [CallerBuffer.finish] at hg

theorem Sync.step (h : Sync s) (hok : KeepsString s l) (hst : s.step l = some t) : Sync t := by
  cases step_cases hst with
  | @send p len bytes hm hl =>
    refine ⟨?_, h.handed, h.between, h.within⟩
    intro f hf
    rcases List.mem_append.mp ((FunctorQueue.all_push _ _).symm ▸ hf) with hf | hf
    · exact h.length f hf
    · obtain rfl := List.mem_singleton.mp hf
      simpa using hl
  | store => exact ⟨h.length, h.handed, h.between, h.within⟩
  | swap hf => exact ⟨by rw [FunctorQueue.all_swap _ hf]; exact h.length, h.handed, h.between, h.within⟩
  | start hr hn => exact h.start hr hn hok
  | finish hr => exact h.finish hr hok
  | other hr =>
    refine ⟨h.length, h.handed, ?_, ?_⟩
    · intro hr'
      exact congrArg (TcpConnection.streamStep · _) (h.between hr')
    · intro f p hf
      simp [hr] at hf

/-- Every byte handed to `::write` or to the output buffer is the one `send` was called
with, and between functors the connection is as if the functors carried their bytes. -/
theorem transmits_original (h : machine.Reach KeepsString s) :
    (∀ x ∈ s.handed, x.1 = x.2) ∧ (s.running = none → s.conn = s.byValue) := by
  have hsync : Sync s := by
    refine h.invariant (I := Sync) ?_ ?_
    · rintro s ⟨c, m, hc, rfl⟩
      exact ⟨by simp [FunctorQueue.all], by simp, fun _ => rfl, by simp⟩
    · intro s l t hs hok hst
      exact hs.step hok hst
  exact ⟨hsync.handed, hsync.between⟩

/-- The caller overwrites its string once `sendInLoop` has returned: one byte was written at
once and one buffered, both from the original. -/
theorem transmits_original_when_kept :
    ∃ s, machine.Reach KeepsString s ∧ s.handed = [([104, 105], [104, 105]), ([105], [105])] ∧
      (∀ x ∈ s.handed, x.1 = x.2) ∧ (s.running = none → s.conn = s.byValue) := by
  have h₀ : machine.Reach KeepsString
      { conn := (TcpConnection.new 1 5).connectEstablished []
        memory := fun p => if p = 0 then some [104, 105] else none
        byValue := (TcpConnection.new 1 5).connectEstablished [] } :=
    .init ⟨_, _, TcpConnection.fresh_new 1 5, rfl⟩
  have h₁ := h₀.step (.send 0 2) (by trivial) rfl
  have h₂ := h₁.step .swap (by trivial) rfl
  have h₃ := h₂.step (.start (.wrote 1) fun _ => 0)
    (by exact fun f hf _ _ => Option.some.inj hf ▸ by decide) rfl
  have h₄ := h₃.step (.finish fun _ => 0)
    (by exact fun x hx _ => Option.some.inj hx ▸ by decide) rfl
  have h₅ := h₄.step (.store 0 (some [111, 107])) (by trivial) rfl
  exact ⟨_, h₅, rfl, transmits_original h₅⟩

/-- The caller overwrites its string while the functor is queued, or frees it after the
direct write: other bytes are written, or buffered. -/
theorem transmits_other_bytes :
    (∃ s, machine.run
        { conn := (TcpConnection.new 1 5).connectEstablished []
          memory := fun p => if p = 0 then some [104, 105] else none
          byValue := (TcpConnection.new 1 5).connectEstablished [] }
        [.send 0 2, .store 0 (some [111, 107]), .swap, .start (.wrote 2) fun _ => 0] = some s ∧
      s.handed = [([111, 107], [104, 105])] ∧
      s.conn.effects = [.connectionCallback true, .write [111, 107]]) ∧
    ∃ s, machine.run
        { conn := (TcpConnection.new 1 5).connectEstablished []
          memory := fun p => if p = 0 then some [104, 105] else none
          byValue := (TcpConnection.new 1 5).connectEstablished [] }
        [.send 0 2, .swap, .start (.wrote 1) (fun _ => 0), .store 0 none,
          .finish fun _ => 0] = some s ∧
      s.conn.outputBuffer_ = [0] ∧ s.byValue.outputBuffer_ = [105] :=
  ⟨⟨_, rfl, rfl, rfl⟩, ⟨_, rfl, rfl, rfl⟩⟩

end CallerBuffer

end Muduo
