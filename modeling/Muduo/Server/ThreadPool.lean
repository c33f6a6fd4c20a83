import Mathlib.Data.Nat.Count
import Muduo.Server.Names
import Muduo.Server.Process

/-!
# The pool of loops

`EventLoopThreadPool` field by field. `start` fills `loops_` with as many loops as
`numThreads_` says, and `getNextLoop` goes round them with a cursor.

Two slips keep it from that. `setThreadNum` assigns its parameter to itself, so
`numThreads_` stays what the constructor made it. And `getNextLoop` wraps its cursor one
call too late, so every round of `N` loops ends with an access behind the vector.
-/

namespace Muduo

/-- An `EventLoopThread` as `start` constructs it. -/
structure PoolThread (Cb : Type*) where
  callback_ : Option Cb
  name_ : List Char
  deriving DecidableEq, Repr

/-- The fields of `EventLoopThreadPool`, and below them the calls made of init callbacks. -/
structure ThreadPool (L Cb : Type*) where
  baseloop_ : L
  name_ : List Char
  started_ : Bool := false
  numThreads_ : Int := 0
  next_ : Nat := 0
  threads_ : List (PoolThread Cb) := []
  loops_ : List L := []
  inits : List (Cb × L) := []

namespace ThreadPool

variable {L Cb : Type*}

def new (baseLoop : L) (nameArg : List Char) : ThreadPool L Cb :=
  { baseloop_ := baseLoop, name_ := nameArg }

/-- `numThreads = numThreads;` is an assignment of the parameter to itself. -/
def setThreadNum (p : ThreadPool L Cb) (_numThreads : Int) : ThreadPool L Cb := p

/-- The init callback is called on a loop, if there is one. -/
def callInit (p : ThreadPool L Cb) (cb : Option Cb) (loop : L) : ThreadPool L Cb :=
  { p with inits := p.inits ++ cb.toList.map (·, loop) }

/-- Round `i` of the loop in `start`. The new thread creates `loop`, calls `callback_` on it
in `threadFunc`, and `startLoop` returns it. -/
def startThread (p : ThreadPool L Cb) (cb : Option Cb) (i : Nat) (loop : L) : ThreadPool L Cb :=
  { p.callInit cb loop with
    threads_ := p.threads_ ++
      [⟨cb, snprintf (p.name_.length + 32) (p.name_ ++ (i : Int).decimal)⟩]
    loops_ := p.loops_ ++ [loop] }

/-- The first `n` rounds; `startLoop i` is what the `i`-th call of `startLoop` returns. -/
def startThreads (p : ThreadPool L Cb) (startLoop : Nat → L) (cb : Option Cb) :
    Nat → ThreadPool L Cb
  | 0 => p
  | n + 1 => (p.startThreads startLoop cb n).startThread cb n (startLoop n)

def start (p : ThreadPool L Cb) (startLoop : Nat → L) (cb : Option Cb) : ThreadPool L Cb :=
  let p := { p with started_ := true }.startThreads startLoop cb p.numThreads_.toNat
  if p.numThreads_ = 0 then p.callInit cb p.baseloop_ else p

def getAllLoops (p : ThreadPool L Cb) : List L :=
  if p.loops_.isEmpty then [p.baseloop_] else p.loops_

/-- The result is `none` where `loops_[next_]` is outside the vector. -/
def getNextLoop (p : ThreadPool L Cb) : Option L × ThreadPool L Cb :=
  if p.loops_.isEmpty then (some p.baseloop_, p)
  else
    let next := p.next_ + 1
    -- the test is `next_ > loops_.size()`
    (p.loops_[p.next_]?, { p with next_ := if p.loops_.length < next then 0 else next })

/-- The pool after `k` calls of `getNextLoop`. -/
def afterCalls (p : ThreadPool L Cb) (k : Nat) : ThreadPool L Cb :=
  (fun p => p.getNextLoop.2)^[k] p

/-- The result of the `k`-th call, counted from zero. -/
def call (p : ThreadPool L Cb) (k : Nat) : Option L := (p.afterCalls k).getNextLoop.1

/-- How many of the first `m` calls returned the loop. -/
def assigned [DecidableEq L] (p : ThreadPool L Cb) (l : L) (m : Nat) : Nat :=
  Nat.count (fun k => p.call k = some l) m

/-! ## Starting the threads -/

theorem startThreads_eq (p : ThreadPool L Cb) (startLoop : Nat → L) (cb : Option Cb) (n : Nat) :
    p.startThreads startLoop cb n = { p with
      threads_ := p.threads_ ++ (List.range n).map fun i =>
        ⟨cb, snprintf (p.name_.length + 32) (p.name_ ++ (i : Int).decimal)⟩
      loops_ := p.loops_ ++ (List.range n).map startLoop
      inits := p.inits ++ ((List.range n).map startLoop).flatMap fun l => cb.toList.map (·, l) } := by
  induction n with
  | zero => simp [startThreads]
  | succ n ih =>
    rw [startThreads, ih]
    simp [startThread, callInit, List.range_succ]

/-- What `start` is to leave behind, for `n` threads. -/
structure Starts (p : ThreadPool L Cb) (startLoop : Nat → L) (cb : Option Cb) (n : Nat) : Prop where
  threads : p.threads_.length = n
  loops : p.loops_ = (List.range n).map startLoop
  inits : p.inits =
    (if n = 0 then [p.baseloop_] else p.loops_).flatMap fun l => cb.toList.map (·, l)
  all : p.getAllLoops = if n = 0 then [p.baseloop_] else p.loops_

/-- The loop in `start` does what it is for, whatever number it finds in `numThreads_`. -/
theorem starts_start (baseLoop : L) (nameArg : List Char) (startLoop : Nat → L) (cb : Option Cb)
    (n : Nat) :
    Starts ({ new baseLoop nameArg with numThreads_ := n }.start startLoop cb) startLoop cb n := by
  simp only [start, startThreads_eq, new, Int.toNat_natCast]
  by_cases hn : n = 0
  · subst hn
    constructor <;> simp [callInit, getAllLoops]
  · constructor <;> simp [getAllLoops, hn]

/-- The number of threads asked for is what `start` starts exactly if it is none. -/
theorem starts_iff (baseLoop : L) (nameArg : List Char) (startLoop : Nat → L) (cb : Option Cb)
    (n : Nat) :
    Starts (((new baseLoop nameArg).setThreadNum n).start startLoop cb) startLoop cb n ↔ n = 0 := by
  have hzero := starts_start baseLoop nameArg startLoop cb 0
  constructor
  · intro h
    exact h.threads.symm.trans hzero.threads
  · rintro rfl
    exact hzero

/-- One thread is asked for, and none is started. -/
theorem setThreadNum_lost :
    ¬ Starts (((new 0 ['s']).setThreadNum 1).start (fun i => i + 1) (some "init")) (fun i => i + 1)
      (some "init") 1 := by
  intro h
  exact absurd h.threads (by decide)

/-! ## Going round -/

variable {p : ThreadPool L Cb}

theorem getNextLoop_eq (hne : p.loops_ ≠ []) :
    p.getNextLoop = (p.loops_[p.next_]?,
      { p with next_ := if p.loops_.length < p.next_ + 1 then 0 else p.next_ + 1 }) := by
  rw [getNextLoop, if_neg (by simpa using hne)]

/-- A call moves the cursor and nothing else. -/
theorem exists_getNextLoop (p : ThreadPool L Cb) : ∃ n, p.getNextLoop.2 = { p with next_ := n } := by
  unfold getNextLoop
  split
  · exact ⟨p.next_, rfl⟩
  · exact ⟨_, rfl⟩

theorem afterCalls_succ (p : ThreadPool L Cb) (k : Nat) :
    p.afterCalls (k + 1) = (p.afterCalls k).getNextLoop.2 := Function.iterate_succ_apply' _ k p

theorem exists_afterCalls (p : ThreadPool L Cb) (k : Nat) :
    ∃ n, p.afterCalls k = { p with next_ := n } := by
  induction k with
  | zero => exact ⟨p.next_, rfl⟩
  | succ k ih =>
    obtain ⟨n, hn⟩ := ih
    obtain ⟨m, hm⟩ := exists_getNextLoop { p with next_ := n }
    exact ⟨m, by rw [afterCalls_succ, hn, hm]⟩

@[simp] theorem loops_afterCalls (p : ThreadPool L Cb) (k : Nat) :
    (p.afterCalls k).loops_ = p.loops_ := by
  obtain ⟨n, hn⟩ := p.exists_afterCalls k
  rw [hn]

/-- The cursor goes round one place more than there are loops. -/
theorem next_afterCalls (hne : p.loops_ ≠ []) (h0 : p.next_ = 0) (k : Nat) :
    (p.afterCalls k).next_ = k % (p.loops_.length + 1) := by
  induction k with
  | zero => simpa [afterCalls] using h0
  | succ k ih =>
    rw [afterCalls_succ, getNextLoop_eq (by simpa using hne), loops_afterCalls]
    simp only [ih]
    rw [← Nat.mod_add_mod k (p.loops_.length + 1) 1]
    have hlt : k % (p.loops_.length + 1) < p.loops_.length + 1 := Nat.mod_lt k (Nat.succ_pos _)
    split
    · have hlast : k % (p.loops_.length + 1) + 1 = p.loops_.length + 1 := by omega
      rw [hlast, Nat.mod_self]
    · have hnext : k % (p.loops_.length + 1) + 1 < p.loops_.length + 1 := by omega
      rw [Nat.mod_eq_of_lt hnext]

theorem call_eq (hne : p.loops_ ≠ []) (h0 : p.next_ = 0) (k : Nat) :
    p.call k = p.loops_[k % (p.loops_.length + 1)]? := by
  rw [call, getNextLoop_eq (by simpa using hne), loops_afterCalls, next_afterCalls hne h0]

/-- The first `n` calls go round the loops, by an index inside the vector, and spread the
connections evenly. -/
structure RoundRobin [DecidableEq L] (p : ThreadPool L Cb) (n : Nat) : Prop where
  results : ∀ k < n, p.call k = p.loops_[k % p.loops_.length]?
  inside : ∀ k < n, (p.afterCalls k).next_ < p.loops_.length
  balanced : ∀ m ≤ n, ∀ l ∈ p.loops_, ∀ l' ∈ p.loops_, p.assigned l m ≤ p.assigned l' m + 1

variable [DecidableEq L]

/-- In the first round no loop comes twice. -/
theorem assigned_le_one (hne : p.loops_ ≠ []) (h0 : p.next_ = 0) (hnodup : p.loops_.Nodup) {m : Nat}
    (hm : m ≤ p.loops_.length) (l : L) : p.assigned l m ≤ 1 := by
  rw [assigned, Nat.count_eq_card_filter_range, Finset.card_le_one]
  intro i hi j hj
  simp only [Finset.mem_filter, Finset.mem_range, call_eq hne h0] at hi hj
  rw [Nat.mod_eq_of_lt (by omega)] at hi hj
  have hil : i < p.loops_.length := by omega
  exact (List.getElem?_inj hil hnodup).mp (hi.2.trans hj.2.symm)

/-- The calls go round exactly as long as there are no more of them than loops. -/
theorem roundRobin_iff_le (hne : p.loops_ ≠ []) (h0 : p.next_ = 0) (hnodup : p.loops_.Nodup)
    (n : Nat) : RoundRobin p n ↔ n ≤ p.loops_.length := by
  constructor
  · intro h
    by_contra hlt
    have hinside := h.inside p.loops_.length (by omega)
    rw [next_afterCalls hne h0, Nat.mod_eq_of_lt (Nat.lt_succ_self _)] at hinside
    exact Nat.lt_irrefl _ hinside
  · intro hn
    constructor
    · intro k hk
      rw [call_eq hne h0, Nat.mod_eq_of_lt (by omega), Nat.mod_eq_of_lt (by omega)]
    · intro k hk
      rw [next_afterCalls hne h0, Nat.mod_eq_of_lt (by omega)]
      omega
    · intro m hm l _ l' _
      have hle := assigned_le_one hne h0 hnodup (hm.trans hn) l
      omega

/-- A pool that `start` has filled with `N` loops hands them out in turn exactly for the
first `N` calls. The next one reads behind the vector. -/
theorem roundRobin_iff (baseLoop : L) (nameArg : List Char) {startLoop : Nat → L}
    (hnew : startLoop.Injective) (cb : Option Cb) {N : Nat} (hN : 0 < N) (n : Nat) :
    RoundRobin ({ new baseLoop nameArg with numThreads_ := N }.start startLoop cb) n ↔ n ≤ N := by
  have hstart := starts_start baseLoop nameArg startLoop cb N
  have hlen : ({ new baseLoop nameArg with numThreads_ := N }.start startLoop cb).loops_.length =
      N := by rw [hstart.loops, List.length_map, List.length_range]
  have hne := List.ne_nil_of_length_pos (hlen ▸ hN)
  have hnodup := hstart.loops ▸ List.nodup_range.map hnew
  have h0 : ({ new baseLoop nameArg with numThreads_ := N }.start startLoop cb).next_ = 0 := by
    simp only [start, startThreads_eq]
    split <;> rfl
  rw [roundRobin_iff_le hne h0 hnodup, hlen]

/-- Two loops and two calls. -/
theorem roundRobin_iff_pair :
    RoundRobin ({ new 0 ['s'] with numThreads_ := 2 }.start (fun i => i + 1) (none : Option String))
      2 :=
  (roundRobin_iff 0 ['s'] (fun _ _ h => Nat.succ.inj h) none Nat.two_pos 2).mpr (Nat.le_refl 2)

/-- With one loop, the second call already reads `loops_[1]`. -/
theorem call_behind_vector :
    ¬ RoundRobin
      ({ new 0 ['s'] with numThreads_ := 1 }.start (fun i => i + 1) (none : Option String)) 2 := by
  intro h
  exact absurd (h.inside 1 (by decide)) (by decide)

/-! ## What a server gets -/

omit [DecidableEq L]

/-- Where a call stays inside the vector, it returns one of the loops that may take
connections. This is what `next_mem` asks of the pool that a server is given. -/
theorem mem_of_call {k : Nat} {l : L} (h : p.call k = some l) :
    l ∈ if p.loops_ = [] then [p.baseloop_] else p.loops_ := by
  obtain ⟨n, hn⟩ := p.exists_afterCalls k
  rw [call, hn] at h
  by_cases he : p.loops_ = []
  · rw [getNextLoop, if_pos (by simp [he])] at h
    rw [if_pos he]
    exact List.mem_singleton.mpr (Option.some.inj h).symm
  · rw [getNextLoop_eq (p := { p with next_ := n }) he] at h
    rw [if_neg he]
    exact List.mem_of_getElem? h

/-- The pool of a server whose own loop takes all connections. -/
def withoutThreads (baseLoop : L) : EventLoopThreadPool L where
  baseloop_ := baseLoop
  loops_ := []
  getNextLoop _ := baseLoop
  base_not_mem := List.not_mem_nil
  next_mem _ := List.mem_singleton_self baseLoop

/-- Whatever number of threads is asked for, this is the pool that a server gets. -/
theorem call_started (baseLoop : L) (nameArg : List Char) (numThreads : Int)
    (startLoop : Nat → L) (cb : Option Cb) (k : Nat) :
    (((new baseLoop nameArg).setThreadNum numThreads).start startLoop cb).call k =
      some ((withoutThreads baseLoop).getNextLoop k) := by
  obtain ⟨n, hn⟩ := exists_afterCalls
    (((new baseLoop nameArg).setThreadNum numThreads).start startLoop cb) k
  rw [call, hn]
  rfl

end ThreadPool

end Muduo
