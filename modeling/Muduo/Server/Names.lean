import Mathlib.Data.List.AList
import Mathlib.Data.Nat.ModEq
import Muduo.Library.Decimal
import Muduo.Library.Machine
import Muduo.Server.Basic

/-!
# The names of connections

`connections_` finds a connection by its name, which `newConnection` prints from the
server's name and address and from `nextConnId_`. The printed names fit their buffer and
differ as long as the counter does. But the counter has 32 bits: after `2 ^ 32` accepted
connections a name comes up again, and a connection that has lived that long loses its
entry to the new one.
-/

namespace Muduo

/-! ## Printing -/

/-- `snprintf` into a buffer: the text, as far as it fits before the final zero byte. -/
def snprintf (size : Nat) (text : List Char) : List Char := text.take (size - 1)

/-- The four bytes of an IPv4 address and the port. -/
structure InetAddress where
  sin_addr : BitVec 8 × BitVec 8 × BitVec 8 × BitVec 8
  sin_port : BitVec 16
  deriving DecidableEq, Repr

namespace InetAddress

/-- What `inet_ntop` writes. -/
def toIp (a : InetAddress) : List Char :=
  a.sin_addr.1.toNat.decimal ++ '.' :: a.sin_addr.2.1.toNat.decimal ++
    '.' :: a.sin_addr.2.2.1.toNat.decimal ++ '.' :: a.sin_addr.2.2.2.toNat.decimal

def toIpPort (a : InetAddress) : List Char :=
  a.toIp ++ snprintf (64 - a.toIp.length) (':' :: a.sin_port.toNat.decimal)

theorem length_octet (b : BitVec 8) : b.toNat.decimal.length ≤ 3 :=
  Nat.length_decimal_le (by decide) (by have := b.isLt; omega)

theorem length_toIp (a : InetAddress) : a.toIp.length ≤ 15 := by
  have h₁ := length_octet a.sin_addr.1
  have h₂ := length_octet a.sin_addr.2.1
  have h₃ := length_octet a.sin_addr.2.2.1
  have h₄ := length_octet a.sin_addr.2.2.2
  simp only [toIp, List.length_append, List.length_cons]
  omega

theorem length_toIpPort (a : InetAddress) : a.toIpPort.length ≤ 21 := by
  have hip := a.length_toIp
  have hport : a.sin_port.toNat.decimal.length ≤ 5 :=
    Nat.length_decimal_le (by decide) (by have := a.sin_port.isLt; omega)
  simp only [toIpPort, snprintf, List.length_append, List.length_take, List.length_cons]
  omega

end InetAddress

/-- `name_ + buf` of `newConnection`. -/
def connName (name_ ipPort_ : List Char) (nextConnId_ : BitVec 32) : List Char :=
  name_ ++ snprintf 64 ('-' :: ipPort_ ++ '#' :: nextConnId_.toInt.decimal)

/-- Nothing is cut off, so the names of a server differ where the numbers do. -/
theorem connName_inj {name_ ipPort_ : List Char} (h : ipPort_.length ≤ 21) {i j : BitVec 32} :
    connName name_ ipPort_ i = connName name_ ipPort_ j ↔ i = j := by
  have hfits : ∀ i : BitVec 32, snprintf 64 ('-' :: ipPort_ ++ '#' :: i.toInt.decimal) =
      '-' :: ipPort_ ++ '#' :: i.toInt.decimal := by
    intro i
    have hi : i.toInt.decimal.length ≤ 11 := by
      refine Int.length_decimal_le (k := 10) (by decide) ?_
      have hlt := i.toInt_lt
      have hle := i.le_toInt
      omega
    refine List.take_of_length_le ?_
    simp only [List.length_append, List.length_cons]
    omega
  rw [connName, connName, hfits, hfits, List.append_cancel_left_eq, List.append_cancel_left_eq,
    List.cons.injEq, Int.decimal_injective.eq_iff, BitVec.toInt_inj]
  simp

/-! ## The map of connections -/

/-- The part of `TcpServer` that names connections and finds them again. A connection is
known by the number of connections accepted before it. -/
structure NamedServer where
  name_ : List Char
  ipPort_ : List Char
  nextConnId_ : BitVec 32 := 1
  connections_ : AList fun _ : List Char => ConnId := ∅
  /-- the names of all connections accepted so far -/
  accepted : List (List Char) := []
  /-- those for which `removeConnectionInLoop` has run -/
  removed : List ConnId := []

/-- Steps of the base loop. -/
inductive NameLabel where
  | newConnection
  | removeConnectionInLoop (conn : ConnId)
  deriving DecidableEq, Repr

namespace NamedServer

/-- `++nextConnId_` past `INT_MAX` is taken to wrap, as it does where the program is built. -/
def newConnection (s : NamedServer) : NamedServer :=
  let name := connName s.name_ s.ipPort_ s.nextConnId_
  { s with
    nextConnId_ := s.nextConnId_ + 1
    connections_ := s.connections_.insert name s.accepted.length
    accepted := s.accepted ++ [name] }

def step (s : NamedServer) : NameLabel → Option NamedServer
  | .newConnection => some s.newConnection
  | .removeConnectionInLoop conn =>
    match s.accepted[conn]? with
    | some name =>
      some { s with connections_ := s.connections_.erase name, removed := s.removed ++ [conn] }
    | none => none

/-- A server as constructed. -/
def start (name : List Char) (listenAddr : InetAddress) : NamedServer where
  name_ := name
  ipPort_ := listenAddr.toIpPort

def machine : Machine NamedServer NameLabel where
  init s := ∃ name listenAddr, s = start name listenAddr
  step := step

/-- Accepted and not yet removed. -/
def Live (s : NamedServer) (conn : ConnId) : Prop :=
  conn < s.accepted.length ∧ conn ∉ s.removed

/-- The map holds exactly the live connections, each under its own name. -/
def HoldsLive (s : NamedServer) : Prop :=
  ∀ name conn, s.connections_.lookup name = some conn ↔
    s.Live conn ∧ s.accepted[conn]? = some name

/-- A name is not given to a second connection while the first is live, nor does a
connection come to be removed once its name is that of a live one. -/
def NamesApart (s : NamedServer) : NameLabel → Prop
  | .newConnection => ∀ conn, s.Live conn → ¬ conn ≡ s.accepted.length [MOD 2 ^ 32]
  | .removeConnectionInLoop conn =>
    ∀ other, s.Live other → other ≠ conn → ¬ other ≡ conn [MOD 2 ^ 32]

/-- The name of a connection by the number of those before it. -/
def nameOf (s : NamedServer) (conn : ConnId) : List Char :=
  connName s.name_ s.ipPort_ (BitVec.ofNat 32 (conn + 1))

/-- Names are given out by number. -/
structure Numbered (s : NamedServer) : Prop where
  fits : s.ipPort_.length ≤ 21
  next : s.nextConnId_ = BitVec.ofNat 32 (s.accepted.length + 1)
  name : ∀ conn name, s.accepted[conn]? = some name ↔
    conn < s.accepted.length ∧ s.nameOf conn = name
  removed : ∀ conn ∈ s.removed, conn < s.accepted.length

variable {s t : NamedServer} {l : NameLabel}

theorem numbered_start (name : List Char) (listenAddr : InetAddress) :
    Numbered (start name listenAddr) :=
  ⟨listenAddr.length_toIpPort, rfl, by simp [start], by simp [start]⟩

/-- Two connections have the same name exactly if a multiple of `2 ^ 32` lies between them. -/
theorem Numbered.nameOf_inj (h : Numbered s) {i j : ConnId} :
    s.nameOf i = s.nameOf j ↔ i ≡ j [MOD 2 ^ 32] := by
  rw [nameOf, nameOf, connName_inj h.fits, ← BitVec.toNat_inj, BitVec.toNat_ofNat,
    BitVec.toNat_ofNat]
  exact ⟨Nat.ModEq.add_right_cancel' 1, Nat.ModEq.add_right 1⟩

theorem Numbered.newConnection_eq (h : Numbered s) :
    s.newConnection =
      { s with
        nextConnId_ := s.nextConnId_ + 1
        connections_ := s.connections_.insert (s.nameOf s.accepted.length) s.accepted.length
        accepted := s.accepted ++ [s.nameOf s.accepted.length] } := by
  rw [newConnection, h.next]
  rfl

/-- The two ways to move. -/
inductive Steps (s : NamedServer) : NameLabel → NamedServer → Prop where
  | newConnection : Steps s .newConnection s.newConnection
  | removeConnectionInLoop {conn : ConnId} {name : List Char} : s.accepted[conn]? = some name →
      Steps s (.removeConnectionInLoop conn)
        { s with connections_ := s.connections_.erase name, removed := s.removed ++ [conn] }

theorem step_cases (h : s.step l = some t) : Steps s l t := by
  cases l with
  | newConnection => exact Option.some.inj h ▸ .newConnection
  | removeConnectionInLoop conn =>
    simp only [step] at h
    split at h
    · exact Option.some.inj h ▸ .removeConnectionInLoop ‹_›
    · contradiction

theorem Numbered.step (h : Numbered s) (hst : s.step l = some t) : Numbered t := by
  cases step_cases hst with
  | newConnection =>
    rw [h.newConnection_eq]
    refine ⟨h.fits, ?_, ?_, ?_⟩
    · simp only [h.next, List.length_append, List.length_singleton]
      exact (BitVec.ofNat_add (s.accepted.length + 1) 1).symm
    · intro conn name
      rw [List.length_append, List.length_singleton]
      rcases Nat.lt_trichotomy conn s.accepted.length with hc | rfl | hc
      · rw [List.getElem?_append_left hc, h.name]
        exact and_congr_left fun _ => iff_of_true hc (Nat.lt_succ_of_lt hc)
      · simp [nameOf]
      · rw [List.getElem?_append_right hc.le]
        simp [Nat.sub_ne_zero_of_lt hc, Nat.not_lt.mpr (Nat.succ_le_of_lt hc)]
    · intro conn hc
      simpa using Nat.lt_succ_of_lt (h.removed conn hc)
  | removeConnectionInLoop hn =>
    refine ⟨h.fits, h.next, h.name, ?_⟩
    intro conn hc
    rcases List.mem_append.mp hc with hc | hc
    · exact h.removed conn hc
    · rw [List.mem_singleton.mp hc]
      exact ((h.name _ _).mp hn).1

/-! ## Every run -/

/-- The new connection gets an entry, and the others keep theirs. -/
theorem HoldsLive.newConnection (h : HoldsLive s) (hn : Numbered s)
    (hok : NamesApart s .newConnection) : HoldsLive s.newConnection := by
  rw [hn.newConnection_eq]
  have hfresh : s.accepted.length ∉ s.removed := by
    intro hr
    exact absurd (hn.removed _ hr) (Nat.lt_irrefl _)
  intro name conn
  simp only [Live, List.length_append, List.length_singleton]
  by_cases hname : name = s.nameOf s.accepted.length
  · subst hname
    rw [AList.lookup_insert, Option.some.injEq]
    constructor
    · rintro rfl
      exact ⟨⟨Nat.lt_succ_self _, hfresh⟩, by simp⟩
    · rintro ⟨⟨hlt, hr⟩, hc⟩
      rcases Nat.lt_succ_iff_lt_or_eq.mp hlt with hlt | rfl
      · rw [List.getElem?_append_left hlt, hn.name] at hc
        exact absurd (hn.nameOf_inj.mp hc.2) (hok conn ⟨hlt, hr⟩)
      · rfl
  · rw [AList.lookup_insert_ne hname, h name conn, Live]
    rcases Nat.lt_trichotomy conn s.accepted.length with hc | rfl | hc
    · rw [List.getElem?_append_left hc]
      exact and_congr_left fun _ => and_congr_left fun _ =>
        iff_of_true hc (Nat.lt_succ_of_lt hc)
    · simp [Ne.symm hname]
    · rw [List.getElem?_append_right hc.le]
      simp [Nat.not_lt.mpr hc.le, Nat.not_lt.mpr (Nat.succ_le_of_lt hc)]

/-- The connection's own entry goes, and no other. -/
theorem HoldsLive.remove (h : HoldsLive s) (hn : Numbered s) {conn : ConnId} {name : List Char}
    (hc : s.accepted[conn]? = some name) (hok : NamesApart s (.removeConnectionInLoop conn)) :
    HoldsLive { s with
      connections_ := s.connections_.erase name, removed := s.removed ++ [conn] } := by
  intro m other
  have hlive : Live { s with
      connections_ := s.connections_.erase name, removed := s.removed ++ [conn] } other ↔
      s.Live other ∧ other ≠ conn := by
    simp [Live, not_or, and_assoc]
  rw [hlive]
  by_cases hm : m = name
  · subst hm
    rw [AList.lookup_erase]
    refine iff_of_false (by simp) ?_
    rintro ⟨⟨ho, hne⟩, hother⟩
    have hsame := ((hn.name _ _).mp hother).2.trans ((hn.name _ _).mp hc).2.symm
    exact hok other ho hne (hn.nameOf_inj.mp hsame)
  · rw [AList.lookup_erase_ne hm, h m other]
    have hne : s.accepted[other]? = some m → other ≠ conn := by
      rintro hother rfl
      exact hm (Option.some.inj (hother.symm.trans hc))
    tauto

theorem HoldsLive.step (h : HoldsLive s) (hn : Numbered s) (hok : NamesApart s l)
    (hst : s.step l = some t) : HoldsLive t := by
  cases step_cases hst with
  | newConnection => exact h.newConnection hn hok
  | removeConnectionInLoop hc => exact h.remove hn hc hok

/-- A live connection whose name is used again is lost from the map. -/
theorem not_holdsLive_of_clash (hn : Numbered s) (hok : ¬ NamesApart s l)
    (hst : s.step l = some t) : ¬ HoldsLive t := by
  intro ht
  cases step_cases hst with
  | newConnection =>
    simp only [NamesApart, not_forall, not_not] at hok
    obtain ⟨conn, hlive, hclash⟩ := hok
    rw [hn.newConnection_eq] at ht
    have hname := hn.nameOf_inj.mpr hclash
    have hentry := (ht (s.nameOf s.accepted.length) conn).mpr ⟨⟨?_, hlive.2⟩, ?_⟩
    · rw [AList.lookup_insert, Option.some.injEq] at hentry
      exact absurd hlive.1 (hentry ▸ Nat.lt_irrefl _)
    · simpa using Nat.lt_succ_of_lt hlive.1
    · rw [List.getElem?_append_left hlive.1, hn.name]
      exact ⟨hlive.1, hname⟩
  | @removeConnectionInLoop conn name hc =>
    simp only [NamesApart, not_forall, not_not] at hok
    obtain ⟨other, hlive, hne, hclash⟩ := hok
    have hname := (hn.nameOf_inj.mpr hclash).trans ((hn.name _ _).mp hc).2
    have hentry := (ht name other).mpr ⟨⟨hlive.1, ?_⟩, (hn.name _ _).mpr ⟨hlive.1, hname⟩⟩
    · rw [AList.lookup_erase] at hentry
      contradiction
    · simpa [hne] using hlive.2

/-- Throughout a run the map holds exactly the live connections, exactly if the run keeps the
names of live connections apart. -/
theorem holds_live_iff {name : List Char} {listenAddr : InetAddress} {ls : List NameLabel}
    (hrun : machine.run (start name listenAddr) ls = some t) :
    machine.Throughout HoldsLive (start name listenAddr) ls ↔
      machine.Along NamesApart (start name listenAddr) ls := by
  refine Machine.throughout_iff_along (J := fun s => Numbered s ∧ HoldsLive s) ?_ ?_
    (fun _ h => h.2) ⟨numbered_start name listenAddr, ?_⟩ hrun
  · rintro s l t ⟨hn, h⟩ hok hst
    exact ⟨hn.step hst, h.step hn hok hst⟩
  · rintro s l t ⟨hn, -⟩ hok hst
    exact not_holdsLive_of_clash hn hok hst
  · intro name conn
    simp [start, Live]

/-- Two connections come and one of them goes. -/
theorem holds_live_iff_short :
    ∃ t, machine.run (start ['s'] ⟨(127, 0, 0, 1), 80⟩)
        [.newConnection, .newConnection, .removeConnectionInLoop 0] = some t ∧
      (machine.Throughout HoldsLive (start ['s'] ⟨(127, 0, 0, 1), 80⟩)
          [.newConnection, .newConnection, .removeConnectionInLoop 0] ↔
        machine.Along NamesApart (start ['s'] ⟨(127, 0, 0, 1), 80⟩)
          [.newConnection, .newConnection, .removeConnectionInLoop 0]) :=
  ⟨_, rfl, holds_live_iff rfl⟩

/-- As long as fewer than `2 ^ 32` connections have been accepted, names stay apart. -/
theorem namesApart_of_few (hn : Numbered s) (hfew : s.accepted.length < 2 ^ 32)
    (hst : s.step l = some t) : NamesApart s l := by
  cases step_cases hst with
  | newConnection =>
    intro conn hlive hclash
    have heq := hclash.eq_of_lt_of_lt (hlive.1.trans hfew) hfew
    exact absurd hlive.1 (heq ▸ Nat.lt_irrefl _)
  | removeConnectionInLoop hc =>
    intro other hlive hne hclash
    have hlt := ((hn.name _ _).mp hc).1
    exact hne (hclash.eq_of_lt_of_lt (hlive.1.trans hfew) (hlt.trans hfew))

/-- Before the counter comes round nothing has to be asked of a run: the map holds exactly the
live connections. The runs that lose an entry are longer than that. -/
theorem holdsLive_of_few (h : machine.Reach (fun s _ => s.accepted.length < 2 ^ 32) s) :
    HoldsLive s := by
  have hinv : Numbered s ∧ HoldsLive s := by
    refine h.invariant (I := fun s => Numbered s ∧ HoldsLive s) ?_ ?_
    · rintro s ⟨name, listenAddr, rfl⟩
      refine ⟨numbered_start name listenAddr, ?_⟩
      intro name conn
      simp [start, Live]
    · rintro s l t ⟨hn, h⟩ hfew hst
      exact ⟨hn.step hst, h.step hn (namesApart_of_few hn hfew hst) hst⟩
  exact hinv.2

/-! ## A long-lived connection -/

/-- The first connection stays, and `n` others come and go. -/
def churn : Nat → List NameLabel
  | 0 => [.newConnection]
  | n + 1 => churn n ++ [.newConnection, .removeConnectionInLoop (n + 1)]

/-- After that the first connection is the only live one. -/
theorem run_churn (name : List Char) (listenAddr : InetAddress) (n : Nat) :
    ∃ s, machine.run (start name listenAddr) (churn n) = some s ∧ Numbered s ∧
      s.accepted.length = n + 1 ∧ 0 ∉ s.removed := by
  induction n with
  | zero =>
    have hst : (start name listenAddr).step .newConnection =
        some (start name listenAddr).newConnection := rfl
    exact ⟨_, rfl, (numbered_start name listenAddr).step hst, rfl, by simp [newConnection, start]⟩
  | succ n ih =>
    obtain ⟨s, hrun, hn, hlen, hr⟩ := ih
    have hnew : s.step .newConnection = some s.newConnection := rfl
    have hn' := hn.step hnew
    have hname : s.newConnection.accepted[n + 1]? = some (s.newConnection.nameOf (n + 1)) := by
      rw [hn'.name]
      exact ⟨by simp [newConnection, hlen], rfl⟩
    have hrem : s.newConnection.step (.removeConnectionInLoop (n + 1)) =
        some { s.newConnection with
          connections_ := s.newConnection.connections_.erase (s.newConnection.nameOf (n + 1))
          removed := s.newConnection.removed ++ [n + 1] } := by
      simp only [step, hname]
    refine ⟨_, ?_, hn'.step hrem, ?_, ?_⟩
    · rw [churn, Machine.run_append, hrun]
      simp only [Option.bind_some, Machine.run, machine, hnew, hrem]
    · simp [newConnection, hlen]
    · simpa [newConnection] using hr

/-- The connection accepted first is still live when the counter comes round, and loses its
entry to a new connection. -/
theorem live_entry_overwritten :
    ∃ t name, machine.run (start ['s'] ⟨(127, 0, 0, 1), 80⟩)
        (churn (2 ^ 32 - 1) ++ [.newConnection]) = some t ∧
      t.Live 0 ∧ t.accepted[0]? = some name ∧ t.connections_.lookup name = some (2 ^ 32) ∧
      ¬ HoldsLive t := by
  obtain ⟨s, hrun, hn, hlen, hr⟩ := run_churn ['s'] ⟨(127, 0, 0, 1), 80⟩ (2 ^ 32 - 1)
  have hlen : s.accepted.length = 2 ^ 32 := hlen
  have hlive : s.Live 0 := ⟨by rw [hlen]; decide, hr⟩
  have hclash : ¬ NamesApart s .newConnection := by
    intro hok
    exact hok 0 hlive (by rw [hlen]; decide)
  have hst : s.step .newConnection = some s.newConnection := rfl
  have hn' := hn.step hst
  have hname : s.nameOf 0 = s.nameOf s.accepted.length := by
    rw [hn.nameOf_inj, hlen]
    decide
  refine ⟨s.newConnection, s.nameOf 0, ?_, ⟨?_, hlive.2⟩, ?_, ?_, not_holdsLive_of_clash hn hclash hst⟩
  · rw [Machine.run_append, hrun]
    rfl
  · simp [newConnection]
  · rw [hn'.name]
    exact ⟨by simp [newConnection], rfl⟩
  · rw [hn.newConnection_eq, hname, AList.lookup_insert, hlen]

end NamedServer

end Muduo
