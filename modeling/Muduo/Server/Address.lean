import Mathlib.Data.List.TakeWhile
import Muduo.Library.Numeral
import Muduo.Server.Names

/-!
# Addresses as text

The constructor of `InetAddress` reads an address with `inet_addr`, which knows more
spellings than the one that `toIp` prints. What is printed is read back as it was. Text that
is no address makes no difference to the caller: it is read as `255.255.255.255`.
-/

namespace Muduo

/-- Where `inet_addr` stops reading: at the end of the C string, or at a blank. -/
def endsAddress (c : Char) : Bool :=
  c.toNat == 0 || c.toNat == 32 || (9 ≤ c.toNat && c.toNat ≤ 13)

namespace InetAddress

/-- The parts of an address. The last one fills the bytes that the others leave. -/
def ofParts? : List Nat → Option Nat
  | [d] => if d < 2 ^ 32 then some d else none
  | [a, d] => if a < 256 ∧ d < 2 ^ 24 then some (a * 2 ^ 24 + d) else none
  | [a, b, d] =>
    if a < 256 ∧ b < 256 ∧ d < 2 ^ 16 then some (a * 2 ^ 24 + b * 2 ^ 16 + d) else none
  | [a, b, c, d] =>
    if a < 256 ∧ b < 256 ∧ c < 256 ∧ d < 256 then
      some (a * 2 ^ 24 + b * 2 ^ 16 + c * 2 ^ 8 + d)
    else none
  | _ => none

/-- The bytes of an address in network order. -/
def octets (n : Nat) : BitVec 8 × BitVec 8 × BitVec 8 × BitVec 8 :=
  (.ofNat 8 (n / 2 ^ 24), .ofNat 8 (n / 2 ^ 16), .ofNat 8 (n / 2 ^ 8), .ofNat 8 n)

/-- The value that `inet_addr` returns for text that is no address. -/
def INADDR_NONE : Nat := 2 ^ 32 - 1

def inet_addr (cp : List Char) : BitVec 8 × BitVec 8 × BitVec 8 × BitVec 8 :=
  let text := cp.takeWhile fun c => !endsAddress c
  octets ((((text.splitOn '.').mapM Numeral.value?).bind ofParts?).getD INADDR_NONE)

/-- The constructor. -/
def new (port : BitVec 16) (ip : List Char) : InetAddress := ⟨inet_addr ip, port⟩

theorem octets_ofParts (a b c d : BitVec 8) :
    octets (a.toNat * 2 ^ 24 + b.toNat * 2 ^ 16 + c.toNat * 2 ^ 8 + d.toNat) = (a, b, c, d) := by
  have ha := a.isLt
  have hb := b.isLt
  have hc := c.isLt
  have hd := d.isLt
  simp only [octets, Prod.mk.injEq]
  refine ⟨?_, ?_, ?_, ?_⟩ <;> refine BitVec.eq_of_toNat_eq ?_ <;> rw [BitVec.toNat_ofNat] <;>
    omega

theorem not_mem_decimal {c : Char} (hc : c.isDigit = false) (n : Nat) : c ∉ n.decimal := by
  intro h
  have hd := Nat.isDigit_of_mem_toDigits (by decide) (by decide) h
  simp [hc] at hd

/-- `toIp` prints four numerals with dots between them. -/
theorem toIp_eq (a : InetAddress) :
    a.toIp = a.sin_addr.1.toNat.decimal ++ '.' :: (a.sin_addr.2.1.toNat.decimal ++
      '.' :: (a.sin_addr.2.2.1.toNat.decimal ++ '.' :: a.sin_addr.2.2.2.toNat.decimal)) := by
  simp [toIp]

theorem splitOn_toIp (a : InetAddress) :
    a.toIp.splitOn '.' = [a.sin_addr.1.toNat.decimal, a.sin_addr.2.1.toNat.decimal,
      a.sin_addr.2.2.1.toNat.decimal, a.sin_addr.2.2.2.toNat.decimal] := by
  have hdot : ∀ n : Nat, '.' ∉ n.decimal := not_mem_decimal (by decide)
  rw [toIp_eq, List.splitOn_append_cons_self_of_not_mem (hdot _),
    List.splitOn_append_cons_self_of_not_mem (hdot _),
    List.splitOn_append_cons_self_of_not_mem (hdot _), List.splitOn_eq_singleton (hdot _)]

theorem mem_toIp {a : InetAddress} {c : Char} (h : c ∈ a.toIp) : c.isDigit = true ∨ c = '.' := by
  have hd : ∀ n : Nat, c ∈ n.decimal → c.isDigit = true := fun n hn =>
    Nat.isDigit_of_mem_toDigits (by decide) (by decide) hn
  rw [toIp_eq] at h
  simp only [List.mem_append, List.mem_cons] at h
  grind

theorem takeWhile_toIp (a : InetAddress) : a.toIp.takeWhile (fun c => !endsAddress c) = a.toIp := by
  rw [List.takeWhile_eq_self_iff]
  intro c hc
  rcases mem_toIp hc with hd | rfl
  · obtain ⟨hlo, -⟩ := Char.isDigit_iff_toNat.mp hd
    simp only [Char.reduceToNat] at hlo
    simp only [endsAddress, Bool.not_eq_true', Bool.or_eq_false_iff, beq_eq_false_iff_ne,
      Bool.and_eq_false_iff, decide_eq_false_iff_not]
    omega
  · decide

/-- What `toIp` prints, the constructor reads back. -/
theorem new_toIp (a : InetAddress) : new a.sin_port a.toIp = a := by
  have hlt : ∀ b : BitVec 8, b.toNat < 256 := fun b => b.isLt
  have hparts : ofParts? [a.sin_addr.1.toNat, a.sin_addr.2.1.toNat, a.sin_addr.2.2.1.toNat,
      a.sin_addr.2.2.2.toNat] = some (a.sin_addr.1.toNat * 2 ^ 24 +
        a.sin_addr.2.1.toNat * 2 ^ 16 + a.sin_addr.2.2.1.toNat * 2 ^ 8 +
        a.sin_addr.2.2.2.toNat) := by
    simp [ofParts?, hlt]
  have haddr : inet_addr a.toIp = a.sin_addr := by
    simp only [inet_addr, takeWhile_toIp, splitOn_toIp]
    simp only [List.mapM_cons, List.mapM_nil, Numeral.value?_decimal, Option.pure_def,
      Option.bind_eq_bind, Option.bind_some, hparts, Option.getD_some]
    exact octets_ofParts ..
  rw [new, haddr]

/-- Address and port fit their buffer, so nothing is cut off. -/
theorem toIpPort_eq (a : InetAddress) : a.toIpPort = a.toIp ++ ':' :: a.sin_port.toNat.decimal := by
  have hip := a.length_toIp
  have hport : a.sin_port.toNat.decimal.length ≤ 5 :=
    Nat.length_decimal_le (by decide) (by have := a.sin_port.isLt; omega)
  rw [toIpPort, snprintf, List.take_of_length_le]
  rw [List.length_cons]
  omega

theorem splitOn_toIpPort (a : InetAddress) :
    a.toIpPort.splitOn ':' = [a.toIp, a.sin_port.toNat.decimal] := by
  have hip : ':' ∉ a.toIp := by
    intro h
    rcases mem_toIp h with h | h <;> contradiction
  rw [toIpPort_eq, List.splitOn_append_cons_self_of_not_mem hip,
    List.splitOn_eq_singleton (not_mem_decimal (by decide) _)]

/-- The text determines the address: `toIp` is read back by the constructor, `toIpPort` is `toIp`
and the port in full, and it differs for different addresses and ports. -/
theorem text_determines (a b : InetAddress) :
    new a.sin_port a.toIp = a ∧ a.toIpPort = a.toIp ++ ':' :: a.sin_port.toNat.decimal ∧
      (a.toIpPort = b.toIpPort ↔ a = b) := by
  refine ⟨new_toIp a, toIpPort_eq a, ?_, congrArg toIpPort⟩
  intro h
  have hsplit := congrArg (List.splitOn ':') h
  rw [splitOn_toIpPort, splitOn_toIpPort] at hsplit
  simp only [List.cons.injEq, and_true] at hsplit
  have hport := BitVec.eq_of_toNat_eq (Nat.decimal_injective hsplit.2)
  rw [← new_toIp a, ← new_toIp b, hsplit.1, hport]

/-- Spellings that `toIp` does not print, and text that is no address. -/
example :
    new 80 "0x7f.1".toList = new 80 "127.0.0.1".toList ∧
      new 80 "010.1 ".toList = new 80 "8.0.0.1".toList ∧
      (new 80 "localhost".toList).toIp = "255.255.255.255".toList := by
  decide

end InetAddress

end Muduo
