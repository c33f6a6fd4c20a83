import Mathlib.Data.Nat.Digits.Defs
import Mathlib.Data.BitVec

/-!
# Decimal numerals

Numbers as they are printed: the digits of a natural number, and a sign before those of
a negative integer. A numeral determines its number, and its length is bounded by the
size of the number.
-/

/-- The numeral of a natural number, without leading zeros. -/
def Nat.decimal (n : Nat) : List Char := Nat.toDigits 10 n

/-- The numeral of an integer, with a sign if it is negative. -/
def Int.decimal : Int → List Char
  | .ofNat n => n.decimal
  | .negSucc n => '-' :: (n + 1).decimal

theorem Nat.decimal_injective : Function.Injective Nat.decimal := by
  intro m n h
  have hval := congrArg (Nat.ofDigitChars 10 · 0) h
  simpa [Nat.decimal] using hval

theorem Nat.length_decimal_le {n k : Nat} (hk : 0 < k) (h : n < 10 ^ k) :
    n.decimal.length ≤ k :=
  Nat.toDigits_length 10 n k hk h

theorem Nat.minus_not_mem_decimal (n : Nat) : '-' ∉ n.decimal := by
  intro h
  have hd := Nat.isDigit_of_mem_toDigits (by decide) (by decide) h
  simp at hd

/-- The sign tells negative numbers from the others. -/
theorem Int.decimal_injective : Function.Injective Int.decimal := by
  intro i j h
  cases i with
  | ofNat m =>
    cases j with
    | ofNat n => exact congrArg Int.ofNat (Nat.decimal_injective h)
    | negSucc n =>
      have hm : '-' ∈ m.decimal := by
        rw [show m.decimal = '-' :: (n + 1).decimal from h]
        exact List.mem_cons_self
      exact absurd hm m.minus_not_mem_decimal
  | negSucc m =>
    cases j with
    | ofNat n =>
      have hn : '-' ∈ n.decimal := by
        rw [← show '-' :: (m + 1).decimal = n.decimal from h]
        exact List.mem_cons_self
      exact absurd hn n.minus_not_mem_decimal
    | negSucc n =>
      have hd : (m + 1).decimal = (n + 1).decimal := List.tail_eq_of_cons_eq h
      have hmn := Nat.decimal_injective hd
      exact congrArg Int.negSucc (by omega)

theorem Int.length_decimal_le {i : Int} {k : Nat} (hk : 0 < k) (h : i.natAbs < 10 ^ k) :
    i.decimal.length ≤ k + 1 := by
  cases i with
  | ofNat n => exact (Nat.length_decimal_le hk h).trans (Nat.le_succ k)
  | negSucc n => exact Nat.succ_le_succ (Nat.length_decimal_le hk h)
