import Muduo.Library.Decimal

/-!
# Reading numerals

Numbers as C programs write them: hexadecimal after `0x`, octal after `0`, else decimal.
A printed natural number is read back as itself, since it has no leading zero.
-/

namespace Numeral

/-- The value of a digit, of whatever base. -/
def digit? (c : Char) : Option Nat :=
  if c.isDigit then some (c.toNat - 48)
  else if 'a' ≤ c ∧ c ≤ 'f' then some (c.toNat - 87)
  else if 'A' ≤ c ∧ c ≤ 'F' then some (c.toNat - 55)
  else none

/-- Digits of base `b` read after others whose value is `n`. -/
def digits? (b : Nat) : List Char → Nat → Option Nat
  | [], n => some n
  | c :: cs, n =>
    match digit? c with
    | some d => if d < b then digits? b cs (b * n + d) else none
    | none => none

/-- A whole numeral in C notation. -/
def value? : List Char → Option Nat
  | [] => none
  | c :: cs =>
    if c = '0' then
      match cs with
      | x :: d :: ds => if x = 'x' ∨ x = 'X' then digits? 16 (d :: ds) 0 else digits? 8 cs 0
      | _ => digits? 8 cs 0
    else digits? 10 (c :: cs) 0

theorem digits?_ten {cs : List Char} (h : ∀ c ∈ cs, c.isDigit = true) (n : Nat) :
    digits? 10 cs n = some (Nat.ofDigitChars 10 cs n) := by
  induction cs generalizing n with
  | nil => simp [digits?]
  | cons c cs ih =>
    have hc := h c List.mem_cons_self
    have hlt : c.toNat - 48 < 10 := by
      have hle := (Char.isDigit_iff_toNat.mp hc).2
      simp at hle
      omega
    rw [digits?, digit?, if_pos hc]
    simp only [hlt, if_true]
    rw [ih (fun d hd => h d (List.mem_cons_of_mem c hd)), Nat.ofDigitChars_cons]
    rfl

/-- Only zero is printed with a zero in front. -/
theorem head_decimal {n : Nat} (h : n.decimal.head? = some '0') : n = 0 := by
  induction n using Nat.strongRecOn with
  | ind n ih =>
    rw [Nat.decimal, Nat.toDigits_eq_if (by decide)] at h
    split at h
    · rename_i hlt
      have hval := congrArg Char.toNat (Option.some.inj h)
      rw [Nat.toNat_digitChar_of_lt_ten hlt] at hval
      simp at hval
      omega
    · rw [List.head?_append_of_ne_nil _ (List.ne_nil_of_length_pos Nat.length_toDigits_pos)] at h
      have hten : n / 10 = 0 := ih (n / 10) (by omega) h
      omega

/-- What is printed is read back. -/
theorem value?_decimal (n : Nat) : value? n.decimal = some n := by
  cases hd : n.decimal with
  | nil =>
    have hpos : 0 < n.decimal.length := Nat.length_toDigits_pos
    simp [hd] at hpos
  | cons c cs =>
    by_cases hc : c = '0'
    · obtain rfl : n = 0 := head_decimal (by simp [hd, hc])
      exact hd ▸ rfl
    · have hdigits : ∀ d ∈ n.decimal, d.isDigit = true := fun _ hm =>
        Nat.isDigit_of_mem_toDigits (by decide) (by decide) hm
      have hread := digits?_ten hdigits 0
      rw [Nat.decimal, Nat.ofDigitChars_ten_toDigits, ← Nat.decimal, hd] at hread
      exact (if_neg hc).trans hread

end Numeral
