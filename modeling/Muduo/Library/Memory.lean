import Mathlib.Data.List.Basic
import Mathlib.Data.List.TakeDrop

/-!
# Cells addressed by index

Ranges of a list of cells, and the two ways a program copies into it: from
elsewhere, and within itself. A copy runs one cell at a time and is `none` when it
touches an index outside the list, so its success says that every index was valid.
-/

namespace Memory

variable {α : Type*}

/-- The `n` cells from index `i` on. -/
def slice (xs : List α) (i n : Nat) : List α := (xs.drop i).take n

/-- Read `n` cells from index `i` on; an empty range touches nothing. -/
def readRange (xs : List α) (i n : Nat) : Option (List α) :=
  if n = 0 ∨ i + n ≤ xs.length then some (slice xs i n) else none

/-- Store `ys` cell by cell from index `dst` on. -/
def copyInto (xs : List α) (dst : Nat) : List α → Option (List α)
  | [] => some xs
  | y :: ys => if dst < xs.length then copyInto (xs.set dst y) (dst + 1) ys else none

/-- Move `n` cells from `src` to `dst`, front to back, each read after the stores before it. -/
def copyWithin (xs : List α) (src dst : Nat) : Nat → Option (List α)
  | 0 => some xs
  | n + 1 =>
    match xs[src]? with
    | none => none
    | some x => if dst < xs.length then copyWithin (xs.set dst x) (src + 1) (dst + 1) n else none

/-! ## Ranges -/

@[simp] theorem slice_zero (xs : List α) (i : Nat) : slice xs i 0 = [] := by
  simp [slice]

theorem length_slice {xs : List α} {i n : Nat} (h : i + n ≤ xs.length) :
    (slice xs i n).length = n := by
  simp only [slice, List.length_take, List.length_drop]
  omega

/-- Two adjacent ranges. -/
theorem slice_append (xs : List α) (i m n : Nat) :
    slice xs i m ++ slice xs (i + m) n = slice xs i (m + n) := by
  rw [slice, slice, slice, List.take_add, List.drop_drop]

theorem take_slice (xs : List α) (i : Nat) {m n : Nat} (h : m ≤ n) :
    (slice xs i n).take m = slice xs i m := by
  simp [slice, List.take_take, Nat.min_eq_left h]

theorem drop_slice (xs : List α) (i m n : Nat) :
    (slice xs i n).drop m = slice xs (i + m) (n - m) := by
  simp [slice, List.drop_take, List.drop_drop]

theorem readRange_eq {xs : List α} {i n : Nat} (h : i + n ≤ xs.length) :
    readRange xs i n = some (slice xs i n) := if_pos (.inr h)

/-- A read returns as many cells as were asked for, or none at all. -/
theorem length_readRange {xs ys : List α} {i n : Nat} (h : readRange xs i n = some ys) :
    ys.length = n := by
  unfold readRange at h
  split at h
  · cases h
    grind [length_slice, slice_zero]
  · contradiction

/-- Growing the list behind a range does not change it. -/
theorem slice_append_right {xs : List α} {i n : Nat} (h : i + n ≤ xs.length) (ys : List α) :
    slice (xs ++ ys) i n = slice xs i n := by
  have hi : i ≤ xs.length := by omega
  rw [slice, slice, List.drop_append_of_le_length hi, List.take_append_of_le_length]
  simp only [List.length_drop]
  omega

/-! ## Copies -/

theorem length_copyInto {xs ys zs : List α} {dst : Nat} (h : copyInto xs dst ys = some zs) :
    zs.length = xs.length := by
  induction ys generalizing xs dst with
  | nil => grind [copyInto]
  | cons y ys ih =>
    simp only [copyInto] at h
    split at h
    · simpa using ih h
    · contradiction

theorem length_copyWithin {xs zs : List α} {src dst n : Nat}
    (h : copyWithin xs src dst n = some zs) : zs.length = xs.length := by
  induction n generalizing xs src dst with
  | zero => grind [copyWithin]
  | succ n ih =>
    simp only [copyWithin] at h
    split at h
    · contradiction
    · split at h
      · simpa using ih h
      · contradiction

/-- Storing one cell extends the part already written by one. -/
theorem take_succ_set {xs : List α} {d : Nat} (h : d < xs.length) (y : α) :
    (xs.set d y).take (d + 1) = xs.take d ++ [y] := by
  have hl : d < (xs.set d y).length := by simpa using h
  rw [List.take_succ_eq_append_getElem hl, List.getElem_set_self, List.take_set,
    List.set_eq_of_length_le]
  exact List.length_take_le _ _

/-- A copy from elsewhere replaces exactly the cells it covers. -/
theorem copyInto_eq {xs ys : List α} {dst : Nat} (h : dst + ys.length ≤ xs.length) :
    copyInto xs dst ys = some (xs.take dst ++ ys ++ xs.drop (dst + ys.length)) := by
  induction ys generalizing xs dst with
  | nil => simp [copyInto]
  | cons y ys ih =>
    simp only [List.length_cons] at h
    have hd : dst < xs.length := by omega
    rw [copyInto, if_pos hd, ih (by simp only [List.length_set]; omega)]
    have hdrop : (xs.set dst y).drop (dst + 1 + ys.length) =
        xs.drop (dst + (ys.length + 1)) := by
      rw [List.drop_set_of_lt (by omega), Nat.add_right_comm, Nat.add_assoc]
    simp [take_succ_set hd, hdrop]

/-- A copy succeeds exactly when the cells it stores to exist. -/
theorem copyInto_eq_none_iff {xs ys : List α} {dst : Nat} :
    copyInto xs dst ys = none ↔ ys ≠ [] ∧ xs.length < dst + ys.length := by
  induction ys generalizing xs dst with
  | nil => simp [copyInto]
  | cons y ys ih =>
    simp only [copyInto, ne_eq, reduceCtorEq, not_false_eq_true, true_and, List.length_cons]
    split
    · rw [ih, List.length_set]
      constructor
      · rintro ⟨-, h⟩
        omega
      · intro h
        refine ⟨?_, by omega⟩
        rintro rfl
        simp only [List.length_nil] at h
        omega
    · simp only [true_iff]
      omega

/-- Front to back, a copy towards lower indices reads only cells it has not stored to. -/
theorem copyWithin_eq (xs : List α) {src dst n : Nat} (hle : dst ≤ src)
    (h : src + n ≤ xs.length) :
    copyWithin xs src dst n = some (xs.take dst ++ slice xs src n ++ xs.drop (dst + n)) := by
  induction n generalizing xs src dst with
  | zero => simp [copyWithin]
  | succ n ih =>
    have hs : src < xs.length := by omega
    have hd : dst < xs.length := by omega
    rw [copyWithin, List.getElem?_eq_getElem hs]
    simp only [if_pos hd]
    rw [ih _ (by omega) (by simp only [List.length_set]; omega)]
    -- the store at `dst ≤ src` lies before everything still to be read
    have hslice : slice (xs.set dst xs[src]) (src + 1) n = slice xs (src + 1) n := by
      rw [slice, slice, List.drop_set_of_lt (by omega)]
    have hdrop : (xs.set dst xs[src]).drop (dst + 1 + n) = xs.drop (dst + (n + 1)) := by
      rw [List.drop_set_of_lt (by omega), Nat.add_right_comm, Nat.add_assoc]
    have hcons : slice xs src (n + 1) = xs[src] :: slice xs (src + 1) n := by
      rw [slice, slice, List.drop_eq_getElem_cons hs, List.take_succ_cons]
    simp [take_succ_set hd, hslice, hdrop, hcons]

/-- The range just written. -/
theorem slice_overwrite {xs ys : List α} {dst : Nat} (h : dst ≤ xs.length) (zs : List α) :
    slice (xs.take dst ++ ys ++ zs) dst ys.length = ys := by
  have hl : (xs.take dst).length = dst := by simp [h]
  rw [slice, List.append_assoc, List.drop_append_of_le_length (by omega)]
  simp

/-- A range below the cells just written. -/
theorem slice_overwrite_before {xs ys : List α} {i n dst : Nat} (h : i + n ≤ dst)
    (hd : dst ≤ xs.length) (zs : List α) :
    slice (xs.take dst ++ ys ++ zs) i n = slice xs i n := by
  have hl : (xs.take dst).length = dst := by simp [hd]
  rw [List.append_assoc, slice_append_right (by omega), slice, slice, List.drop_take,
    List.take_take, Nat.min_eq_left (by omega)]

end Memory
