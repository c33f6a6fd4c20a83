import Mathlib.Algebra.GroupWithZero.Nat
import Muduo.Buffer.Operations

/-!
# Strings taken from the buffer

`retrieve` clamps its argument at what is readable. `retrieveAsString` copies first, and
the copy takes the argument as it is.

As long as no more is asked for than there is, it does not matter in how many pieces. The
piece that empties the buffer sets both indices back, and so does every one after it.
-/

namespace Muduo.Buffer

variable {b : Buffer}

/-- The readable bytes that `len` reaches are returned, and exactly these are consumed. -/
def TakesFront (b : Buffer) (len : UInt64) : Prop :=
  ∃ b', b.retrieveAsString len = .ok (b.readable.take len.toNat, b') ∧ b'.Inv ∧
    b'.readable = b.readable.drop len.toNat

/-- Whatever is returned is as long as was asked for. -/
theorem length_retrieveAsString {len : UInt64} {bs : List UInt8} {b' : Buffer}
    (h : b.retrieveAsString len = .ok (bs, b')) : bs.length = len.toNat := by
  unfold retrieveAsString Chars.string Chars.read at h
  split_ifs at h
  · split at h
    · contradiction
    next hr =>
      cases h
      exact Memory.length_readRange hr
  · contradiction

/-- A string is the front of the readable bytes exactly if no more of it is asked for than
there is. -/
theorem takesFront_iff (h : b.Inv) (len : UInt64) : b.TakesFront len ↔ len ≤ b.readableBytes := by
  constructor
  · rintro ⟨b', hb', -, -⟩
    have hlen := length_retrieveAsString hb'
    rw [List.length_take, h.length_readable] at hlen
    exact UInt64.le_iff_toNat_le.mpr (by omega)
  · intro hlen
    exact ⟨b.retrieve len, retrieveAsString_eq h hlen, h.retrieve len, readable_retrieve h len⟩

/-- Two readable bytes, with those of an earlier message behind them. -/
theorem takesFront_one :
    (⟨⟨List.replicate 8 0 ++ [104, 105, 115, 116], by decide⟩, 8, 10⟩ : Buffer).TakesFront 1 :=
  (takesFront_iff (by decide) 1).mpr (by decide)

/-- Four bytes are asked for, and the two behind `writeIndex_` come along. -/
theorem retrieveAsString_stale :
    let b : Buffer := ⟨⟨List.replicate 8 0 ++ [104, 105, 115, 116], by decide⟩, 8, 10⟩
    b.retrieveAsString 4 = .ok ([104, 105, 115, 116], b.retrieveAll) ∧ ¬ b.TakesFront 4 := by
  refine ⟨rfl, ?_⟩
  rintro ⟨b', hb', -, -⟩
  exact absurd (length_retrieveAsString hb') (by decide)

-- and a longer string is read past the end of the vector
example :
    (⟨⟨List.replicate 8 0 ++ [104, 105, 115, 116], by decide⟩, 8, 10⟩ : Buffer).retrieveAsString 5 =
      .error .outOfRange := rfl

/-! ## Pieces -/

theorem retrieve_of_lt {len : UInt64} (hlen : len < b.readableBytes) :
    b.retrieve len = { b with readerIndex_ := b.readerIndex_ + len } := if_pos hlen

theorem retrieve_of_le {len : UInt64} (hlen : b.readableBytes ≤ len) :
    b.retrieve len = b.retrieveAll := if_neg (UInt64.not_lt.mpr hlen)

/-- Emptying the buffer forgets how much was taken before. -/
theorem retrieveAll_retrieve (b : Buffer) (len : UInt64) :
    (b.retrieve len).retrieveAll = b.retrieveAll := by
  unfold retrieve
  split <;> rfl

theorem Inv.toNat_readableBytes_retrieve (h : b.Inv) (len : UInt64) :
    (b.retrieve len).readableBytes.toNat = b.readableBytes.toNat - len.toNat := by
  rw [← (h.retrieve len).length_readable, readable_retrieve h, List.length_drop, h.length_readable]

/-- Two pieces are consumed as one. -/
theorem retrieve_retrieve (h : b.Inv) {m n : UInt64} (nowrap : m.toNat + n.toNat < 2 ^ 64) :
    (b.retrieve m).retrieve n = b.retrieve (m + n) := by
  have hsum := toNat_add_of_lt nowrap
  have hleft := h.toNat_readableBytes_retrieve m
  by_cases hlt : m + n < b.readableBytes
  · have hm : m < b.readableBytes := by grind [UInt64.lt_iff_toNat_lt]
    have hn : n < (b.retrieve m).readableBytes := by grind [UInt64.lt_iff_toNat_lt]
    rw [retrieve_of_lt hn, retrieve_of_lt hm, retrieve_of_lt hlt, ← UInt64.add_assoc]
  · have hn : (b.retrieve m).readableBytes ≤ n := by
      grind [UInt64.lt_iff_toNat_lt, UInt64.le_iff_toNat_le]
    rw [retrieve_of_le hn, retrieveAll_retrieve, retrieve_of_le (UInt64.not_lt.mp hlt)]

/-- Two pieces are returned as one. -/
theorem retrieveAsString_add (h : b.Inv) {m n : UInt64}
    (hsum : m.toNat + n.toNat ≤ b.readableBytes.toNat) :
    ∃ front back b', b.retrieveAsString m = .ok (front, b.retrieve m) ∧
      (b.retrieve m).retrieveAsString n = .ok (back, b') ∧
      b.retrieveAsString (m + n) = .ok (front ++ back, b') := by
  have hsize := b.readableBytes.toNat_lt
  have hleft := h.toNat_readableBytes_retrieve m
  have hnat : (m + n).toNat = m.toNat + n.toNat := toNat_add_of_lt (by omega)
  have hm : m ≤ b.readableBytes := by grind [UInt64.le_iff_toNat_le]
  have hn : n ≤ (b.retrieve m).readableBytes := by grind [UInt64.le_iff_toNat_le]
  have hmn : m + n ≤ b.readableBytes := by grind [UInt64.le_iff_toNat_le]
  refine ⟨_, _, _, retrieveAsString_eq h hm, retrieveAsString_eq (h.retrieve m) hn, ?_⟩
  rw [retrieveAsString_eq h hmn, retrieve_retrieve h (by omega), readable_retrieve h, hnat,
    List.take_add]

/-- One `retrieveAsString` after the other: the strings, and the buffer left behind. -/
def retrieveInPieces (b : Buffer) : List UInt64 → Except Fault (List (List UInt8) × Buffer)
  | [] => .ok ([], b)
  | len :: lens => do
    let (result, b) ← b.retrieveAsString len
    let (results, b) ← b.retrieveInPieces lens
    return (result :: results, b)

/-- The pieces put together are the string that is taken at once, and the buffer left behind is
the same. -/
theorem retrieveInPieces_flatten (h : b.Inv) {lens : List UInt64} (hne : lens ≠ [])
    (hsum : (lens.map UInt64.toNat).sum ≤ b.readableBytes.toNat) :
    ∃ results b', b.retrieveInPieces lens = .ok (results, b') ∧
      b.retrieveAsString (UInt64.ofNat (lens.map UInt64.toNat).sum) =
        .ok (results.flatten, b') := by
  induction lens generalizing b with
  | nil => exact absurd rfl hne
  | cons len lens ih =>
    rw [List.map_cons, List.sum_cons] at hsum ⊢
    rw [UInt64.ofNat_add, UInt64.ofNat_toNat]
    have hsize := b.readableBytes.toNat_lt
    have hadd : len.toNat + (UInt64.ofNat (lens.map UInt64.toNat).sum).toNat ≤
        b.readableBytes.toNat := by
      rw [UInt64.toNat_ofNat']
      omega
    obtain ⟨front, back, b', hfront, hback, hone⟩ := retrieveAsString_add h hadd
    cases lens with
    | nil =>
      refine ⟨[front], b.retrieve len, ?_, by simpa using hfront⟩
      simp only [retrieveInPieces, hfront, bind, Except.bind]
      rfl
    | cons next rest =>
      -- what is left fits the buffer that the first piece leaves
      obtain ⟨results, c, hpieces, hrest⟩ := ih (h.retrieve len) (by simp)
        (by rw [h.toNat_readableBytes_retrieve]; omega)
      obtain ⟨rfl, rfl⟩ : back = results.flatten ∧ b' = c := by
        simpa using hback.symm.trans hrest
      refine ⟨front :: results, b', ?_, hone⟩
      rw [retrieveInPieces, hfront]
      simp only [bind, Except.bind, hpieces]
      rfl

/-- Three bytes in four pieces: the third empties the buffer, and the last finds it so. -/
theorem retrieveInPieces_flatten_exhausted :
    let b : Buffer := ⟨⟨List.replicate 8 0 ++ [97, 98, 99, 100], by decide⟩, 9, 12⟩
    ∃ results b', b.retrieveInPieces [0, 2, 1, 0] = .ok (results, b') ∧
      b.retrieveAsString (UInt64.ofNat ([0, 2, 1, 0].map UInt64.toNat).sum) =
        .ok (results.flatten, b') :=
  retrieveInPieces_flatten (by decide) (by decide) (by decide)

-- taking no piece at all is not the same as taking an empty string
example :
    let b : Buffer := ⟨⟨List.replicate 12 0, by decide⟩, 9, 9⟩
    b.retrieveInPieces [] = .ok ([], b) ∧ b.retrieveAsString 0 = .ok ([], b.retrieveAll) :=
  ⟨rfl, rfl⟩

end Muduo.Buffer
