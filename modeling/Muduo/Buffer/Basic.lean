import Mathlib.Algebra.Group.Nat.Defs
import Muduo.Library.Memory

/-!
# The byte buffer

`Buffer` keeps a `std::vector<char>` and two indices. All arithmetic is on `size_t`,
so sums and differences wrap at 64 bits. An operation fails with `lengthError` when
the vector refuses to grow or a string refuses its length, which leaves the buffer as it
was, and with `outOfRange` when a copy touches an index outside the vector.
-/

namespace Muduo

/-- `max_size()` of a container of `char`. -/
def maxSize : Nat := 2 ^ 63 - 1

/-- The contents of a `std::vector<char>` or of any other `char` object in memory. -/
structure Chars where
  data : List UInt8
  length_le : data.length ≤ maxSize

inductive Fault where
  | lengthError
  | outOfRange
  deriving DecidableEq, Repr

namespace Chars

def size (v : Chars) : UInt64 := UInt64.ofNat v.data.length

/-- `std::vector<char>(n)`: `n` zero bytes. -/
def make (n : UInt64) : Except Fault Chars :=
  if h : n.toNat ≤ maxSize then .ok ⟨List.replicate n.toNat 0, by simpa using h⟩
  else .error .lengthError

/-- Truncate to `n`, or pad with zero bytes up to `n`. -/
def resize (v : Chars) (n : UInt64) : Except Fault Chars :=
  if h : n.toNat ≤ maxSize then
    .ok ⟨v.data.take n.toNat ++ List.replicate (n.toNat - v.data.length) 0, by simp; omega⟩
  else .error .lengthError

/-- `std::copy` of foreign bytes to index `dst` on. -/
def copyInto (v : Chars) (dst : UInt64) (ys : List UInt8) : Except Fault Chars :=
  match h : Memory.copyInto v.data dst.toNat ys with
  | none => .error .outOfRange
  | some zs => .ok ⟨zs, Memory.length_copyInto h ▸ v.length_le⟩

/-- `std::copy` of the vector's own bytes `[first, last)` to index `dst` on. -/
def copyWithin (v : Chars) (first last dst : UInt64) : Except Fault Chars :=
  match h : Memory.copyWithin v.data first.toNat dst.toNat (last - first).toNat with
  | none => .error .outOfRange
  | some zs => .ok ⟨zs, Memory.length_copyWithin h ▸ v.length_le⟩

/-- The bytes `[i, i + n)`. -/
def read (v : Chars) (i n : UInt64) : Except Fault (List UInt8) :=
  match Memory.readRange v.data i.toNat n.toNat with
  | none => .error .outOfRange
  | some bs => .ok bs

/-- `std::string(begin() + i, n)`, which looks at the length before it reads. -/
def string (v : Chars) (i n : UInt64) : Except Fault (List UInt8) :=
  if n.toNat ≤ maxSize then v.read i n else .error .lengthError

end Chars

structure Buffer where
  buffer_ : Chars
  readerIndex_ : UInt64
  writeIndex_ : UInt64

namespace Buffer

def kCheapPrepend : UInt64 := 8
def kInitialSize : UInt64 := 1024

/-- `Buffer(initialSize)` -/
def new (initialSize : UInt64 := kInitialSize) : Except Fault Buffer := do
  let v ← Chars.make (kCheapPrepend + initialSize)
  return ⟨v, kCheapPrepend, kCheapPrepend⟩

def readableBytes (b : Buffer) : UInt64 := b.writeIndex_ - b.readerIndex_

/-- The source subtracts `readerIndex_`, not `writeIndex_`. -/
def writableBytes (b : Buffer) : UInt64 := b.buffer_.size - b.readerIndex_

def prependableBytes (b : Buffer) : UInt64 := b.readerIndex_

def retrieveAll (b : Buffer) : Buffer :=
  { b with readerIndex_ := kCheapPrepend, writeIndex_ := kCheapPrepend }

def retrieve (b : Buffer) (len : UInt64) : Buffer :=
  if len < b.readableBytes then { b with readerIndex_ := b.readerIndex_ + len }
  else b.retrieveAll

/-- The copy takes the caller's `len`; only the consumption is clamped. -/
def retrieveAsString (b : Buffer) (len : UInt64) : Except Fault (List UInt8 × Buffer) := do
  let result ← b.buffer_.string b.readerIndex_ len
  return (result, b.retrieve len)

def retrieveAllAsString (b : Buffer) : Except Fault (List UInt8 × Buffer) :=
  b.retrieveAsString b.readableBytes

def makeSpace (b : Buffer) (len : UInt64) : Except Fault Buffer :=
  if b.writableBytes + b.prependableBytes < len + kCheapPrepend then do
    let v ← b.buffer_.resize (b.writeIndex_ + len)
    return { b with buffer_ := v }
  else do
    let readable := b.readableBytes
    let v ← b.buffer_.copyWithin b.readerIndex_ b.writeIndex_ kCheapPrepend
    return ⟨v, kCheapPrepend, kCheapPrepend + readable⟩

def ensureWriteableBytes (b : Buffer) (len : UInt64) : Except Fault Buffer :=
  if b.writableBytes < len then b.makeSpace len else .ok b

def append (b : Buffer) (data : Chars) : Except Fault Buffer := do
  let b ← b.ensureWriteableBytes data.size
  let v ← b.buffer_.copyInto b.writeIndex_ data.data
  return { b with buffer_ := v, writeIndex_ := b.writeIndex_ + data.size }

/-! ## Indices -/

/-- The order of the two indices that every operation relies on. -/
structure Inv (b : Buffer) : Prop where
  prepend_le : kCheapPrepend ≤ b.readerIndex_
  reader_le : b.readerIndex_ ≤ b.writeIndex_
  write_le : b.writeIndex_ ≤ b.buffer_.size

instance (b : Buffer) : Decidable b.Inv :=
  decidable_of_iff (kCheapPrepend ≤ b.readerIndex_ ∧ b.readerIndex_ ≤ b.writeIndex_ ∧
    b.writeIndex_ ≤ b.buffer_.size) ⟨fun ⟨h, i, j⟩ => ⟨h, i, j⟩, fun ⟨h, i, j⟩ => ⟨h, i, j⟩⟩

/-- The bytes `[readerIndex_, writeIndex_)`. -/
def readable (b : Buffer) : List UInt8 :=
  Memory.slice b.buffer_.data b.readerIndex_.toNat (b.writeIndex_.toNat - b.readerIndex_.toNat)

end Buffer

/-- A sum that does not wrap. -/
theorem toNat_add_of_lt {x y : UInt64} (h : x.toNat + y.toNat < 2 ^ 64) :
    (x + y).toNat = x.toNat + y.toNat := by
  rw [UInt64.toNat_add, Nat.mod_eq_of_lt h]

@[simp] theorem Chars.toNat_size (v : Chars) : v.size.toNat = v.data.length := by
  have := v.length_le
  simp only [maxSize] at this
  simp only [Chars.size, UInt64.toNat_ofNat']
  omega

namespace Buffer

variable {b : Buffer}

@[simp] theorem toNat_kCheapPrepend : kCheapPrepend.toNat = 8 := rfl

/-- The invariant over the natural numbers, where `omega` can use it. -/
theorem Inv.nat (h : b.Inv) : 8 ≤ b.readerIndex_.toNat ∧
    b.readerIndex_.toNat ≤ b.writeIndex_.toNat ∧
    b.writeIndex_.toNat ≤ b.buffer_.data.length ∧ b.buffer_.data.length < 2 ^ 63 := by
  obtain ⟨h₁, h₂, h₃⟩ := h
  have := b.buffer_.length_le
  rw [UInt64.le_iff_toNat_le] at h₁ h₂ h₃
  rw [Chars.toNat_size] at h₃
  exact ⟨h₁, h₂, h₃, by simp only [maxSize] at this; omega⟩

theorem Inv.of_nat (h₁ : 8 ≤ b.readerIndex_.toNat)
    (h₂ : b.readerIndex_.toNat ≤ b.writeIndex_.toNat)
    (h₃ : b.writeIndex_.toNat ≤ b.buffer_.data.length) : b.Inv :=
  ⟨UInt64.le_iff_toNat_le.mpr h₁, UInt64.le_iff_toNat_le.mpr h₂,
    UInt64.le_iff_toNat_le.mpr (by rwa [Chars.toNat_size])⟩

theorem Inv.toNat_readableBytes (h : b.Inv) :
    b.readableBytes.toNat = b.writeIndex_.toNat - b.readerIndex_.toNat :=
  UInt64.toNat_sub_of_le _ _ h.reader_le

theorem Inv.toNat_writableBytes (h : b.Inv) :
    b.writableBytes.toNat = b.buffer_.data.length - b.readerIndex_.toNat := by
  rw [← Chars.toNat_size]
  exact UInt64.toNat_sub_of_le _ _ (UInt64.le_trans h.reader_le h.write_le)

theorem Inv.length_readable (h : b.Inv) : b.readable.length = b.readableBytes.toNat := by
  obtain ⟨h₁, h₂, h₃, -⟩ := h.nat
  rw [h.toNat_readableBytes, readable, Memory.length_slice (by omega)]

end Buffer

end Muduo
