import Muduo.Buffer.Refinement
import Muduo.Connection.Basic

/-!
# Reading from a descriptor

`readFd` offers two ranges to `readv`: what it takes for the free end of the vector, and an
array on the stack. What lands in the array is appended. The first range starts at
`writeIndex_` but is as long as the vector from `readerIndex_` on, so with anything readable
it reaches behind the vector. And an `append` to a full vector finds no room unless
`makeSpace` runs and makes some.
-/

namespace Muduo

/-- The objects that the ranges lie in. -/
inductive Region where
  | buffer_ | extrabuf
  deriving DecidableEq, Repr

/-- `struct iovec`, with an index into an object for the address. -/
structure Iovec where
  region : Region
  iov_base : UInt64
  iov_len : UInt64
  deriving DecidableEq

namespace Buffer

/-- `sizeof extrabuf` -/
def extrabufSize : UInt64 := 65536

def iovecs (b : Buffer) : List Iovec :=
  let writable := b.writableBytes
  let vec : List Iovec := [⟨.buffer_, b.writeIndex_, writable⟩, ⟨.extrabuf, 0, extrabufSize⟩]
  let iovcnt := if writable < extrabufSize then 2 else 1
  vec.take iovcnt

/-- Everything that `readv` may return: no more bytes than the ranges have room for. -/
def Offers (b : Buffer) : ReadResult → Prop
  | .received bytes => bytes.length ≤ (b.iovecs.map fun v => v.iov_len.toNat).sum
  | .error _ => True

instance (b : Buffer) : (r : ReadResult) → Decidable (b.Offers r)
  | .received _ => inferInstanceAs (Decidable (_ ≤ _))
  | .error _ => isTrue trivial

/-- What the kernel left in `extrabuf`. -/
def extrabuf (bytes : List UInt8) (writable : UInt64) : Chars :=
  ⟨(bytes.drop writable.toNat).take extrabufSize.toNat,
    (List.length_take_le _ _).trans (by decide)⟩

/-- The result of `readv`, or the saved `errno`, and the buffer left behind. The kernel fills
the first range before the second. -/
def readFd (b : Buffer) : ReadResult → Except Fault (Except Errno Nat × Buffer)
  | .error errno => .ok (.error errno, b)
  | .received bytes => do
    let writable := b.writableBytes
    let n := UInt64.ofNat bytes.length
    let v ← b.buffer_.copyInto b.writeIndex_ (bytes.take writable.toNat)
    let b := { b with buffer_ := v }
    let b ←
      if n ≤ writable then .ok { b with writeIndex_ := b.writeIndex_ + n }
      else append { b with writeIndex_ := b.buffer_.size } (extrabuf bytes writable)
    return (.ok bytes.length, b)

/-! ## The ranges -/

/-- The range lies in its object. -/
def Inside (b : Buffer) (v : Iovec) : Prop :=
  v.iov_base.toNat + v.iov_len.toNat ≤
    match v.region with
    | .buffer_ => b.buffer_.data.length
    | .extrabuf => extrabufSize.toNat

variable {b : Buffer}

theorem inside_iovecs_iff (h : b.Inv) : (∀ v ∈ b.iovecs, b.Inside v) ↔ b.readableBytes = 0 := by
  obtain ⟨h₁, h₂, h₃, -⟩ := h.nat
  have hw := h.toNat_writableBytes
  have hr : b.readableBytes = 0 ↔ b.writeIndex_.toNat - b.readerIndex_.toNat = 0 := by
    rw [← UInt64.toNat_inj, h.toNat_readableBytes]
    rfl
  have hfirst : b.Inside ⟨.buffer_, b.writeIndex_, b.writableBytes⟩ ↔ b.readableBytes = 0 := by
    simp only [Inside, hw, hr]
    omega
  have hsecond : b.Inside ⟨.extrabuf, 0, extrabufSize⟩ := Nat.le_refl _
  unfold iovecs
  dsimp only
  split <;> simp [hfirst, hsecond]

/-! ## What is received -/

section

variable {bytes : List UInt8}

theorem Offers.length_le (ho : b.Offers (.received bytes)) :
    bytes.length ≤ b.writableBytes.toNat + 65536 := by
  simp only [Offers, iovecs] at ho
  split at ho
  · simpa [extrabufSize] using ho
  · simp only [List.take_one, List.head?_cons, Option.toList_some, List.map_cons, List.map_nil,
      List.sum_singleton] at ho
    omega

/-- The array holds whatever came after the first range. -/
theorem data_extrabuf (ho : b.Offers (.received bytes)) :
    (extrabuf bytes b.writableBytes).data = bytes.drop b.writableBytes.toNat := by
  have hle := ho.length_le
  refine List.take_of_length_le ?_
  rw [List.length_drop]
  exact Nat.sub_le_of_le_add (by rwa [Nat.add_comm] at hle)

/-- The bytes that land in the vector, where nothing is readable before. -/
theorem fill (h : b.Inv) (he : b.readableBytes = 0) (bytes : List UInt8) :
    ∃ v, b.buffer_.copyInto b.writeIndex_ (bytes.take b.writableBytes.toNat) = .ok v ∧
      v.data.length = b.buffer_.data.length ∧
      ∀ w : UInt64, w.toNat = b.writeIndex_.toNat + min bytes.length b.writableBytes.toNat →
        (⟨v, b.readerIndex_, w⟩ : Buffer).Inv ∧
        (⟨v, b.readerIndex_, w⟩ : Buffer).readable =
          b.readable ++ bytes.take b.writableBytes.toNat := by
  obtain ⟨h₁, h₂, h₃, h₄⟩ := h.nat
  have hw := h.toNat_writableBytes
  have hr := h.toNat_readableBytes
  rw [he] at hr
  have hzero : b.writeIndex_.toNat - b.readerIndex_.toNat = 0 := hr.symm
  have hlen : (bytes.take b.writableBytes.toNat).length ≤ b.buffer_.data.length := by
    rw [List.length_take]
    omega
  obtain ⟨v, hv, hinv, hread⟩ := @copy_tail b h ⟨_, hlen.trans b.buffer_.length_le⟩
    (by simp only [List.length_take]; omega)
  refine ⟨v, hv, Memory.length_copyInto (Chars.data_copyInto hv), ?_⟩
  intro w hwn
  have heq : w = b.writeIndex_ + Chars.size ⟨_, hlen.trans b.buffer_.length_le⟩ := by
    rw [← UInt64.toNat_inj, hwn, UInt64.toNat_add, Chars.toNat_size, List.length_take]
    omega
  rw [heq]
  exact ⟨hinv, hread⟩

theorem readFd_short (h : b.Inv) (he : b.readableBytes = 0)
    (hn : bytes.length ≤ b.writableBytes.toNat) :
    ∃ b', b.readFd (.received bytes) = .ok (.ok bytes.length, b') ∧ b'.Inv ∧
      b'.readable = b.readable ++ bytes := by
  have hsize := b.writableBytes.toNat_lt
  obtain ⟨v, hv, -, hfill⟩ := fill h he bytes
  have hnat : (UInt64.ofNat bytes.length).toNat = bytes.length := by
    rw [UInt64.toNat_ofNat']
    omega
  have hle : UInt64.ofNat bytes.length ≤ b.writableBytes := by
    rw [UInt64.le_iff_toNat_le, hnat]
    exact hn
  obtain ⟨hinv, hread⟩ := hfill (b.writeIndex_ + UInt64.ofNat bytes.length) (by
    obtain ⟨-, -, h₃, h₄⟩ := h.nat
    have hw := h.toNat_writableBytes
    rw [UInt64.toNat_add, hnat]
    omega)
  rw [List.take_of_length_le hn] at hread
  refine ⟨_, ?_, hinv, hread⟩
  simp only [readFd, hv, bind, Except.bind, if_pos hle]
  rfl

/-- What does not fit the first range is appended to a vector that is full. -/
theorem readFd_long (h : b.Inv) (he : b.readableBytes = 0) (ho : b.Offers (.received bytes))
    (hn : b.writableBytes.toNat < bytes.length) :
    ∃ c : Buffer, c.Inv ∧ c.readable = b.readable ++ bytes.take b.writableBytes.toNat ∧
      c.readerIndex_ = b.readerIndex_ ∧ c.writeIndex_.toNat = b.buffer_.data.length ∧
      c.buffer_.data.length = b.buffer_.data.length ∧
      b.readFd (.received bytes) =
        (c.append (extrabuf bytes b.writableBytes)).map fun b' => (.ok bytes.length, b') := by
  obtain ⟨h₁, h₂, h₃, h₄⟩ := h.nat
  have hw := h.toNat_writableBytes
  have hr := h.toNat_readableBytes
  rw [he] at hr
  have hzero : b.writeIndex_.toNat - b.readerIndex_.toNat = 0 := hr.symm
  have hle := ho.length_le
  obtain ⟨v, hv, hlen, hfill⟩ := fill h he bytes
  obtain ⟨hinv, hread⟩ := hfill v.size (by rw [Chars.toNat_size]; omega)
  have hgt : ¬ UInt64.ofNat bytes.length ≤ b.writableBytes := by
    rw [UInt64.le_iff_toNat_le, UInt64.toNat_ofNat']
    omega
  refine ⟨_, hinv, hread, rfl, by rw [Chars.toNat_size, hlen], hlen, ?_⟩
  simp only [readFd, hv, bind, Except.bind, if_neg hgt]
  cases Buffer.append ⟨v, b.readerIndex_, v.size⟩ (extrabuf bytes b.writableBytes) <;> rfl

end

/-- Either all that is received fits the vector; or what is left over exceeds the vector from
`readerIndex_` on, so that `makeSpace` runs, and then the vector grows, or moving the readable
bytes to the front makes enough room. -/
def RoomForExtra (b : Buffer) (n : Nat) : Prop :=
  n ≤ b.writableBytes.toNat ∨
    (let extra := n - b.writableBytes.toNat
    b.buffer_.data.length < b.readerIndex_.toNat + extra ∧
      (b.buffer_.data.length < extra + 8 ∧ b.buffer_.data.length + extra ≤ maxSize ∨
        extra + 8 ≤ b.readerIndex_.toNat))

/-- What `readFd` is to do with a result of `readv`. -/
structure ReadsWell (b : Buffer) (r : ReadResult) : Prop where
  inside : ∀ v ∈ b.iovecs, b.Inside v
  error : ∀ errno, r = .error errno → b.readFd r = .ok (.error errno, b)
  received : ∀ bytes, r = .received bytes → ∃ b', b.readFd r = .ok (.ok bytes.length, b') ∧
    b'.Inv ∧ b'.readable = b.readable ++ bytes

theorem received_iff (h : b.Inv) (he : b.readableBytes = 0) {bytes : List UInt8}
    (ho : b.Offers (.received bytes)) :
    (∃ b', b.readFd (.received bytes) = .ok (.ok bytes.length, b') ∧ b'.Inv ∧
      b'.readable = b.readable ++ bytes) ↔ b.RoomForExtra bytes.length := by
  by_cases hn : bytes.length ≤ b.writableBytes.toNat
  · exact ⟨fun _ => .inl hn, fun _ => readFd_short h he hn⟩
  · obtain ⟨h₁, h₂, h₃, h₄⟩ := h.nat
    have hw := h.toNat_writableBytes
    obtain ⟨c, hinv, hread, hreader, hwrite, hlen, hfd⟩ := readFd_long h he ho (by omega)
    have hdata := data_extrabuf ho
    have hextra : (extrabuf bytes b.writableBytes).data.length =
        bytes.length - b.writableBytes.toNat := by rw [hdata, List.length_drop]
    have hroom : b.RoomForExtra bytes.length ↔ c.HasRoom (.append (extrabuf bytes b.writableBytes)) ∧
        c.append (extrabuf bytes b.writableBytes) ≠ .error .lengthError := by
      rw [Ne, append_lengthError_iff hinv, RoomForExtra, HasRoom, hextra, hreader, hwrite, hlen]
      dsimp only
      omega
    have happ := append_ok_iff hinv (extrabuf bytes b.writableBytes)
    rw [hroom, ← happ, hread, hdata, List.append_assoc, List.take_append_drop, hfd]
    cases c.append (extrabuf bytes b.writableBytes) with
    | error e => simp [Except.map]
    | ok c' => simp [Except.map]

/-- `readFd` does what it is to do exactly if nothing is readable before, and what does not fit
the vector finds room. -/
theorem readsWell_iff (h : b.Inv) {r : ReadResult} (ho : b.Offers r) :
    b.ReadsWell r ↔
      b.readableBytes = 0 ∧ ∀ bytes, r = .received bytes → b.RoomForExtra bytes.length := by
  constructor
  · rintro ⟨hinside, -, hrec⟩
    have he := (inside_iovecs_iff h).mp hinside
    refine ⟨he, ?_⟩
    rintro bytes rfl
    exact (received_iff h he ho).mp (hrec bytes rfl)
  · rintro ⟨he, hroom⟩
    refine ⟨(inside_iovecs_iff h).mpr he, ?_, ?_⟩
    · rintro errno rfl
      rfl
    · rintro bytes rfl
      exact (received_iff h he ho).mpr (hroom bytes rfl)

/-- Three bytes arrive in an empty buffer. -/
theorem readsWell_three :
    (⟨⟨List.replicate 16 0, by decide⟩, 8, 8⟩ : Buffer).ReadsWell (.received [1, 2, 3]) := by
  refine (readsWell_iff (by decide) (by decide)).mpr ⟨by decide, ?_⟩
  rintro bytes h
  obtain rfl := ReadResult.received.inj h
  exact .inl (by decide)

/-- With three of eight bytes readable, the first range still has eight. -/
theorem iovec_past_end :
    let b : Buffer := ⟨⟨List.replicate 16 0, by decide⟩, 8, 11⟩
    b.iovecs.head? = some ⟨.buffer_, 11, 8⟩ ∧ ¬ b.ReadsWell (.received []) := by
  refine ⟨rfl, ?_⟩
  intro h
  exact absurd (h.inside ⟨.buffer_, 11, 8⟩ (by decide)) (by simp [Inside])

-- twelve bytes arrive in an empty vector of eight, and the last four find no room
example :
    let b : Buffer := ⟨⟨List.replicate 16 0, by decide⟩, 8, 8⟩
    (b.readFd (.received (List.replicate 12 1))).toOption = none := rfl

end Buffer

end Muduo
