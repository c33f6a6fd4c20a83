import Muduo.Buffer.Basic

/-!
# What each buffer operation does

One lemma for each operation, over the readable bytes and the index order. Growth
and compaction are separated because only the former changes the vector's size.
-/

namespace Muduo

/-! ## Copies into a vector -/

namespace Chars

theorem data_copyInto {v w : Chars} {dst : UInt64} {ys : List UInt8}
    (h : v.copyInto dst ys = .ok w) : Memory.copyInto v.data dst.toNat ys = some w.data := by
  unfold copyInto at h
  split at h
  · contradiction
  next hz => cases h; exact hz

theorem data_copyWithin {v w : Chars} {first last dst : UInt64}
    (h : v.copyWithin first last dst = .ok w) :
    Memory.copyWithin v.data first.toNat dst.toNat (last - first).toNat = some w.data := by
  unfold copyWithin at h
  split at h
  · contradiction
  next hz => cases h; exact hz

theorem copyInto_eq (v : Chars) {dst : UInt64} {ys : List UInt8}
    (h : dst.toNat + ys.length ≤ v.data.length) :
    ∃ w, v.copyInto dst ys = .ok w ∧
      w.data = v.data.take dst.toNat ++ ys ++ v.data.drop (dst.toNat + ys.length) := by
  have hz := Memory.copyInto_eq h
  unfold copyInto
  split
  next hn => rw [hn] at hz; contradiction
  next zs hs => exact ⟨_, rfl, Option.some.inj (hs.symm.trans hz)⟩

theorem copyInto_outOfRange (v : Chars) {dst : UInt64} {ys : List UInt8} (hy : ys ≠ [])
    (h : v.data.length < dst.toNat + ys.length) : v.copyInto dst ys = .error .outOfRange := by
  have hz := Memory.copyInto_eq_none_iff.mpr ⟨hy, h⟩
  unfold copyInto
  split
  · rfl
  next hs => rw [hs] at hz; contradiction

theorem copyInto_ne_lengthError (v : Chars) (dst : UInt64) (ys : List UInt8) :
    v.copyInto dst ys ≠ .error .lengthError := by
  unfold copyInto
  split <;> simp

/-- Moving bytes towards the front keeps them all. -/
theorem copyWithin_eq (v : Chars) {first last : UInt64} (dst : UInt64) 
    (hf : first.toNat ≤ last.toNat) (hd : dst.toNat ≤ first.toNat) (hl : last.toNat ≤ v.data.length) :
    ∃ w, v.copyWithin first last dst = .ok w ∧
      w.data = v.data.take dst.toNat ++
        Memory.slice v.data first.toNat (last.toNat - first.toNat) ++
        v.data.drop (dst.toNat + (last.toNat - first.toNat)) := by
  have hn : (last - first).toNat = last.toNat - first.toNat :=
    UInt64.toNat_sub_of_le _ _ (UInt64.le_iff_toNat_le.mpr hf)
  have hz := Memory.copyWithin_eq v.data (n := (last - first).toNat) hd (by omega)
  rw [← hn]
  unfold copyWithin
  split
  next h => rw [h] at hz; contradiction
  next zs hs => exact ⟨_, rfl, Option.some.inj (hs.symm.trans hz)⟩

end Chars

namespace Buffer

variable {b : Buffer}

theorem readable_retrieveAll (b : Buffer) : b.retrieveAll.readable = [] := by
  simp [readable, retrieveAll]

theorem Inv.retrieveAll (h : b.Inv) : b.retrieveAll.Inv := by
  obtain ⟨h₁, h₂, h₃, -⟩ := h.nat
  exact .of_nat (Nat.le_refl 8) (Nat.le_refl 8) (show 8 ≤ b.buffer_.data.length by omega)

/-- Fewer bytes than are readable: the reader index does not wrap. -/
theorem Inv.toNat_advance (h : b.Inv) {len : UInt64} (hlt : len < b.readableBytes) :
    (b.readerIndex_ + len).toNat = b.readerIndex_.toNat + len.toNat := by
  obtain ⟨h₁, h₂, h₃, h₄⟩ := h.nat
  rw [UInt64.lt_iff_toNat_lt, h.toNat_readableBytes] at hlt
  exact toNat_add_of_lt (by omega)

/-- Consuming clamps at what is readable. -/
theorem readable_retrieve (h : b.Inv) (len : UInt64) :
    (b.retrieve len).readable = b.readable.drop len.toNat := by
  obtain ⟨h₁, h₂, h₃, h₄⟩ := h.nat
  have hr := h.toNat_readableBytes
  unfold retrieve
  split
  next hlt =>
    simp only [readable, h.toNat_advance hlt, Memory.drop_slice]
    congr 1
    omega
  next hge =>
    rw [UInt64.lt_iff_toNat_lt, hr] at hge
    rw [readable_retrieveAll, List.drop_eq_nil_of_le]
    rw [h.length_readable, hr]
    omega

theorem Inv.retrieve (h : b.Inv) (len : UInt64) : (b.retrieve len).Inv := by
  unfold Buffer.retrieve
  split
  next hlt =>
    obtain ⟨h₁, h₂, h₃, h₄⟩ := h.nat
    have hsum := h.toNat_advance hlt
    rw [UInt64.lt_iff_toNat_lt, h.toNat_readableBytes] at hlt
    exact .of_nat (by simp only [hsum]; omega) (by simp only [hsum]; omega) h₃
  next => exact h.retrieveAll

/-- A copy of no more than is readable returns the front of the readable bytes. -/
theorem retrieveAsString_eq (h : b.Inv) {len : UInt64} (hlen : len ≤ b.readableBytes) :
    b.retrieveAsString len = .ok (b.readable.take len.toNat, b.retrieve len) := by
  obtain ⟨h₁, h₂, h₃, h₄⟩ := h.nat
  have hmax := b.buffer_.length_le
  rw [UInt64.le_iff_toNat_le, h.toNat_readableBytes] at hlen
  rw [retrieveAsString, Chars.string, if_pos (by omega), Chars.read,
    Memory.readRange_eq (by omega), readable, Memory.take_slice _ _ hlen]
  rfl

/-! ## Making room -/

/-- What `makeSpace` compares with the request is the size of the vector. -/
theorem Inv.toNat_room (h : b.Inv) :
    (b.writableBytes + b.prependableBytes).toNat = b.buffer_.data.length := by
  obtain ⟨h₁, h₂, h₃, h₄⟩ := h.nat
  have hw := h.toNat_writableBytes
  rw [toNat_add_of_lt (by rw [hw, prependableBytes]; omega), hw, prependableBytes]
  omega

/-- A request that does not fit the vector goes to `resize`. -/
theorem makeSpace_resize (h : b.Inv) (len : UInt64) (sum : len.toNat + 8 < 2 ^ 64)
    (full : b.buffer_.data.length < len.toNat + 8) :
    b.makeSpace len = do
      let v ← b.buffer_.resize (b.writeIndex_ + len)
      return { b with buffer_ := v } := by
  refine if_pos ?_
  rw [UInt64.lt_iff_toNat_lt, h.toNat_room, UInt64.toNat_add, toNat_kCheapPrepend]
  omega

/-- The vector is asked for fewer than 2^64 bytes: it grows behind the readable
bytes, or refuses and nothing changes. -/
theorem makeSpace_grow (h : b.Inv) (len : UInt64) (sum : len.toNat + 8 < 2 ^ 64)
    (full : b.buffer_.data.length < len.toNat + 8)
    (nowrap : b.writeIndex_.toNat + len.toNat < 2 ^ 64) :
    (∃ v : Chars, b.makeSpace len = .ok { b with buffer_ := v } ∧
      v.data.length = b.writeIndex_.toNat + len.toNat ∧
      ({ b with buffer_ := v } : Buffer).readable = b.readable) ∨
    b.makeSpace len = .error .lengthError := by
  obtain ⟨h₁, h₂, h₃, h₄⟩ := h.nat
  have hsum := toNat_add_of_lt nowrap
  rw [makeSpace_resize h len sum full, Chars.resize]
  split
  next hmax =>
    refine .inl ⟨_, rfl, ?_, ?_⟩
    · simp only [hsum, List.length_append, List.length_take, List.length_replicate]
      omega
    · simp only [readable, hsum]
      rw [List.take_of_length_le (by omega), Memory.slice_append_right (by omega)]
  next => exact .inr rfl

theorem makeSpace_lengthError_iff (h : b.Inv) (len : UInt64) (sum : len.toNat + 8 < 2 ^ 64)
    (full : b.buffer_.data.length < len.toNat + 8)
    (nowrap : b.writeIndex_.toNat + len.toNat < 2 ^ 64) :
    b.makeSpace len = .error .lengthError ↔ maxSize < b.writeIndex_.toNat + len.toNat := by
  have hsum := toNat_add_of_lt nowrap
  rw [makeSpace_resize h len sum full, Chars.resize, ← hsum]
  split
  next hmax => simpa [bind, Except.bind, pure, Except.pure] using hmax
  next hmax => simpa [bind, Except.bind] using hmax

/-- The request fits the vector, or its sum with the prefix wraps: the readable bytes
move to the front. -/
theorem makeSpace_compact (h : b.Inv) (len : UInt64)
    (fits : (len.toNat + 8) % 2 ^ 64 ≤ b.buffer_.data.length) :
    ∃ b', b.makeSpace len = .ok b' ∧ b'.Inv ∧ b'.readable = b.readable ∧
      b'.buffer_.data.length = b.buffer_.data.length ∧
      b'.writeIndex_.toNat = 8 + (b.writeIndex_.toNat - b.readerIndex_.toNat) := by
  obtain ⟨h₁, h₂, h₃, h₄⟩ := h.nat
  have hge : ¬ b.writableBytes + b.prependableBytes < len + kCheapPrepend := by
    rw [UInt64.lt_iff_toNat_lt, h.toNat_room, UInt64.toNat_add]
    change ¬ _ < (len.toNat + 8) % 2 ^ 64
    omega
  have hr := h.toNat_readableBytes
  have hw : (kCheapPrepend + b.readableBytes).toNat =
      8 + (b.writeIndex_.toNat - b.readerIndex_.toNat) := by
    rw [toNat_add_of_lt, hr]
    · rfl
    · rw [hr, toNat_kCheapPrepend]
      omega
  obtain ⟨v, hv, hdata⟩ := b.buffer_.copyWithin_eq kCheapPrepend h₂ h₁ h₃
  have hlr : b.readable.length = b.writeIndex_.toNat - b.readerIndex_.toNat := by
    rw [h.length_readable, hr]
  have hlen : v.data.length = b.buffer_.data.length := by
    exact Memory.length_copyWithin (Chars.data_copyWithin hv)
  refine ⟨⟨v, kCheapPrepend, kCheapPrepend + b.readableBytes⟩, ?_, ?_, ?_, hlen, hw⟩
  · rw [makeSpace, if_neg hge, hv]
    rfl
  · exact .of_nat (Nat.le_refl 8) (by rw [hw]; exact Nat.le_add_right 8 _)
      (by rw [hw, hlen]; omega)
  · have hn : (kCheapPrepend + b.readableBytes).toNat - kCheapPrepend.toNat =
        b.readable.length := by
      rw [hw, hlr]
      exact Nat.add_sub_cancel_left 8 _
    rw [readable, hn, hdata]
    exact Memory.slice_overwrite (by rw [toNat_kCheapPrepend]; omega) _

/-- A sum that wraps asks `resize` for fewer bytes than are in use: the vector is cut
below `writeIndex_`. -/
theorem makeSpace_cut (h : b.Inv) (len : UInt64) (sum : len.toNat + 8 < 2 ^ 64)
    (wraps : 2 ^ 64 ≤ b.writeIndex_.toNat + len.toNat) :
    ∃ b', b.makeSpace len = .ok b' ∧ ¬ b'.Inv := by
  obtain ⟨h₁, h₂, h₃, h₄⟩ := h.nat
  have hsum : (b.writeIndex_ + len).toNat = b.writeIndex_.toNat + len.toNat - 2 ^ 64 := by
    have := len.toNat_lt
    rw [UInt64.toNat_add]
    omega
  rw [makeSpace_resize h len sum (by omega), Chars.resize,
    dif_pos (by rw [hsum, maxSize]; omega)]
  refine ⟨_, rfl, fun hi => ?_⟩
  have hw := hi.nat.2.2.1
  simp only [hsum, List.length_append, List.length_take, List.length_replicate] at hw
  omega

/-- The vector is not cut, and what was readable still is. -/
structure Keeps (b b' : Buffer) : Prop where
  inv : b'.Inv
  readable : b'.readable = b.readable
  size_le : b.buffer_.size ≤ b'.buffer_.size

/-- As long as no sum wraps, both branches of `makeSpace` keep everything. The other way it can
end is a `resize` beyond the limit of the vector, which leaves the buffer as it was. -/
theorem makeSpace_keeps (h : b.Inv) {len : UInt64}
    (nowrap : b.writeIndex_.toNat + len.toNat < 2 ^ 64) :
    (∃ b', b.makeSpace len = .ok b' ∧ b.Keeps b') ∨
      b.makeSpace len = .error .lengthError ∧ maxSize < b.writeIndex_.toNat + len.toNat := by
  obtain ⟨h₁, h₂, h₃, -⟩ := h.nat
  by_cases full : b.buffer_.data.length < len.toNat + 8
  · rcases makeSpace_grow h len (by omega) full nowrap with ⟨v, hv, hlen, hread⟩ | herr
    · refine .inl ⟨_, hv, .of_nat h₁ h₂ ?_, hread, ?_⟩
      · simp only [hlen]
        omega
      · -- `writeIndex_` is not below the prefix that the comparison adds to `len`
        rw [UInt64.le_iff_toNat_le, Chars.toNat_size, Chars.toNat_size, hlen]
        omega
    · exact .inr ⟨herr, (makeSpace_lengthError_iff h len (by omega) full nowrap).mp herr⟩
  · obtain ⟨b', hb', hinv, hread, hlen, -⟩ := makeSpace_compact h len (by omega)
    refine .inl ⟨b', hb', hinv, hread, ?_⟩
    rw [UInt64.le_iff_toNat_le, Chars.toNat_size, Chars.toNat_size]
    exact Nat.le_of_eq hlen.symm

/-- Three readable bytes move down by one cell. -/
theorem makeSpace_keeps_overlap :
    (∃ b', (⟨⟨List.replicate 8 0 ++ [97, 98, 99, 100], by decide⟩, 9, 12⟩ : Buffer).makeSpace 4 =
        .ok b' ∧
      (⟨⟨List.replicate 8 0 ++ [97, 98, 99, 100], by decide⟩, 9, 12⟩ : Buffer).Keeps b') ∨
    (⟨⟨List.replicate 8 0 ++ [97, 98, 99, 100], by decide⟩, 9, 12⟩ : Buffer).makeSpace 4 =
        .error .lengthError ∧ maxSize < (12 : UInt64).toNat + (4 : UInt64).toNat :=
  makeSpace_keeps (by decide) (by decide)

theorem ensureWriteableBytes_eq (h : b.Inv) (len : UInt64)
    (room : b.readerIndex_.toNat + len.toNat ≤ b.buffer_.data.length) :
    b.ensureWriteableBytes len = .ok b := by
  rw [ensureWriteableBytes, if_neg]
  rw [UInt64.lt_iff_toNat_lt, h.toNat_writableBytes]
  omega

theorem ensureWriteableBytes_eq_makeSpace (h : b.Inv) (len : UInt64)
    (full : b.buffer_.data.length < b.readerIndex_.toNat + len.toNat) :
    b.ensureWriteableBytes len = b.makeSpace len := by
  obtain ⟨h₁, h₂, h₃, h₄⟩ := h.nat
  rw [ensureWriteableBytes, if_pos]
  rw [UInt64.lt_iff_toNat_lt, h.toNat_writableBytes]
  omega

/-- `std::copy` wants a destination outside its source: a compaction for
`ensureWriteableBytes` moves the bytes down by one cell at least. So the copy of `makeSpace`
is one that the standard defines, as `copyWithin` takes it to be. -/
theorem prepend_lt_of_compact (h : b.Inv) {len : UInt64} (sum : len.toNat + 8 < 2 ^ 64)
    (full : b.writableBytes < len)
    (fits : ¬ b.writableBytes + b.prependableBytes < len + kCheapPrepend) :
    kCheapPrepend < b.readerIndex_ := by
  have hsum : (len + kCheapPrepend).toNat = len.toNat + 8 := toNat_add_of_lt sum
  rw [UInt64.lt_iff_toNat_lt, h.toNat_writableBytes] at full
  rw [UInt64.lt_iff_toNat_lt, h.toNat_room, hsum] at fits
  rw [UInt64.lt_iff_toNat_lt, toNat_kCheapPrepend]
  omega

/-! ## Appending behind `writeIndex_` -/

/-- With room behind `writeIndex_`, the copy adds exactly the data. -/
theorem copy_tail (h : b.Inv) {data : Chars}
    (room : b.writeIndex_.toNat + data.data.length ≤ b.buffer_.data.length) :
    ∃ v, b.buffer_.copyInto b.writeIndex_ data.data = .ok v ∧
      (⟨v, b.readerIndex_, b.writeIndex_ + data.size⟩ : Buffer).Inv ∧
      (⟨v, b.readerIndex_, b.writeIndex_ + data.size⟩ : Buffer).readable =
        b.readable ++ data.data := by
  obtain ⟨h₁, h₂, h₃, h₄⟩ := h.nat
  obtain ⟨v, hv, hdata⟩ := b.buffer_.copyInto_eq room
  have hlen : v.data.length = b.buffer_.data.length :=
    Memory.length_copyInto (Chars.data_copyInto hv)
  have hw : (b.writeIndex_ + data.size).toNat = b.writeIndex_.toNat + data.data.length := by
    rw [toNat_add_of_lt (by rw [Chars.toNat_size]; omega), Chars.toNat_size]
  refine ⟨v, hv, .of_nat h₁ (by simp only [hw]; omega) (by simp only [hw, hlen]; omega), ?_⟩
  have hold : Memory.slice v.data b.readerIndex_.toNat
      (b.writeIndex_.toNat - b.readerIndex_.toNat) = b.readable := by
    rw [hdata]
    exact Memory.slice_overwrite_before (by omega) h₃ _
  have hnew : Memory.slice v.data b.writeIndex_.toNat data.data.length = data.data := by
    rw [hdata]
    exact Memory.slice_overwrite h₃ _
  have hsplit := Memory.slice_append v.data b.readerIndex_.toNat
    (b.writeIndex_.toNat - b.readerIndex_.toNat) data.data.length
  rw [Nat.add_sub_cancel' h₂, hold, hnew] at hsplit
  have hn : b.writeIndex_.toNat - b.readerIndex_.toNat + data.data.length =
      b.writeIndex_.toNat + data.data.length - b.readerIndex_.toNat := by omega
  simp only [readable, hw, ← hn] at hsplit ⊢
  exact hsplit.symm

/-- What `append` does once `ensureWriteableBytes` has returned `b'`. -/
theorem append_of_ensure {b' : Buffer} {data : Chars}
    (ensure : b.ensureWriteableBytes data.size = .ok b') (h : b'.Inv)
    (room : b'.writeIndex_.toNat + data.data.length ≤ b'.buffer_.data.length) :
    ∃ c, b.append data = .ok c ∧ c.Inv ∧ c.readable = b'.readable ++ data.data := by
  obtain ⟨v, hv, hi, hr⟩ := copy_tail h room
  refine ⟨_, ?_, hi, hr⟩
  rw [append, ensure]
  simp only [bind, Except.bind, hv]
  rfl

/-- Without room behind `writeIndex_` the copy leaves the vector. -/
theorem append_outOfRange {b' : Buffer} {data : Chars}
    (ensure : b.ensureWriteableBytes data.size = .ok b') (hd : data.data ≠ [])
    (full : b'.buffer_.data.length < b'.writeIndex_.toNat + data.data.length) :
    b.append data = .error .outOfRange := by
  rw [append, ensure]
  simp only [bind, Except.bind, Chars.copyInto_outOfRange _ hd full]

/-- An `append` throws where the vector has to grow beyond its limit, and only there. -/
theorem append_lengthError_iff (h : b.Inv) (data : Chars) :
    b.append data = .error .lengthError ↔
      b.buffer_.data.length < b.readerIndex_.toNat + data.data.length ∧
        b.buffer_.data.length < data.data.length + 8 ∧
        maxSize < b.writeIndex_.toNat + data.data.length := by
  obtain ⟨h₁, h₂, h₃, h₄⟩ := h.nat
  have hmax := data.length_le
  simp only [maxSize] at hmax
  -- the copy itself never throws this
  have hcopy : ∀ b', b.ensureWriteableBytes data.size = .ok b' →
      b.append data ≠ .error .lengthError := by
    intro b' hens herr
    have hne := b'.buffer_.copyInto_ne_lengthError b'.writeIndex_ data.data
    rw [append, hens] at herr
    simp only [bind, Except.bind] at herr
    split at herr
    · simp_all
    · contradiction
  by_cases full : b.buffer_.data.length < b.readerIndex_.toNat + data.data.length
  · have hens := ensureWriteableBytes_eq_makeSpace h data.size (by rw [Chars.toNat_size]; omega)
    by_cases grow : b.buffer_.data.length < data.data.length + 8
    · have hiff := makeSpace_lengthError_iff h data.size (by rw [Chars.toNat_size]; omega)
        (by rw [Chars.toNat_size]; omega) (by rw [Chars.toNat_size]; omega)
      rw [Chars.toNat_size, ← hens] at hiff
      rw [← hiff]
      simp only [full, grow, true_and]
      constructor
      · intro herr
        cases he : b.ensureWriteableBytes data.size with
        | ok b' => exact absurd herr (hcopy b' he)
        | error e =>
          rw [append, he] at herr
          exact herr
      · intro herr
        rw [append, herr]
        rfl
    · obtain ⟨b', hb', -⟩ := makeSpace_compact h data.size (by rw [Chars.toNat_size]; omega)
      simp only [hcopy b' (hens.trans hb'), grow, false_and, and_false]
  · have hens := ensureWriteableBytes_eq h data.size (by rw [Chars.toNat_size]; omega)
    simp only [hcopy b hens, full, false_and]

end Buffer

end Muduo
