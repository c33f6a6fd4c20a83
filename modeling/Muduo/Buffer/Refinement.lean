import Muduo.Buffer.Operations
import Muduo.Library.Fifo

/-!
# The buffer as a byte queue

Runs of buffer operations against a `Fifo` of bytes. `writableBytes` subtracts the
reader index, so `append` believes in free space that lies below `writeIndex_`;
`HasRoom` is the condition under which an operation is served all the same.
-/

namespace Muduo.Buffer

inductive Op where
  | append (data : Chars)
  | ensureWriteableBytes (len : UInt64)
  | retrieve (len : UInt64)
  | retrieveAll
  | retrieveAsString (len : UInt64)
  | retrieveAllAsString

/-- The bytes returned and the buffer left behind. -/
def apply (b : Buffer) : Op → Except Fault (List UInt8 × Buffer)
  | .append data => (b.append data).map ([], ·)
  | .ensureWriteableBytes len => (b.ensureWriteableBytes len).map ([], ·)
  | .retrieve len => .ok ([], b.retrieve len)
  | .retrieveAll => .ok ([], b.retrieveAll)
  | .retrieveAsString len => b.retrieveAsString len
  | .retrieveAllAsString => b.retrieveAllAsString

/-- A string is asked for no longer than what is readable. -/
def Op.Legal (b : Buffer) : Op → Prop
  | .retrieveAsString len => len ≤ b.readableBytes
  | _ => True

instance (b : Buffer) : (op : Op) → Decidable (op.Legal b)
  | .retrieveAsString len => inferInstanceAs (Decidable (len ≤ b.readableBytes))
  | .append _ | .ensureWriteableBytes _ | .retrieve _ | .retrieveAll | .retrieveAllAsString =>
    inferInstanceAs (Decidable True)

/-- The effect of an operation on the queue. -/
def Op.move (q : Fifo UInt8) : Op → Fifo UInt8
  | .append data => q.enter data.data
  | .ensureWriteableBytes _ => q
  | .retrieve len | .retrieveAsString len => q.leave len.toNat
  | .retrieveAll | .retrieveAllAsString => q.leave q.waiting.length

/-- The bytes an operation must return. -/
def Op.result (q : Fifo UInt8) : Op → List UInt8
  | .retrieveAsString len => q.waiting.take len.toNat
  | .retrieveAllAsString => q.waiting
  | _ => []

/-- The indices are in order and the readable bytes are the waiting ones. -/
structure Represents (b : Buffer) (q : Fifo UInt8) : Prop where
  inv : b.Inv
  readable : b.readable = q.waiting

/-- Every state of the run represents the queue, every operation returns what the
queue gives, and no copy leaves the vector. An operation that throws changes
neither. -/
def Refines : Buffer → Fifo UInt8 → List Op → Prop
  | b, q, [] => b.Represents q
  | b, q, op :: ops => b.Represents q ∧ (op.Legal b →
    match b.apply op with
    | .ok (out, b') => out = op.result q ∧ Refines b' (op.move q) ops
    | .error .lengthError => Refines b q ops
    | .error .outOfRange => False)

/-- Legal calls in sequence; a copy outside the vector has no successor. -/
def machine : Machine Buffer Op where
  init b := ∃ initialSize, Buffer.new initialSize = .ok b
  step b op :=
    if op.Legal b then
      match b.apply op with
      | .ok (_, b') => some b'
      | .error .lengthError => some b
      | .error .outOfRange => none
    else none

/-- When an operation is served. Appended data fits behind `writeIndex_`; or it is
longer than `size - readerIndex_`, so that `makeSpace` runs, and then exceeds the
vector, which grows, or fits behind the moved bytes. A request for room does not
wrap in the sum that `resize` is given. -/
def HasRoom (b : Buffer) : Op → Prop
  | .append data =>
    b.writeIndex_.toNat + data.data.length ≤ b.buffer_.data.length ∨
      b.buffer_.data.length < b.readerIndex_.toNat + data.data.length ∧
        (b.buffer_.data.length < data.data.length + 8 ∨
          8 + (b.writeIndex_.toNat - b.readerIndex_.toNat) + data.data.length ≤
            b.buffer_.data.length)
  | .ensureWriteableBytes len =>
    b.writeIndex_.toNat + len.toNat < 2 ^ 64 ∨ 2 ^ 64 ≤ len.toNat + 8
  | _ => True

variable {b : Buffer} {q : Fifo UInt8}

/-- An operation that is served: it moves the queue, or throws. -/
def Serves (b : Buffer) (q : Fifo UInt8) (op : Op) : Prop :=
  (∃ b', b.apply op = .ok (op.result q, b') ∧ b'.Represents (op.move q)) ∨
    b.apply op = .error .lengthError

/-! ## One operation -/

theorem serves_append (h : b.Represents q) (data : Chars) (room : b.HasRoom (.append data)) :
    b.Serves q (.append data) := by
  obtain ⟨h₁, h₂, h₃, h₄⟩ := h.inv.nat
  have hmax := data.length_le
  simp only [maxSize] at hmax
  -- in every branch: `ensureWriteableBytes` returned `b'`, which has room
  have finish : ∀ b', b.ensureWriteableBytes data.size = .ok b' → b'.Inv →
      b'.readable = b.readable →
      b'.writeIndex_.toNat + data.data.length ≤ b'.buffer_.data.length →
      b.Serves q (.append data) := by
    intro b' hens hinv hread hroom
    obtain ⟨c, hc, hi, hr⟩ := append_of_ensure hens hinv hroom
    refine .inl ⟨c, ?_, hi, ?_⟩
    · simp only [apply, hc]
      rfl
    · rw [hr, hread, h.readable]
      rfl
  rcases room with fits | ⟨full, grow | compact⟩
  · exact finish b (ensureWriteableBytes_eq h.inv _ (by rw [Chars.toNat_size]; omega)) h.inv rfl fits
  · have hens := ensureWriteableBytes_eq_makeSpace h.inv data.size
      (by rw [Chars.toNat_size]; omega)
    rcases makeSpace_grow h.inv data.size (by rw [Chars.toNat_size]; omega)
      (by rw [Chars.toNat_size]; omega) (by rw [Chars.toNat_size]; omega)
      with ⟨v, hv, hlen, hread⟩ | herr
    · rw [Chars.toNat_size] at hlen
      exact finish _ (hens.trans hv) (.of_nat h₁ h₂ (by simp only [hlen]; omega)) hread
        (by simp only [hlen]; omega)
    · refine .inr ?_
      simp only [apply, append, hens, herr]
      rfl
  · have hens := ensureWriteableBytes_eq_makeSpace h.inv data.size
      (by rw [Chars.toNat_size]; omega)
    obtain ⟨b', hb', hinv, hread, hlen, hw⟩ := makeSpace_compact h.inv data.size
      (by rw [Chars.toNat_size]; omega)
    exact finish b' (hens.trans hb') hinv hread (by omega)

theorem serves_ensureWriteableBytes (h : b.Represents q) (len : UInt64)
    (room : b.HasRoom (.ensureWriteableBytes len)) : b.Serves q (.ensureWriteableBytes len) := by
  obtain ⟨h₁, h₂, h₃, h₄⟩ := h.inv.nat
  have hlen64 := len.toNat_lt
  have finish : ∀ b', b.ensureWriteableBytes len = .ok b' → b'.Inv →
      b'.readable = b.readable → b.Serves q (.ensureWriteableBytes len) := by
    intro b' hens hinv hread
    exact .inl ⟨b', by simp only [apply, hens]; rfl, hinv, hread.trans h.readable⟩
  by_cases full : b.buffer_.data.length < b.readerIndex_.toNat + len.toNat
  · have hens := ensureWriteableBytes_eq_makeSpace h.inv len full
    by_cases fits : (len.toNat + 8) % 2 ^ 64 ≤ b.buffer_.data.length
    · obtain ⟨b', hb', hinv, hread, -, -⟩ := makeSpace_compact h.inv len fits
      exact finish b' (hens.trans hb') hinv hread
    · simp only [HasRoom] at room
      rcases makeSpace_grow h.inv len (by omega) (by omega) (by omega)
        with ⟨v, hv, hlen, hread⟩ | herr
      · exact finish _ (hens.trans hv) (.of_nat h₁ h₂ (by simp only [hlen]; omega)) hread
      · refine .inr ?_
        simp only [apply, hens, herr]
        rfl
  · exact finish b (ensureWriteableBytes_eq h.inv len (by omega)) h.inv rfl

theorem serves_retrieve (h : b.Represents q) (len : UInt64) : b.Serves q (.retrieve len) :=
  .inl ⟨_, rfl, h.inv.retrieve len, by rw [readable_retrieve h.inv, h.readable]; rfl⟩

theorem serves_retrieveAll (h : b.Represents q) : b.Serves q .retrieveAll :=
  .inl ⟨_, rfl, h.inv.retrieveAll, by simp [readable_retrieveAll, Op.move]⟩

theorem serves_retrieveAsString (h : b.Represents q) {len : UInt64}
    (legal : len ≤ b.readableBytes) : b.Serves q (.retrieveAsString len) := by
  refine .inl ⟨b.retrieve len, ?_, h.inv.retrieve len, ?_⟩
  · rw [apply, retrieveAsString_eq h.inv legal, h.readable]
    rfl
  · rw [readable_retrieve h.inv, h.readable]
    rfl

theorem serves_retrieveAllAsString (h : b.Represents q) : b.Serves q .retrieveAllAsString := by
  have hlen : b.readableBytes.toNat = q.waiting.length := by
    rw [← h.inv.length_readable, h.readable]
  refine .inl ⟨b.retrieve b.readableBytes, ?_, h.inv.retrieve _, ?_⟩
  · rw [apply, retrieveAllAsString, retrieveAsString_eq h.inv (UInt64.le_refl _), h.readable,
      hlen, List.take_length]
    rfl
  · rw [readable_retrieve h.inv, h.readable, hlen]
    rfl

/-- Step lemma: a legal operation with room is served. -/
theorem serves_of_hasRoom (h : b.Represents q) (op : Op) (legal : op.Legal b)
    (room : b.HasRoom op) : b.Serves q op := by
  cases op with
  | append data => exact serves_append h data room
  | ensureWriteableBytes len => exact serves_ensureWriteableBytes h len room
  | retrieve len => exact serves_retrieve h len
  | retrieveAll => exact serves_retrieveAll h
  | retrieveAsString len => exact serves_retrieveAsString h legal
  | retrieveAllAsString => exact serves_retrieveAllAsString h

/-- Without room the copy leaves the vector, or the vector is cut below `writeIndex_`. -/
theorem breaks_of_not_hasRoom (h : b.Inv) (op : Op) (room : ¬ b.HasRoom op) :
    b.apply op = .error .outOfRange ∨ ∃ b', b.apply op = .ok ([], b') ∧ ¬ b'.Inv := by
  obtain ⟨h₁, h₂, h₃, h₄⟩ := h.nat
  cases op with
  | append data =>
    simp only [HasRoom, not_or, not_and, Nat.not_le, Nat.not_lt] at room
    obtain ⟨hw, hroom⟩ := room
    have hmax := data.length_le
    simp only [maxSize] at hmax
    have hd : data.data ≠ [] := by
      rintro hnil
      rw [hnil, List.length_nil] at hw
      omega
    refine .inl ?_
    by_cases full : b.buffer_.data.length < b.readerIndex_.toNat + data.data.length
    · have hens := ensureWriteableBytes_eq_makeSpace h data.size
        (by rw [Chars.toNat_size]; omega)
      obtain ⟨hfit, hcompact⟩ := hroom full
      obtain ⟨b', hb', -, -, hlen, hw'⟩ := makeSpace_compact h data.size
        (by rw [Chars.toNat_size]; omega)
      simp only [apply, append_outOfRange (hens.trans hb') hd (by omega)]
      rfl
    · have hens := ensureWriteableBytes_eq h data.size (by rw [Chars.toNat_size]; omega)
      simp only [apply, append_outOfRange hens hd (by omega)]
      rfl
  | ensureWriteableBytes len =>
    simp only [HasRoom, not_or, Nat.not_le, Nat.not_lt] at room
    obtain ⟨b', hb', hinv⟩ := makeSpace_cut h len room.2 room.1
    have hens := ensureWriteableBytes_eq_makeSpace h len (by omega)
    exact .inr ⟨b', by simp only [apply, hens, hb']; rfl, hinv⟩
  | retrieve | retrieveAll | retrieveAsString | retrieveAllAsString => exact (room trivial).elim

/-- An `append` succeeds and adds its data exactly if it has room and does not throw. -/
theorem append_ok_iff (h : b.Inv) (data : Chars) :
    (∃ b', b.append data = .ok b' ∧ b'.Inv ∧ b'.readable = b.readable ++ data.data) ↔
      b.HasRoom (.append data) ∧ b.append data ≠ .error .lengthError := by
  constructor
  · rintro ⟨b', hb', hinv, -⟩
    refine ⟨?_, by simp [hb']⟩
    by_contra hroom
    rcases breaks_of_not_hasRoom h _ hroom with herr | ⟨c, hc, hbad⟩
    · simp [apply, hb', Except.map] at herr
    · simp only [apply, hb', Except.map, Except.ok.injEq, Prod.mk.injEq, true_and] at hc
      exact hbad (hc ▸ hinv)
  · rintro ⟨hroom, hne⟩
    have hrep : b.Represents (Fifo.empty.enter b.readable) := ⟨h, rfl⟩
    rcases serves_append hrep data hroom with ⟨b', hb', hrep'⟩ | herr
    · cases hap : b.append data with
      | error e => simp [apply, hap, Except.map] at hb'
      | ok c =>
        simp only [apply, hap, Except.map, Except.ok.injEq, Prod.mk.injEq] at hb'
        exact ⟨c, rfl, hb'.2 ▸ hrep'.inv, hb'.2 ▸ hrep'.readable⟩
    · cases hap : b.append data with
      | error e =>
        simp only [apply, hap, Except.map, Except.error.injEq] at herr
        exact absurd (herr ▸ hap) hne
      | ok c => simp [apply, hap, Except.map] at herr

/-! ## Runs -/

theorem Refines.represents {ops : List Op} (h : b.Refines q ops) : b.Represents q := by
  cases ops with
  | nil => exact h
  | cons op ops => exact h.1

/-- A run from a buffer that represents a queue refines it exactly when every
operation of the run has room. -/
theorem Represents.refines_iff (h : b.Represents q) (ops : List Op) :
    b.Refines q ops ↔ machine.Along (fun b op => op.Legal b → b.HasRoom op) b ops := by
  induction ops generalizing b q with
  | nil => exact ⟨fun _ => trivial, fun _ => h⟩
  | cons op ops ih =>
    simp only [Refines, Machine.Along, h, true_and]
    by_cases legal : op.Legal b
    · simp only [legal, true_imp_iff]
      by_cases room : b.HasRoom op
      · rcases serves_of_hasRoom h op legal room with ⟨b', hb', hrep⟩ | herr
        · simp [machine, legal, room, hb', ih hrep]
        · simp [machine, legal, room, herr, ih h]
      · simp only [room, false_and, iff_false]
        rcases breaks_of_not_hasRoom h.inv op room with herr | ⟨b', hb', hinv⟩
        · simp [herr]
        · simp only [hb', not_and]
          exact fun _ hrest => hinv hrest.represents.inv
    · simp [legal, machine]

theorem represents_new {initialSize : UInt64} {b : Buffer}
    (hb : Buffer.new initialSize = .ok b) :
    b.Represents .empty ↔ initialSize.toNat + 8 < 2 ^ 64 := by
  unfold new at hb
  cases hv : Chars.make (kCheapPrepend + initialSize) with
  | error e => rw [hv] at hb; contradiction
  | ok v =>
    rw [hv] at hb
    cases hb
    have hlen : v.data.length = (8 + initialSize.toNat) % 2 ^ 64 := by
      unfold Chars.make at hv
      split at hv
      · cases hv
        simp [UInt64.toNat_add]
      · contradiction
    have := initialSize.toNat_lt
    constructor
    · intro h
      have hw := h.inv.nat.2.2.1
      simp only [toNat_kCheapPrepend] at hw
      omega
    · intro h
      refine ⟨.of_nat (Nat.le_refl 8) (Nat.le_refl 8) ?_, by simp [readable]⟩
      simp only [toNat_kCheapPrepend]
      omega

/-- The buffer is a byte queue over a run exactly when its constructor's size does not
wrap and every operation of the run has room. -/
theorem refines_fifo_iff_hasRoom (initialSize : UInt64) (ops : List Op) {b : Buffer}
    (hb : Buffer.new initialSize = .ok b) :
    b.Refines .empty ops ↔ initialSize.toNat + 8 < 2 ^ 64 ∧
      machine.Along (fun b op => op.Legal b → b.HasRoom op) b ops := by
  constructor
  · intro h
    exact ⟨(represents_new hb).mp h.represents, (h.represents.refines_iff ops).mp h⟩
  · rintro ⟨size, room⟩
    exact (((represents_new hb).mpr size).refines_iff ops).mpr room

/-- Eight free bytes: three arrive, two are taken, six more fill the rest. -/
theorem refines_fifo_iff_hasRoom_small :
    (⟨⟨List.replicate 16 0, by decide⟩, 8, 8⟩ : Buffer).Refines .empty
        [.append ⟨[1, 2, 3], by decide⟩, .retrieveAsString 2, .append ⟨[4, 5, 6], by decide⟩] ↔
      (8 : UInt64).toNat + 8 < 2 ^ 64 ∧
        machine.Along (fun b op => op.Legal b → b.HasRoom op)
          ⟨⟨List.replicate 16 0, by decide⟩, 8, 8⟩
          [.append ⟨[1, 2, 3], by decide⟩, .retrieveAsString 2, .append ⟨[4, 5, 6], by decide⟩] :=
  refines_fifo_iff_hasRoom 8 _ rfl

/-- Four bytes of eight are in use and six arrive: the copy runs past the vector. -/
theorem append_past_end :
    Buffer.new 8 = .ok ⟨⟨List.replicate 16 0, by decide⟩, 8, 8⟩ ∧
      ¬ (⟨⟨List.replicate 16 0, by decide⟩, 8, 8⟩ : Buffer).Refines .empty
        [.append ⟨[1, 2, 3, 4], by decide⟩, .append ⟨[5, 6, 7, 8, 9, 10], by decide⟩] :=
  ⟨rfl, fun h => ((h.2 trivial).2.2 trivial)⟩

end Muduo.Buffer
