import Kenmuduo.Buffer

/-!
# A read into two areas

A successful `readv` fills the room behind the contents first and then
`extrabuff`, whose bytes are appended to a full buffer. `append` of all the
bytes at once asks `makeSpace` for more, but decides in the same way between
moving the contents and growing, and fails in the same cases.
-/

namespace Kenmuduo
namespace Buffer

/-- Where the contents can be moved to make room, `append` does not throw. -/
theorem Inv.append_loose {b : Buffer} (h : b.Inv) (data : Pointer UInt8) {len : Nat}
    (hlen : len ≤ vectorMax) (loose : len + 8 ≤ b.buffer.size - b.writerIndex + b.readerIndex) :
    b.append data len ≠ .error .lengthError := by
  intro throws
  have room : ∃ r, b.ensureWritableBytes len = .ok r := by
    unfold Buffer.ensureWritableBytes
    split
    · obtain ⟨r, hr, _⟩ := h.makeSpace_compacts hlen loose
      exact ⟨r, hr⟩
    · exact ⟨b, rfl⟩
  obtain ⟨r, hr⟩ := room
  cases hf : r.buffer.copyFrom r.writerIndex data len with
  | none => simp [Buffer.append, hr, hf] at throws
  | some filled => simp [Buffer.append, hr, hf] at throws

/-- A buffer that has grown, if there was no room to move the contents to, and
holds `len` more bytes has grown exactly then. -/
theorem Inv.size_of_holds {b b' : Buffer} (h : b.Inv) (inv : b'.Inv) {len : Nat}
    (holds : b'.readable.length = b.readable.length + len)
    (size : b'.buffer.size = b.buffer.size ∨ b'.buffer.size = b.writerIndex + len ∧
      b.buffer.size - b.writerIndex + b.readerIndex < len + 8) :
    b'.buffer.size = if b.buffer.size - b.writerIndex + b.readerIndex < len + 8
      then b.writerIndex + len else b.buffer.size := by
  rw [inv.readable_length, h.readable_length, inv.readableBytes_eq, h.readableBytes_eq] at holds
  obtain ⟨hp, ho, hi, _⟩ := h.bounds
  obtain ⟨hp', ho', hi', _⟩ := inv.bounds
  split
  · omega
  · omega

/-- `append` throws when the contents cannot be moved to make room and the
vector cannot grow behind them. -/
theorem Inv.append_throws {b : Buffer} (h : b.Inv) (data : Pointer UInt8) {len : Nat}
    (hlen : len ≤ vectorMax) :
    b.append data len = .error .lengthError ↔
      b.buffer.size - b.writerIndex + b.readerIndex < len + 8 ∧
        vectorMax < b.writerIndex + len := by
  constructor
  · intro throws
    constructor
    · apply Nat.lt_of_not_le
      exact fun loose => h.append_loose data hlen loose throws
    · obtain ⟨b', hb, _⟩ | ⟨_, beyond⟩ := h.append data hlen
      · rw [hb] at throws
        cases throws
      · exact beyond
  · rintro ⟨tight, beyond⟩
    obtain ⟨b', _, inv, same, size⟩ | ⟨throws, _⟩ := h.append data hlen
    · exfalso
      have holds := congrArg List.length same
      rw [List.length_append, Pointer.cells_length] at holds
      have grown := h.size_of_holds inv holds size
      rw [if_pos tight] at grown
      exact Nat.not_le_of_lt beyond (grown ▸ b'.buffer.size_le)
    · exact throws

/-! ## readFd -/

/-- What `readFd` leaves when `readv` has delivered the bytes. -/
structure Received (b : Buffer) (bytes : List UInt8) (saveErrno : Nat) (r : ReadFd) : Prop where
  n : r.n = bytes.length
  saveErrno : r.saveErrno = saveErrno
  inv : r.buf.Inv
  readable : r.buf.readable = b.readable ++ bytes
  size : r.buf.buffer.size = b.buffer.size ∨ r.buf.buffer.size = b.writerIndex + bytes.length ∧
    b.buffer.size - b.writerIndex + b.readerIndex < bytes.length + 8
  extraRead : r.extraRead = bytes.length - b.writableBytes

/-- `readFd` after `readv`: the bytes beyond the room are appended to the full
buffer. -/
theorem readFd_delivered {b : Buffer} {bytes : List UInt8} {saveErrno : Nat}
    {filled : Storage UInt8 vectorMax}
    (hf : b.buffer.copyFrom b.writerIndex (Pointer.ofList bytes 0)
      (min bytes.length b.writableBytes) = some filled) :
    b.readFd (.delivered bytes) saveErrno =
      if bytes.length < b.writableBytes then
        .ok ⟨toSsize bytes.length, saveErrno,
          { b with buffer := filled, writerIndex := sizeAdd b.writerIndex bytes.length }, 0⟩
      else
        (append { b with buffer := filled, writerIndex := filled.size }
          (Pointer.ofList (bytes.drop b.writableBytes) 0)
          (sizeSub bytes.length b.writableBytes)).map fun b' =>
            ⟨toSsize bytes.length, saveErrno, b', sizeSub bytes.length b.writableBytes⟩ := by
  simp only [readFd, readv, hf, orFault_some, ok_bind, Nat.not_lt_zero, if_false, pure_ok]
  by_cases part : bytes.length < b.writableBytes
  · simp only [part, if_true]
  · simp only [part, if_false]
    cases append { b with buffer := filled, writerIndex := filled.size }
        (Pointer.ofList (bytes.drop b.writableBytes) 0) (sizeSub bytes.length b.writableBytes) with
    | error e => rfl
    | ok b' => rfl

/-- The kernel can deliver no more than an object can hold. -/
theorem Inv.offered_le {b : Buffer} (h : b.Inv) : b.offered ≤ vectorMax := by
  have hw := h.writableBytes_eq
  obtain ⟨_, _, _, hs⟩ := h.bounds
  unfold offered
  show _ ≤ 9223372036854775807
  split
  · simp only [extrabuffSize] at *
    omega
  · omega

theorem Inv.readFd {b : Buffer} (h : b.Inv) {bytes : List UInt8}
    (fits : bytes.length ≤ b.offered) (saveErrno : Nat) :
    (∃ r, b.readFd (.delivered bytes) saveErrno = .ok r ∧ b.Received bytes saveErrno r) ∨
    (b.readFd (.delivered bytes) saveErrno = .error .lengthError ∧
      b.buffer.size - b.writerIndex + b.readerIndex < bytes.length + 8 ∧
      vectorMax < b.writerIndex + bytes.length) := by
  have hw := h.writableBytes_eq
  have hmax : bytes.length ≤ 9223372036854775807 := Nat.le_trans fits h.offered_le
  obtain ⟨hp, ho, hi, hs⟩ := h.bounds
  have room : min bytes.length b.writableBytes ≤ b.buffer.size - b.writerIndex := by omega
  obtain ⟨filled, hf, size, inv, readable⟩ := h.fill (Pointer.ofList bytes 0) room
  rw [Pointer.ofList_cells (Nat.min_le_left _ _)] at readable
  rw [readFd_delivered hf, toSsize_eq (by omega)]
  by_cases part : bytes.length < b.writableBytes
  · left
    rw [if_pos part, sizeAdd_eq (by omega)]
    rw [Nat.min_eq_left (Nat.le_of_lt part)] at inv readable
    refine ⟨_, rfl, rfl, rfl, inv, ?_, .inl size, by simp only; omega⟩
    rw [readable, List.take_length]
  · rw [if_neg part, sizeSub_eq (by omega) (by omega)]
    rw [Nat.min_eq_right (Nat.le_of_not_lt part)] at inv readable
    have full : b.writerIndex + b.writableBytes = filled.size := by omega
    rw [full] at inv readable
    have extra : bytes.length - b.writableBytes ≤ vectorMax := by
      show _ ≤ 9223372036854775807
      omega
    obtain ⟨b', hb, inv', same, grown⟩ | ⟨throws, beyond⟩ :=
      inv.append (Pointer.ofList (bytes.drop b.writableBytes) 0) extra
    · left
      rw [hb]
      refine ⟨_, rfl, rfl, rfl, inv', ?_, ?_, rfl⟩
      · rw [same, readable, Pointer.ofList_cells (Nat.le_of_eq (List.length_drop ..).symm),
          List.append_assoc, ← List.length_drop, List.take_length, List.take_append_drop]
      · simp only at grown ⊢
        omega
    · right
      rw [throws]
      obtain ⟨tight, _⟩ := (inv.append_throws _ extra).mp throws
      simp only at tight beyond
      refine ⟨rfl, by omega, ?_⟩
      have beyond : 9223372036854775807 <
          filled.size + (bytes.length - b.writableBytes) := beyond
      show 9223372036854775807 < _
      omega

/-! ## Against append -/

/-- After `readv` has delivered some bytes, `readFd` returns their number and
leaves the readable contents that `append` of them leaves, reading no more of
`extrabuff` than it holds; or both need a vector that is too long. -/
theorem readFd_appends {b : Buffer} (h : b.Inv) {bytes : List UInt8}
    (fits : bytes.length ≤ b.offered) (saveErrno : Nat) :
    (∃ r b', b.readFd (.delivered bytes) saveErrno = .ok r ∧
      b.append (Pointer.ofList bytes 0) bytes.length = .ok b' ∧
      r.n = bytes.length ∧ r.saveErrno = saveErrno ∧ r.buf.Inv ∧
      r.buf.readable = b'.readable ∧ r.buf.readable = b.readable ++ bytes ∧
      r.buf.buffer.size = b'.buffer.size ∧ r.extraRead ≤ extrabuffSize) ∨
    (b.readFd (.delivered bytes) saveErrno = .error .lengthError ∧
      b.append (Pointer.ofList bytes 0) bytes.length = .error .lengthError ∧
      vectorMax < b.writerIndex + bytes.length) := by
  have hw := h.writableBytes_eq
  have hlen : bytes.length ≤ vectorMax := Nat.le_trans fits h.offered_le
  obtain ⟨r, hr, received⟩ | ⟨throws, tight, beyond⟩ := h.readFd fits saveErrno
  · left
    have holds : r.buf.readable.length = b.readable.length + bytes.length := by
      rw [received.readable, List.length_append]
    obtain ⟨b', hb, inv, same, size⟩ | ⟨throws, beyond⟩ :=
      h.append (Pointer.ofList bytes 0) hlen
    · rw [Pointer.ofList_cells (Nat.le_refl _), List.take_length] at same
      refine ⟨r, b', hr, hb, received.n, received.saveErrno, received.inv, ?_, received.readable,
        ?_, ?_⟩
      · rw [received.readable, same]
      · rw [h.size_of_holds received.inv holds received.size, h.size_of_holds inv ?_ size]
        rw [same, List.length_append]
      · rw [received.extraRead]
        unfold offered at fits
        split at fits <;> omega
    · exfalso
      obtain ⟨tight, _⟩ := (h.append_throws _ hlen).mp throws
      have grown := h.size_of_holds received.inv holds received.size
      rw [if_pos tight] at grown
      exact Nat.not_le_of_lt beyond (grown ▸ r.buf.buffer.size_le)
  · right
    exact ⟨throws, (h.append_throws _ hlen).mpr ⟨tight, beyond⟩, beyond⟩

theorem new_writableBytes : new.writableBytes = 1024 := by
  rw [new_inv.writableBytes_eq]
  simp [new, Storage.size]

/-- 2000 bytes come in for a new buffer, 976 of them by way of `extrabuff`. -/
theorem readFd_appends_new :
    ∃ r, new.readFd (.delivered (List.replicate 2000 1)) 0 = .ok r ∧ r.n = 2000 ∧
      r.buf.readable = List.replicate 2000 1 := by
  have fits : (List.replicate 2000 (1 : UInt8)).length ≤ new.offered := by
    rw [List.length_replicate, offered, new_writableBytes]
    decide
  obtain ⟨r, _, hr, _, n, _, _, _, readable, _⟩ | ⟨_, _, beyond⟩ :=
    readFd_appends new_inv fits 0
  · refine ⟨r, hr, ?_, ?_⟩
    · rw [n, List.length_replicate]
      rfl
    · rw [readable, new_readable, List.nil_append]
  · rw [List.length_replicate] at beyond
    exact absurd beyond (by decide)

end Buffer
end Kenmuduo
